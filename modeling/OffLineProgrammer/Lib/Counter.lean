import Mathlib.Logic.Function.Iterate

/-!
# Counters that restart

A counter with limit `top` counts `0, 1, …, top` and then starts at `0` again
(`count`). `Samples top` is such a counter read again and again: the counts that
have passed since the first reading never fall, and two readings in a row are
less than one period apart. From two such readings the counts between them can
be told: the reading rises by them, or the counter restarted and the reading fell
(`reading_next`, `restarts_iff`).
-/

namespace OffLineProgrammer.Lib.Counter
set_option autoImplicit false

/-- One count: after the limit the counter starts again. -/
def count (top c : Nat) : Nat := if c = top then 0 else c + 1

theorem count_eq_mod {top c : Nat} (le : c ≤ top) : count top c = (c + 1) % (top + 1) := by
  unfold count
  split
  · next at_ => rw [at_, Nat.mod_self]
  · rw [Nat.mod_eq_of_lt (by omega)]

theorem count_iterate {top c : Nat} (le : c ≤ top) (k : Nat) : (count top)^[k] c = (c + k) % (top + 1) := by
  induction k with
  | zero =>
    rw [Function.iterate_zero_apply, Nat.add_zero, Nat.mod_eq_of_lt (Nat.lt_succ_of_le le)]
  | succ k ih =>
    have low : (c + k) % (top + 1) ≤ top := Nat.le_of_lt_succ (Nat.mod_lt _ (by omega))
    rw [Function.iterate_succ_apply', ih, count_eq_mod low, Nat.mod_add_mod, Nat.add_assoc]

/-- A counter that is read again and again: the counts from the first reading to
the `n`-th are `elapsed n`. -/
structure Samples (top : Nat) where
  first : Nat
  le : first ≤ top
  elapsed : Nat → Nat
  zero : elapsed 0 = 0
  next : ∀ n, elapsed n ≤ elapsed (n + 1)
  near : ∀ n, elapsed (n + 1) < elapsed n + (top + 1)

namespace Samples

variable {top : Nat} (s : Samples top)

def reading (n : Nat) : Nat := (count top)^[s.elapsed n] s.first

/-- The counts between reading `n` and the one after it. -/
def step (n : Nat) : Nat := s.elapsed (n + 1) - s.elapsed n

theorem elapsed_succ (n : Nat) : s.elapsed (n + 1) = s.elapsed n + s.step n := by
  have := s.next n
  unfold step
  omega

theorem step_le (n : Nat) : s.step n ≤ top := by
  have := s.near n
  unfold step
  omega

theorem reading_eq (n : Nat) : s.reading n = (s.first + s.elapsed n) % (top + 1) := count_iterate s.le _

theorem reading_le (n : Nat) : s.reading n ≤ top := by
  rw [s.reading_eq]
  exact Nat.le_of_lt_succ (Nat.mod_lt _ (by omega))

/-- The counter restarts between reading `n` and the one after it. -/
def Restarts (n : Nat) : Prop := top < s.reading n + s.step n

instance (n : Nat) : Decidable (s.Restarts n) := inferInstanceAs (Decidable (_ < _))

/-- The next reading, by whether the counter restarts before it. -/
theorem reading_next (n : Nat) :
    (¬ s.Restarts n ∧ s.reading (n + 1) = s.reading n + s.step n) ∨
    (s.Restarts n ∧ s.reading (n + 1) + (top + 1) = s.reading n + s.step n) := by
  have low := s.reading_le n
  have short := s.step_le n
  have moved : s.reading (n + 1) = (s.reading n + s.step n) % (top + 1) := by
    rw [s.reading_eq, s.reading_eq, s.elapsed_succ, Nat.mod_add_mod, Nat.add_assoc]
  unfold Restarts
  by_cases wrap : top < s.reading n + s.step n
  · refine Or.inr ⟨wrap, ?_⟩
    rw [moved, Nat.mod_eq_sub_mod (by omega), Nat.mod_eq_of_lt (by omega)]
    omega
  · exact Or.inl ⟨wrap, by rw [moved, Nat.mod_eq_of_lt (by omega)]⟩

theorem restarts_iff (n : Nat) : s.Restarts n ↔ s.reading (n + 1) < s.reading n := by
  have short := s.step_le n
  rcases s.reading_next n with ⟨run, next⟩ | ⟨wrap, next⟩
  · exact iff_of_false run (by omega)
  · exact iff_of_true wrap (by omega)

theorem reading_eq_iff (n : Nat) : s.reading (n + 1) = s.reading n ↔ s.step n = 0 := by
  have low := s.reading_le n
  have short := s.step_le n
  rcases s.reading_next n with ⟨_, next⟩ | ⟨_, next⟩ <;> omega

end Samples

end OffLineProgrammer.Lib.Counter
