import Mathlib.Data.Nat.Basic

/-!
# Loops with a fuel bound

A `while` loop of the source is a body that either goes round again with a new
state or leaves with a result; the body itself may fail to return (`none`), as
a nested loop can. `exec` runs it for at most `fuel` rounds. Three rules cover
every use: an invariant carries partial correctness (`exec_post`), a variant
adds termination (`exec_returns`), and an invariant under which the body never
leaves shows that no amount of fuel is enough (`exec_diverges`). For statements
about every round, `rounds` gives the outcome of each, and what `exec` returns is
what one of them left with (`exec_iff_rounds`).
-/

namespace OffLineProgrammer.Lib.Loop
set_option autoImplicit false

/-- `fuel` rounds of `body` from `s`: `.inl` goes round again, `.inr` leaves. -/
def exec {σ α : Type} (body : σ → Option (σ ⊕ α)) : Nat → σ → Option α
  | 0, _ => none
  | fuel + 1, s =>
    match body s with
    | none => none
    | some (.inl s') => exec body fuel s'
    | some (.inr a) => some a

section Rules

variable {σ α : Type} {body : σ → Option (σ ⊕ α)}

theorem exec_again {fuel : Nat} {s s' : σ} (h : body s = some (.inl s')) :
    exec body (fuel + 1) s = exec body fuel s' := by
  simp only [exec, h]

theorem exec_leave {fuel : Nat} {s : σ} {a : α} (h : body s = some (.inr a)) :
    exec body (fuel + 1) s = some a := by
  simp only [exec, h]

/-- More fuel changes nothing about a loop that returns. -/
theorem exec_mono : ∀ {fuel more : Nat} {s : σ} {a : α}, exec body fuel s = some a → fuel ≤ more →
    exec body more s = some a := by
  intro fuel
  induction fuel with
  | zero => intro more s a run _; cases run
  | succ fuel ih =>
    intro more s a run le
    obtain ⟨more, rfl⟩ : ∃ k, more = k + 1 := ⟨more - 1, by omega⟩
    cases hb : body s with
    | none => simp only [exec, hb] at run; cases run
    | some next =>
      cases next with
      | inl s' =>
        rw [exec_again hb] at run ⊢
        exact ih run (Nat.le_of_succ_le_succ le)
      | inr b =>
        rw [exec_leave hb] at run ⊢
        exact run

/-- Partial correctness: what the loop returns satisfies the postcondition. -/
theorem exec_post (Inv : σ → Prop) (Post : α → Prop)
    (again : ∀ s s', Inv s → body s = some (.inl s') → Inv s')
    (leave : ∀ s a, Inv s → body s = some (.inr a) → Post a) :
    ∀ {fuel : Nat} {s : σ} {a : α}, Inv s → exec body fuel s = some a → Post a := by
  intro fuel
  induction fuel with
  | zero => intro s a _ run; cases run
  | succ fuel ih =>
    intro s a inv run
    cases hb : body s with
    | none => simp only [exec, hb] at run; cases run
    | some next =>
      cases next with
      | inl s' =>
        rw [exec_again hb] at run
        exact ih (again s s' inv hb) run
      | inr b =>
        rw [exec_leave hb] at run
        exact Option.some.inj run ▸ leave s b inv hb

/-- Total correctness: the variant bounds the rounds, so any larger fuel returns. -/
theorem exec_returns (Inv : σ → Prop) (Post : α → Prop) (μ : σ → Nat)
    (round : ∀ s, Inv s →
      (∃ s', body s = some (.inl s') ∧ Inv s' ∧ μ s' < μ s) ∨ (∃ a, body s = some (.inr a) ∧ Post a)) :
    ∀ {fuel : Nat} {s : σ}, Inv s → μ s < fuel → ∃ a, exec body fuel s = some a ∧ Post a := by
  intro fuel
  induction fuel with
  | zero => intro s _ lt; omega
  | succ fuel ih =>
    intro s inv lt
    rcases round s inv with ⟨s', hb, inv', less⟩ | ⟨a, hb, post⟩
    · rw [exec_again hb]
      exact ih inv' (by omega)
    · exact ⟨a, exec_leave hb, post⟩

/-- Divergence: an invariant under which the body never leaves. -/
theorem exec_diverges (Inv : σ → Prop)
    (stays : ∀ s, Inv s → ∃ s', body s = some (.inl s') ∧ Inv s') :
    ∀ {fuel : Nat} {s : σ}, Inv s → exec body fuel s = none := by
  intro fuel
  induction fuel with
  | zero => intro s _; rfl
  | succ fuel ih =>
    intro s inv
    obtain ⟨s', hb, inv'⟩ := stays s inv
    rw [exec_again hb]
    exact ih inv'

/-- Two loops whose bodies are the same wherever the invariant holds. -/
theorem exec_congr {body' : σ → Option (σ ⊕ α)} (Inv : σ → Prop) (same : ∀ s, Inv s → body s = body' s)
    (again : ∀ s s', Inv s → body s = some (.inl s') → Inv s') :
    ∀ {fuel : Nat} {s : σ}, Inv s → exec body fuel s = exec body' fuel s := by
  intro fuel
  induction fuel with
  | zero => intro s _; rfl
  | succ fuel ih =>
    intro s inv
    cases hb : body s with
    | none =>
      have hb' := (same s inv).symm.trans hb
      simp only [exec, hb, hb']
    | some next =>
      have hb' := (same s inv).symm.trans hb
      cases next with
      | inl s' =>
        rw [exec_again hb, exec_again hb']
        exact ih (again s s' inv hb)
      | inr a => rw [exec_leave hb, exec_leave hb']

/-- The outcome of round `n`, the first being round 1: `.inl` is the state in which
round `n + 1` starts, and there is none when an earlier round has left. -/
def rounds (body : σ → Option (σ ⊕ α)) : Nat → σ → Option (σ ⊕ α)
  | 0, s => some (.inl s)
  | n + 1, s =>
    match rounds body n s with
    | some (.inl s') => body s'
    | _ => none

theorem rounds_succ {n : Nat} {s s' : σ} (h : rounds body n s = some (.inl s')) : rounds body (n + 1) s = body s' := by
  simp only [rounds, h]

/-- The rounds after the first are those of the loop from where the first ended. -/
theorem rounds_again {s s' : σ} (h : body s = some (.inl s')) (n : Nat) : rounds body (n + 1) s = rounds body n s' := by
  induction n with
  | zero => exact h
  | succ n ih => rw [rounds, ih, rounds]

/-- A round has an outcome only where the one before it goes round again. -/
theorem rounds_before {n : Nat} {s : σ} {r : σ ⊕ α} (h : rounds body (n + 1) s = some r) :
    ∃ s', rounds body n s = some (.inl s') ∧ body s' = some r := by
  unfold rounds at h
  split at h
  · next s' before => exact ⟨s', before, h⟩
  · cases h

/-- A second round is reached only through a first that goes round again. -/
theorem rounds_start {n : Nat} {s : σ} {r : σ ⊕ α} (h : rounds body (n + 2) s = some r) : ∃ s', body s = some (.inl s') := by
  induction n generalizing r with
  | zero =>
    obtain ⟨s', before, _⟩ := rounds_before h
    exact ⟨s', before⟩
  | succ n ih =>
    obtain ⟨s', before, _⟩ := rounds_before h
    exact ih before

/-- What the loop returns is what some round left with. -/
theorem exec_iff_rounds {fuel : Nat} {s : σ} {a : α} :
    exec body fuel s = some a ↔ ∃ n < fuel, rounds body (n + 1) s = some (.inr a) := by
  constructor
  · intro run
    induction fuel generalizing s with
    | zero => cases run
    | succ fuel ih =>
      cases hb : body s with
      | none =>
        simp only [exec, hb] at run
        cases run
      | some next =>
        cases next with
        | inl s' =>
          rw [exec_again hb] at run
          obtain ⟨n, lt, left⟩ := ih run
          exact ⟨n + 1, Nat.succ_lt_succ lt, (rounds_again hb (n + 1)).trans left⟩
        | inr b =>
          rw [exec_leave hb] at run
          cases run
          exact ⟨0, Nat.succ_pos _, hb⟩
  · rintro ⟨n, lt, left⟩
    refine exec_mono ?_ lt
    clear lt
    induction n generalizing s with
    | zero => exact exec_leave left
    | succ n ih =>
      obtain ⟨s', first⟩ := rounds_start left
      rw [rounds_again first] at left
      rw [exec_again first, ih left]

end Rules

end OffLineProgrammer.Lib.Loop
