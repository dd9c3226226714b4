import Mathlib.Data.List.Basic

/-!
# Buffers cut at block boundaries

A device with blocks of `size` takes a buffer at `addr` piece by piece: to the
end of the block `addr` is in, then block by block. `pieces` lists them with
their addresses; `pieces_step` is the recursion a loop over them follows.
-/

namespace OffLineProgrammer.Lib
set_option autoImplicit false

variable {α : Type}

/-- At most `n` pieces of `data` at `addr`. -/
def cut (size : Nat) : Nat → Nat → List α → List (Nat × List α)
  | 0, _, _ => []
  | n + 1, addr, data =>
    if data.length = 0 then []
    else
      let k := min data.length (size - addr % size)
      (addr, data.take k) :: cut size n (addr + k) (data.drop k)

/-- The pieces of `data` at `addr`. -/
def pieces (size addr : Nat) (data : List α) : List (Nat × List α) := cut size data.length addr data

section Blocks

variable {size : Nat}

@[simp] theorem pieces_nil (addr : Nat) : pieces size addr ([] : List α) = [] := rfl

/-- More rounds than bytes make no difference. -/
theorem cut_enough (block : 0 < size) : ∀ {n n' addr : Nat} {data : List α}, data.length ≤ n → data.length ≤ n' →
    cut size n addr data = cut size n' addr data := by
  intro n
  induction n with
  | zero =>
    intro n' addr data few _
    obtain rfl := List.eq_nil_of_length_eq_zero (Nat.le_zero.mp few)
    cases n' <;> rfl
  | succ n ih =>
    intro n' addr data few few'
    cases n' with
    | zero =>
      obtain rfl := List.eq_nil_of_length_eq_zero (Nat.le_zero.mp few')
      rfl
    | succ n' =>
      have room := Nat.mod_lt addr block
      simp only [cut]
      split
      · rfl
      · congr 1
        exact ih (by rw [List.length_drop]; omega) (by rw [List.length_drop]; omega)

/-- **The first piece** and the pieces of the rest. -/
theorem pieces_step (block : 0 < size) (addr : Nat) (data : List α) (nonempty : 0 < data.length) {k : Nat}
    (first : k = min data.length (size - addr % size)) :
    pieces size addr data = (addr, data.take k) :: pieces size (addr + k) (data.drop k) := by
  subst first
  have room := Nat.mod_lt addr block
  obtain ⟨n, count⟩ : ∃ n, data.length = n + 1 := ⟨data.length - 1, by omega⟩
  have rest : (data.drop (min data.length (size - addr % size))).length ≤ n := by
    rw [List.length_drop]
    omega
  have again := @cut_enough _ _ block _ _ (addr + min data.length (size - addr % size)) _ rest (Nat.le_refl _)
  rw [pieces, count, cut, if_neg (by omega)]
  rw [count] at again ⊢
  exact congrArg (List.cons _) again

/-- A buffer that ends in the block it starts in is one piece. -/
theorem pieces_single {addr : Nat} {data : List α} (nonempty : 0 < data.length)
    (inside : addr % size + data.length ≤ size) : pieces size addr data = [(addr, data)] := by
  rw [pieces_step (by omega) addr data nonempty (Nat.min_eq_left (by omega)).symm, List.take_length, List.drop_length,
    pieces_nil]

/-- **The pieces are the buffer.** -/
theorem pieces_flatten (block : 0 < size) : ∀ {n addr : Nat} {data : List α}, data.length ≤ n →
    ((pieces size addr data).map Prod.snd).flatten = data := by
  intro n
  induction n with
  | zero =>
    intro addr data few
    obtain rfl := List.eq_nil_of_length_eq_zero (Nat.le_zero.mp few)
    rfl
  | succ n ih =>
    intro addr data few
    have room := Nat.mod_lt addr block
    by_cases nonempty : 0 < data.length
    · rw [pieces_step block addr data nonempty rfl, List.map_cons, List.flatten_cons, ih, List.take_append_drop]
      rw [List.length_drop]
      omega
    · obtain rfl := List.eq_nil_of_length_eq_zero (Nat.eq_zero_of_not_pos nonempty)
      rfl

end Blocks

end OffLineProgrammer.Lib
