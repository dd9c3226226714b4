import Mathlib.Data.List.Basic

/-!
# Blocks of one length

A list made of blocks of one length is cut at their boundaries: what lies in one block is
that block's (`slice_block`, `getElem?_blocks`), and what begins and ends at boundaries is
made of whole blocks (`slice_blocks`).
-/

namespace OffLineProgrammer.Lib.Blocks
set_option autoImplicit false

variable {α β : Type} {f : α → List β} {size : Nat} {as : List α} {a : α}

theorem length_blocks (each : ∀ a ∈ as, (f a).length = size) : (as.flatMap f).length = size * as.length := by
  induction as with
  | nil => rw [List.flatMap_nil, List.length_nil, List.length_nil, Nat.mul_zero]
  | cons a as ih =>
    rw [List.flatMap_cons, List.length_append, List.length_cons, each a List.mem_cons_self,
      ih fun b mem => each b (List.mem_cons_of_mem _ mem), Nat.mul_succ, Nat.add_comm]

/-- The blocks from one boundary on. -/
theorem drop_blocks (each : ∀ a ∈ as, (f a).length = size) (k : Nat) : (as.flatMap f).drop (size * k) = (as.drop k).flatMap f := by
  induction k generalizing as with
  | zero => rw [Nat.mul_zero, List.drop_zero, List.drop_zero]
  | succ k ih =>
    cases as with
    | nil => rw [List.flatMap_nil, List.drop_nil, List.drop_nil, List.flatMap_nil]
    | cons a as =>
      have length := each a List.mem_cons_self
      rw [List.drop_succ_cons, ← ih fun b mem => each b (List.mem_cons_of_mem _ mem), List.flatMap_cons,
        List.drop_append, length, List.drop_eq_nil_of_le (by rw [length, Nat.mul_succ]; omega), List.nil_append]
      congr 1
      rw [Nat.mul_succ]
      omega

/-- The blocks up to a boundary. -/
theorem take_blocks (each : ∀ a ∈ as, (f a).length = size) (k : Nat) : (as.flatMap f).take (size * k) = (as.take k).flatMap f := by
  induction k generalizing as with
  | zero => rw [Nat.mul_zero, List.take_zero, List.take_zero, List.flatMap_nil]
  | succ k ih =>
    cases as with
    | nil => rw [List.flatMap_nil, List.take_nil, List.take_nil, List.flatMap_nil]
    | cons a as =>
      have length := each a List.mem_cons_self
      rw [List.take_succ_cons, List.flatMap_cons, List.flatMap_cons,
        ← ih fun b mem => each b (List.mem_cons_of_mem _ mem), List.take_append, length,
        List.take_of_length_le (by rw [length, Nat.mul_succ]; omega)]
      congr 2
      rw [Nat.mul_succ]
      omega

/-- **What lies in one block**. -/
theorem slice_block (each : ∀ a ∈ as, (f a).length = size) {k x n : Nat} (here : as[k]? = some a) (inside : x + n ≤ size) :
    ((as.flatMap f).drop (size * k + x)).take n = ((f a).drop x).take n := by
  have mem := List.mem_of_getElem? here
  obtain ⟨less, same⟩ := List.getElem?_eq_some_iff.mp here
  have rest : as.drop k = a :: as.drop (k + 1) := by
    rw [List.drop_eq_getElem_cons less, same]
  rw [← List.drop_drop, drop_blocks each, rest, List.flatMap_cons, List.drop_append, List.take_append, List.length_drop, each a mem]
  have none : n - (size - x) = 0 := by omega
  rw [none, List.take_zero, List.append_nil]

/-- One element of a block. -/
theorem getElem?_blocks (each : ∀ a ∈ as, (f a).length = size) {k x : Nat} (here : as[k]? = some a) (inside : x < size) :
    (as.flatMap f)[size * k + x]? = (f a)[x]? := by
  have mem := List.mem_of_getElem? here
  obtain ⟨less, same⟩ := List.getElem?_eq_some_iff.mp here
  have rest : as.drop k = a :: as.drop (k + 1) := by
    rw [List.drop_eq_getElem_cons less, same]
  rw [← List.getElem?_drop, drop_blocks each, rest, List.flatMap_cons, List.getElem?_append_left (by rw [each a mem]; exact inside)]

/-- **What begins and ends at boundaries**. -/
theorem slice_blocks (each : ∀ a ∈ as, (f a).length = size) (j c : Nat) :
    ((as.flatMap f).drop (size * j)).take (size * c) = ((as.drop j).take c).flatMap f := by
  rw [drop_blocks each, take_blocks fun a mem => each a (List.mem_of_mem_drop mem)]

end OffLineProgrammer.Lib.Blocks
