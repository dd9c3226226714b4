import Mathlib.Data.List.Basic
import Mathlib.Data.List.GetD
import Mathlib.Algebra.Ring.Nat

/-!
# Byte memories

A memory is a byte for every address. `read` lists a range, `write` stores a
list, `erase` sets a range to `0xFF` and `program` clears the bits that are
clear in the bytes given, as flash cells do. The update lemmas state each
operation at one address; the block lemmas (`program_append`, `write_append`,
`program_erase`) are what a loop over pieces of a buffer needs.
-/

namespace OffLineProgrammer.Lib
set_option autoImplicit false

abbrev Byte := BitVec 8

abbrev Mem := Nat → Byte

theorem and_erased (b : Byte) : b &&& 0xFF#8 = b := by
  revert b; decide

theorem erased_and (b : Byte) : 0xFF#8 &&& b = b := by
  revert b; decide

/-- Two bytes and to the erased byte only if both are erased. -/
theorem and_eq_erased (a b : Byte) : a &&& b = 0xFF#8 ↔ a = 0xFF#8 ∧ b = 0xFF#8 :=
   BitVec.and_eq_allOnes_iff (w := 8)

theorem erased_bit {k : Nat} (less : k < 8) : (0xFF#8).getLsbD k = true :=
  (BitVec.getLsbD_allOnes (v := 8)).trans (decide_eq_true less)

/-- A property that the and of two bytes has exactly where both have it, and that the
erased byte has if any byte does. -/
structure Masks (Q : Byte → Prop) : Prop where
  and : ∀ a b, Q (a &&& b) ↔ Q a ∧ Q b
  erased : ∀ b, Q b → Q 0xFF#8

theorem masks_erased : Masks (· = 0xFF#8) where
  and := and_eq_erased
  erased _ _ := rfl

/-- A one in a place. -/
theorem masks_bit (k : Nat) : Masks fun b : Byte => b.getLsbD k = true where
  and a b := by rw [BitVec.getLsbD_and, Bool.and_eq_true]
  erased _ one := erased_bit (BitVec.lt_of_getLsbD one)

namespace Mem

/-- The `n` bytes from `a` on. -/
def read (m : Mem) (a n : Nat) : List Byte := (List.range n).map fun i => m (a + i)

/-- Store `bs` from `a` on. -/
def write (m : Mem) (a : Nat) (bs : List Byte) : Mem :=
  fun x => if a ≤ x then bs.getD (x - a) (m x) else m x

/-- Erase the `n` cells from `a` on. -/
def erase (m : Mem) (a n : Nat) : Mem :=
  fun x => if a ≤ x ∧ x < a + n then 0xFF#8 else m x

/-- Program `bs` from `a` on: a cell keeps a one only where the byte has one. -/
def program (m : Mem) (a : Nat) (bs : List Byte) : Mem :=
  fun x => if a ≤ x then m x &&& bs.getD (x - a) 0xFF#8 else m x

@[simp] theorem length_read (m : Mem) (a n : Nat) : (m.read a n).length = n := by
  simp [read]

@[simp] theorem read_zero (m : Mem) (a : Nat) : m.read a 0 = [] := rfl

@[simp] theorem getElem_read (m : Mem) (a n i : Nat) (hi : i < (m.read a n).length) :
    (m.read a n)[i] = m (a + i) := by
  simp [read]

theorem read_congr {m m' : Mem} {a n : Nat} (h : ∀ i, i < n → m (a + i) = m' (a + i)) :
    m.read a n = m'.read a n := by
  apply List.map_congr_left
  intro i hi
  exact h i (List.mem_range.mp hi)

/-- A range splits into a front and a rest. -/
theorem read_add (m : Mem) (a n k : Nat) : m.read a (n + k) = m.read a n ++ m.read (a + n) k := by
  apply List.ext_getElem
  · simp
  · intro i hi hj
    rw [List.getElem_append]
    split
    · simp
    · rename_i h
      simp only [length_read] at h
      simp only [getElem_read, length_read]
      congr 1; omega

theorem read_take (m : Mem) (a n k : Nat) (h : k ≤ n) : (m.read a n).take k = m.read a k := by
  rw [show n = k + (n - k) by omega, read_add]
  simp

theorem read_drop (m : Mem) (a n k : Nat) (h : k ≤ n) : (m.read a n).drop k = m.read (a + k) (n - k) := by
  rw [show n = k + (n - k) by omega, read_add]
  simp

section At

variable {m : Mem} {a x : Nat} {bs : List Byte}

theorem write_in (i : Nat) (hi : i < bs.length) : m.write a bs (a + i) = bs[i] := by
  simp [write, List.getD_eq_getElem?_getD, hi]

theorem write_out (h : x < a ∨ a + bs.length ≤ x) : m.write a bs x = m x := by
  unfold write
  split
  · rw [List.getD_eq_default _ _ (by omega)]
  · rfl

theorem erase_in {n : Nat} (h : a ≤ x) (h' : x < a + n) : m.erase a n x = 0xFF#8 := by
  simp [erase, h, h']

theorem erase_out {n : Nat} (h : x < a ∨ a + n ≤ x) : m.erase a n x = m x := by
  unfold erase
  rw [if_neg (by omega)]

theorem program_in (i : Nat) (hi : i < bs.length) : m.program a bs (a + i) = m (a + i) &&& bs[i] := by
  simp [program, List.getD_eq_getElem?_getD, hi]

theorem program_out (h : x < a ∨ a + bs.length ≤ x) : m.program a bs x = m x := by
  unfold program
  split
  · rw [List.getD_eq_default _ _ (by omega), and_erased]
  · rfl

/-- An update at an address depends only on the cell there. -/
theorem write_at {m' : Mem} (same : m x = m' x) : m.write a bs x = m'.write a bs x := by
  simp only [write, same]

theorem program_at {m' : Mem} (same : m x = m' x) : m.program a bs x = m'.program a bs x := by
  simp only [program, same]

/-- Programming blank cells is storing. -/
theorem program_blank (blank : ∀ i, i < bs.length → m (a + i) = 0xFF#8) : m.program a bs = m.write a bs := by
  funext y
  by_cases out : y < a ∨ a + bs.length ≤ y
  · rw [program_out out, write_out out]
  · obtain ⟨i, rfl⟩ : ∃ i, y = a + i := ⟨y - a, by omega⟩
    have hi : i < bs.length := by omega
    rw [program_in i hi, write_in i hi, blank i hi, erased_and]

end At

@[simp] theorem write_nil (m : Mem) (a : Nat) : m.write a [] = m := by
  funext x
  exact write_out (by simp only [List.length_nil]; omega)

@[simp] theorem program_nil (m : Mem) (a : Nat) : m.program a [] = m := by
  funext x
  exact program_out (by simp only [List.length_nil]; omega)

/-- An address is before two ranges in a row, in one of them or behind them. -/
theorem two_ranges (x a n k : Nat) :
    x < a ∨ (∃ i < n, x = a + i) ∨ (∃ i < k, x = a + n + i) ∨ a + n + k ≤ x := by
  rcases Nat.lt_or_ge x a with before | above
  · exact Or.inl before
  · rcases Nat.lt_or_ge x (a + n) with first | past
    · exact Or.inr (Or.inl ⟨x - a, by omega, by omega⟩)
    · rcases Nat.lt_or_ge x (a + n + k) with second | behind
      · exact Or.inr (Or.inr (Or.inl ⟨x - (a + n), by omega, by omega⟩))
      · exact Or.inr (Or.inr (Or.inr behind))

/-- Programming a buffer is programming its front and then its rest. -/
theorem program_append (m : Mem) (a : Nat) (bs cs : List Byte) :
    m.program a (bs ++ cs) = (m.program a bs).program (a + bs.length) cs := by
  funext x
  have length := @List.length_append _ bs cs
  rcases two_ranges x a bs.length cs.length with before | ⟨i, hi, rfl⟩ | ⟨i, hi, rfl⟩ | behind
  · rw [program_out (Or.inl before), program_out (Or.inl (by omega)), program_out (Or.inl before)]
  · rw [program_in i (by omega), List.getElem_append_left hi, program_out (Or.inl (by omega)), program_in i hi]
  · have back : (m.program a bs).program (a + bs.length) cs (a + bs.length + i) =
        m (a + (bs.length + i)) &&& cs[i] := by
      rw [program_in i hi, program_out (Or.inr (by omega)), Nat.add_assoc]
    rw [back, Nat.add_assoc, program_in (bs.length + i) (by omega)]
    simp
  · rw [program_out (Or.inr (by omega)), program_out (Or.inr (by omega)), program_out (Or.inr (by omega))]

/-- A range whose front was just stored. -/
theorem read_write_front (m : Mem) (a : Nat) (bs : List Byte) (n : Nat) :
    (m.write a bs).read a (bs.length + n) = bs ++ m.read (a + bs.length) n := by
  rw [read_add]
  congr 1
  · apply List.ext_getElem
    · rw [length_read]
    · intro i hi hj
      rw [getElem_read, write_in i hj]
  · exact read_congr fun i _ => write_out (Or.inr (by omega))

/-- Storing a buffer is storing its front and then its rest. -/
theorem write_append (m : Mem) (a : Nat) (bs cs : List Byte) :
    m.write a (bs ++ cs) = (m.write a bs).write (a + bs.length) cs := by
  funext x
  have length := @List.length_append _ bs cs
  rcases two_ranges x a bs.length cs.length with before | ⟨i, hi, rfl⟩ | ⟨i, hi, rfl⟩ | behind
  · rw [write_out (Or.inl before), write_out (Or.inl (by omega)), write_out (Or.inl before)]
  · rw [write_in i (by omega), List.getElem_append_left hi, write_out (Or.inl (by omega)), write_in i hi]
  · rw [write_in i hi, Nat.add_assoc, write_in (bs.length + i) (by omega)]
    simp
  · rw [write_out (Or.inr (by omega)), write_out (Or.inr (by omega)), write_out (Or.inr (by omega))]

/-- Programming over a whole erased range is storing. -/
theorem program_erase (m : Mem) (a : Nat) (bs : List Byte) : (m.erase a bs.length).program a bs = m.write a bs := by
  rw [program_blank (fun i hi => erase_in (by omega) (by omega))]
  funext x
  by_cases out : x < a ∨ a + bs.length ≤ x
  · rw [write_out out, write_out out, erase_out out]
  · obtain ⟨i, rfl⟩ : ∃ i, x = a + i := ⟨x - a, by omega⟩
    rw [write_in i (by omega), write_in i (by omega)]

end Mem

end OffLineProgrammer.Lib
