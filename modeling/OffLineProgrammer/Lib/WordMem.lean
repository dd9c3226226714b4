import OffLineProgrammer.Lib.ByteMem

/-!
# Memories with 32-bit addresses

A byte for every 32-bit address, with address arithmetic that wraps. A range is
given by its first address and a length, and `x` is in it when the distance
`(x - a).toNat` is below the length, so that a range may run over the top of the
address space.
-/

namespace OffLineProgrammer.Lib
set_option autoImplicit false

abbrev Word := BitVec 32

abbrev WordMem := Word → Byte

/-- The address `i` bytes after `a`. -/
theorem distance (a : Word) {i : Nat} (small : i < 2 ^ 32) : (a + BitVec.ofNat 32 i - a).toNat = i := by
  rw [BitVec.add_comm, BitVec.add_sub_cancel, BitVec.toNat_ofNat]
  exact Nat.mod_eq_of_lt small

/-- An address is `a` and its distance. -/
theorem add_distance (a x : Word) : a + BitVec.ofNat 32 (x - a).toNat = x := by
  rw [BitVec.ofNat_toNat, BitVec.setWidth_eq, BitVec.add_comm, BitVec.sub_add_cancel]

/-- The distance from an address further on. -/
theorem distance_add (a x : Word) {n : Nat} (far : n ≤ (x - a).toNat) :
    (x - (a + BitVec.ofNat 32 n)).toNat = (x - a).toNat - n := by
  have bound := (x - a).isLt
  have split : x - (a + BitVec.ofNat 32 n) = x - a - BitVec.ofNat 32 n := by
    bv_omega
  rw [split, BitVec.toNat_sub_of_le]
  · rw [BitVec.toNat_ofNat, Nat.mod_eq_of_lt (by omega)]
  · rw [BitVec.le_def, BitVec.toNat_ofNat, Nat.mod_eq_of_lt (by omega)]
    exact far

/-- The distance from an address not yet reached runs over the top. -/
theorem distance_wrap (a x : Word) {n : Nat} (near : (x - a).toNat < n) (small : n < 2 ^ 32) :
    (x - (a + BitVec.ofNat 32 n)).toNat = 2 ^ 32 + (x - a).toNat - n := by
  have split : x - (a + BitVec.ofNat 32 n) = x - a - BitVec.ofNat 32 n := by
    bv_omega
  rw [split, BitVec.toNat_sub, BitVec.toNat_ofNat, Nat.mod_eq_of_lt small]
  omega

/-- An address among the first `n` is past the `k` bytes behind them. -/
theorem distance_past (a x : Word) {n k : Nat} (front : (x - a).toNat < n) (fits : n + k ≤ 2 ^ 32) :
    k ≤ (x - (a + BitVec.ofNat 32 n)).toNat := by
  rcases Nat.eq_or_lt_of_le (by omega : n ≤ 2 ^ 32) with all | small
  · have none : k = 0 := by omega
    rw [none]
    exact Nat.zero_le _
  · rw [distance_wrap a x front small]
    omega

namespace WordMem

/-- The `n` bytes from `a` on. -/
def read (m : WordMem) (a : Word) (n : Nat) : List Byte := (List.range n).map fun i => m (a + BitVec.ofNat 32 i)

/-- Store `bs` from `a` on. -/
def store (m : WordMem) (a : Word) (bs : List Byte) : WordMem := fun x => bs.getD (x - a).toNat (m x)

/-- Program `bs` from `a` on: a cell keeps a one only where the byte has one. -/
def program (m : WordMem) (a : Word) (bs : List Byte) : WordMem := fun x => m x &&& bs.getD (x - a).toNat 0xFF#8

/-- All cells erased. -/
def erased : WordMem := fun _ => 0xFF#8

variable {m : WordMem} {a x : Word} {bs : List Byte}

@[simp] theorem length_read (m : WordMem) (a : Word) (n : Nat) : (m.read a n).length = n := by
  simp [read]

@[simp] theorem getElem_read (m : WordMem) (a : Word) (n i : Nat) (hi : i < (m.read a n).length) :
    (m.read a n)[i] = m (a + BitVec.ofNat 32 i) := by
  simp [read]

/-- A range splits into a front and a rest. -/
theorem read_add (m : WordMem) (a : Word) (n k : Nat) :
    m.read a (n + k) = m.read a n ++ m.read (a + BitVec.ofNat 32 n) k := by
  apply List.ext_getElem
  · simp
  · intro i hi hj
    rw [List.getElem_append]
    split
    · rw [getElem_read, getElem_read]
    · rename_i past
      rw [length_read] at past
      simp only [getElem_read, length_read]
      rw [BitVec.add_assoc, ← BitVec.ofNat_add, Nat.add_sub_cancel' (Nat.le_of_not_lt past)]

theorem store_in (i : Nat) (hi : i < bs.length) (fits : bs.length ≤ 2 ^ 32) :
    m.store a bs (a + BitVec.ofNat 32 i) = bs[i] := by
  rw [store, distance a (by omega), List.getD_eq_getElem _ _ hi]

theorem store_out (out : bs.length ≤ (x - a).toNat) : m.store a bs x = m x := by
  rw [store, List.getD_eq_default _ _ out]

theorem program_in (i : Nat) (hi : i < bs.length) (fits : bs.length ≤ 2 ^ 32) :
    m.program a bs (a + BitVec.ofNat 32 i) = m (a + BitVec.ofNat 32 i) &&& bs[i] := by
  rw [program, distance a (by omega), List.getD_eq_getElem _ _ hi]

theorem program_out (out : bs.length ≤ (x - a).toNat) : m.program a bs x = m x := by
  rw [program, List.getD_eq_default _ _ out, and_erased]

@[simp] theorem program_nil (m : WordMem) (a : Word) : m.program a [] = m := by
  funext x
  exact program_out (Nat.zero_le _)

/-- Reading back what was stored. -/
theorem read_store (fits : bs.length ≤ 2 ^ 32) : (m.store a bs).read a bs.length = bs := by
  apply List.ext_getElem
  · rw [length_read]
  · intro i hi hj
    rw [getElem_read, store_in i hj fits]

@[simp] theorem store_nil (m : WordMem) (a : Word) : m.store a [] = m := by
  funext x
  exact store_out (Nat.zero_le _)

/-- Storing a buffer is storing its front and then its rest. -/
theorem store_append (m : WordMem) (a : Word) (bs cs : List Byte) (fits : bs.length + cs.length ≤ 2 ^ 32) :
    m.store a (bs ++ cs) = (m.store a bs).store (a + BitVec.ofNat 32 bs.length) cs := by
  funext x
  rcases Nat.lt_or_ge (x - a).toNat bs.length with front | back
  · rw [store_out (distance_past a x front fits)]
    simp only [store, List.getD_eq_getElem?_getD, List.getElem?_append_left front]
  · have near : (x - (a + BitVec.ofNat 32 bs.length)).toNat = (x - a).toNat - bs.length := distance_add a x back
    rw [store, store, near, store_out back]
    simp only [List.getD_eq_getElem?_getD, List.getElem?_append_right back]

/-- Programming a buffer is programming its front and then its rest. -/
theorem program_append (m : WordMem) (a : Word) (bs cs : List Byte) (fits : bs.length + cs.length ≤ 2 ^ 32) :
    m.program a (bs ++ cs) = (m.program a bs).program (a + BitVec.ofNat 32 bs.length) cs := by
  funext x
  rcases Nat.lt_or_ge (x - a).toNat bs.length with front | back
  · rw [program_out (distance_past a x front fits)]
    simp only [program, List.getD_eq_getElem?_getD, List.getElem?_append_left front]
  · have bound := (x - a).isLt
    have near : (x - (a + BitVec.ofNat 32 bs.length)).toNat = (x - a).toNat - bs.length := distance_add a x back
    rw [program, program, near, program_out back]
    simp only [List.getD_eq_getElem?_getD, List.getElem?_append_right back]

/-- Programming erased cells stores the bytes. -/
theorem program_erased (i : Nat) (hi : i < bs.length) (fits : bs.length ≤ 2 ^ 32) :
    erased.program a bs (a + BitVec.ofNat 32 i) = bs[i] := by
  rw [program_in i hi fits, erased, erased_and]

/-- A programmed cell has such a property only where it had it and the bytes that land on
it have it. -/
theorem program_masks {Q : Byte → Prop} (masks : Masks Q) (fits : bs.length ≤ 2 ^ 32) :
    Q (m.program a bs x) ↔ Q (m x) ∧ ∀ i (hi : i < bs.length), x = a + BitVec.ofNat 32 i → Q bs[i] := by
  rw [program, masks.and]
  apply and_congr_right
  intro had
  constructor
  · rintro here i hi rfl
    rwa [distance a (by omega), List.getD_eq_getElem _ _ hi] at here
  · intro all
    rcases Nat.lt_or_ge (x - a).toNat bs.length with inside | outside
    · rw [List.getD_eq_getElem _ _ inside]
      exact all _ inside (add_distance a x).symm
    · rw [List.getD_eq_default _ _ outside]
      exact masks.erased _ had

end WordMem

end OffLineProgrammer.Lib
