import Mathlib.Data.List.Basic

/-!
# Words on a serial line

A word is sent bit by bit, the low bit first, and taken in by a register that is
shifted down once for each bit (`collect_bitsOf`). The parity of the bits is the
low bit of their sum (`sum_low`), which a sender and a receiver may keep in a word
of any width. Noise is a mask of the bits that arrive inverted.
-/

namespace OffLineProgrammer.Lib.Serial
set_option autoImplicit false

variable {w : Nat}

/-- The bits of a word in the order in which they are sent. -/
def bitsOf (v : BitVec w) : List Bool := (List.range w).map v.getLsbD

/-- The next bit comes in at the top. -/
def shiftIn (v : BitVec w) (b : Bool) : BitVec w := v >>> 1 ||| (BitVec.ofBool b).setWidth w <<< (w - 1)

/-- What the register holds after some bits. -/
def collect (bs : List Bool) : BitVec w := bs.foldl shiftIn 0

def parity : List Bool → Bool
  | [] => false
  | b :: bs => b ^^ parity bs

/-- The bits with those of a mask inverted. -/
def invert (mask bs : List Bool) : List Bool := List.zipWith xor mask bs

/-! ## The register -/

@[simp] theorem length_bitsOf (v : BitVec w) : (bitsOf v).length = w := by
  rw [bitsOf, List.length_map, List.length_range]

theorem getElem?_bitsOf (v : BitVec w) {i : Nat} (low : i < w) : (bitsOf v)[i]? = some (v.getLsbD i) := by
  rw [bitsOf, List.getElem?_map, List.getElem?_range low, Option.map_some]

theorem getLsbD_shiftIn (v : BitVec w) (b : Bool) {i : Nat} (low : i < w) :
    (shiftIn v b).getLsbD i = if i + 1 = w then b else v.getLsbD (i + 1) := by
  rw [shiftIn, BitVec.getLsbD_or, BitVec.getLsbD_ushiftRight, BitVec.getLsbD_shiftLeft, BitVec.getLsbD_setWidth,
    BitVec.getLsbD_ofBool, Nat.add_comm 1 i]
  split
  · next top =>
    rw [BitVec.getLsbD_of_ge v (i + 1) (Nat.le_of_eq top.symm)]
    have first : i - (w - 1) = 0 := by omega
    simp [low, first, show ¬ i < w - 1 by omega, show 0 < w by omega]
  · next below =>
    have short : i < w - 1 := by omega
    simp [low, short]

/-- The register holds the last bits taken in, above what is left of its start. -/
theorem getLsbD_foldl_shiftIn (bs : List Bool) (v : BitVec w) {i : Nat} (low : i < w) :
    (bs.foldl shiftIn v).getLsbD i =
      if i + bs.length < w then v.getLsbD (i + bs.length) else bs.getD (i + bs.length - w) false := by
  induction bs generalizing v with
  | nil => simp [low]
  | cons b bs ih =>
    rw [List.foldl_cons, ih (shiftIn v b), List.length_cons]
    rcases Nat.lt_trichotomy (i + bs.length + 1) w with below | top | above
    · rw [if_pos (by omega), if_pos (by omega), getLsbD_shiftIn v b (by omega), if_neg (by omega)]
      rfl
    · rw [if_pos (by omega), if_neg (by omega), getLsbD_shiftIn v b (by omega), if_pos top]
      have first : i + (bs.length + 1) - w = 0 := by omega
      rw [first]
      rfl
    · rw [if_neg (by omega), if_neg (by omega)]
      have later : i + (bs.length + 1) - w = i + bs.length - w + 1 := by omega
      rw [later, List.getD_cons_succ]

/-- **A word** sent bit by bit arrives. -/
theorem collect_bitsOf (v : BitVec w) : collect (bitsOf v) = v := by
  apply BitVec.eq_of_getLsbD_eq
  intro i low
  rw [collect, getLsbD_foldl_shiftIn _ _ low, length_bitsOf, if_neg (by omega), Nat.add_sub_cancel,
    List.getD_eq_getElem?_getD, getElem?_bitsOf v low, Option.getD_some]

/-! ## Parity -/

@[simp] theorem parity_nil : parity [] = false := rfl

@[simp] theorem parity_cons (b : Bool) (bs : List Bool) : parity (b :: bs) = (b ^^ parity bs) := rfl

theorem parity_append (bs cs : List Bool) : parity (bs ++ cs) = (parity bs ^^ parity cs) := by
  induction bs with
  | nil => simp
  | cons b bs ih => simp [ih]

/-- Two words' low bits add without carry. -/
theorem getLsbD_add_zero (v u : BitVec w) (pos : 0 < w) : (v + u).getLsbD 0 = (v.getLsbD 0 ^^ u.getLsbD 0) := by
  rw [BitVec.getLsbD_add pos]
  simp

/-- The low bit of a sum is the parity of the low bits. -/
theorem sum_low (vs : List (BitVec w)) (s : BitVec w) (pos : 0 < w) :
    (vs.foldl (· + ·) s).getLsbD 0 = (s.getLsbD 0 ^^ parity (vs.map (·.getLsbD 0))) := by
  induction vs generalizing s with
  | nil => simp
  | cons v vs ih =>
    rw [List.foldl_cons, ih, getLsbD_add_zero s v pos, List.map_cons, parity_cons, Bool.xor_assoc]

/-! ## Noise -/

@[simp] theorem length_invert {mask bs : List Bool} (same : mask.length = bs.length) : (invert mask bs).length = bs.length := by
  rw [invert, List.length_zipWith, same, Nat.min_self]

theorem parity_invert {mask bs : List Bool} (same : mask.length = bs.length) :
    parity (invert mask bs) = (parity mask ^^ parity bs) := by
  induction mask generalizing bs with
  | nil =>
    cases bs with
    | nil => rfl
    | cons b bs => cases same
  | cons m mask ih =>
    cases bs with
    | nil => cases same
    | cons b bs =>
      have rest := ih (Nat.succ.inj same)
      rw [invert] at rest
      rw [invert, List.zipWith_cons_cons, parity_cons, parity_cons, parity_cons, rest]
      cases m <;> cases b <;> simp

theorem bitsOf_invert (mask v : BitVec w) : invert (bitsOf mask) (bitsOf v) = bitsOf (mask ^^^ v) := by
  apply List.ext_getElem?
  intro i
  by_cases low : i < w
  · rw [invert, List.getElem?_zipWith, getElem?_bitsOf mask low, getElem?_bitsOf v low, getElem?_bitsOf _ low,
      BitVec.getLsbD_xor]
  · rw [List.getElem?_eq_none, List.getElem?_eq_none]
    · simpa using low
    · simpa [invert] using low

end OffLineProgrammer.Lib.Serial
