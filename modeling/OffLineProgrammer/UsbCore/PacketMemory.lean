import OffLineProgrammer.Lib.ByteMem

/-!
# Packet memory, from usb_mem.c

The packet memory is made of halfwords, of which the processor sees one in every
word. `UserToPMABufferCopy` and `PMAToUserBufferCopy` copy whole halfwords: of an odd
number of bytes one more is copied. The bytes that are counted arrive as they were.
-/

namespace OffLineProgrammer.UsbCore
set_option autoImplicit false
open OffLineProgrammer.Lib

/-- The packet memory by halfwords. -/
abbrev Pma := Nat → BitVec 16

/-- The byte at an address of the packet memory. -/
def Pma.byte (pma : Pma) (addr : Nat) : Byte := (pma (addr / 2)).extractLsb' (8 * (addr % 2)) 8

/-- `n` bytes from an address on. -/
abbrev Pma.bytes (pma : Pma) (addr n : Nat) : List Byte := Mem.read pma.byte addr n

/-! ## Copying -/

/-- The loop of `UserToPMABufferCopy`, with what is at `pbUsrBuf` and the halfword at `pdwVal`. -/
def toPma : Nat → (Nat → Byte) → Nat → Pma → Pma
  | 0, _, _, pma => pma
  | i + 1, pbUsrBuf, pdwVal, pma =>
    toPma i (fun k => pbUsrBuf (k + 2)) (pdwVal + 1) fun h => if h = pdwVal then pbUsrBuf 1 ++ pbUsrBuf 0 else pma h

/-- `UserToPMABufferCopy` -/
def userToPMABufferCopy (pbUsrBuf : Nat → Byte) (wPMABufAddr wNBytes : BitVec 16) (pma : Pma) : Pma :=
  toPma ((wNBytes.toNat + 1) >>> 1) pbUsrBuf (wPMABufAddr.toNat / 2) pma

/-- The loop of `PMAToUserBufferCopy`: the bytes that are written. -/
def fromPma : Nat → Nat → Pma → List Byte
  | 0, _, _ => []
  | i + 1, pdwVal, pma => (pma pdwVal).extractLsb' 0 8 :: (pma pdwVal).extractLsb' 8 8 :: fromPma i (pdwVal + 1) pma

/-- `PMAToUserBufferCopy`: the bytes that are written to the buffer. -/
def pmaToUserBufferCopy (wPMABufAddr wNBytes : BitVec 16) (pma : Pma) : List Byte :=
  fromPma ((wNBytes.toNat + 1) >>> 1) (wPMABufAddr.toNat / 2) pma

/-! ## What is copied -/

section Copy

variable {src : Nat → Byte} {pma : Pma} {at_ n h : Nat}

/-- The halfwords after the loop. -/
theorem toPma_eq (n : Nat) (src : Nat → Byte) (first : Nat) (pma : Pma) (h : Nat) :
    toPma n src first pma h = if first ≤ h ∧ h < first + n then src (2 * (h - first) + 1) ++ src (2 * (h - first)) else pma h := by
  induction n generalizing src first pma with
  | zero => rw [toPma, if_neg (by omega)]
  | succ n ih =>
    rw [toPma, ih]
    by_cases here : h = first
    · subst here
      rw [if_neg (by omega), if_pos rfl, if_pos (by omega), Nat.sub_self]
    · rw [if_neg here]
      by_cases later : first + 1 ≤ h ∧ h < first + 1 + n
      · have next : h - first = h - (first + 1) + 1 := by omega
        rw [if_pos later, if_pos (by omega), next]
        rfl
      · rw [if_neg later, if_neg (by omega)]

theorem append_low (b₁ b₀ : Byte) : (b₁ ++ b₀ : BitVec 16).extractLsb' 0 8 = b₀ := by
  apply BitVec.eq_of_getLsbD_eq
  intro i low
  rw [BitVec.getLsbD_extractLsb', Nat.zero_add, BitVec.getLsbD_append, decide_eq_true low, if_pos low, Bool.true_and]

theorem append_high (b₁ b₀ : Byte) : (b₁ ++ b₀ : BitVec 16).extractLsb' 8 8 = b₁ := by
  apply BitVec.eq_of_getLsbD_eq
  intro i low
  rw [BitVec.getLsbD_extractLsb', BitVec.getLsbD_append, decide_eq_true low, if_neg (by omega), Bool.true_and, Nat.add_sub_cancel_left]

/-- A byte of a halfword. -/
theorem byte_append (b₁ b₀ : Byte) (i : Nat) : (b₁ ++ b₀ : BitVec 16).extractLsb' (8 * (i % 2)) 8 = if i % 2 = 0 then b₀ else b₁ := by
  rcases Nat.mod_two_eq_zero_or_one i with even | odd
  · rw [even, if_pos rfl]
    exact append_low b₁ b₀
  · rw [odd, if_neg (by decide)]
    exact append_high b₁ b₀

/-- **A copied byte** is in the packet memory. -/
theorem byte_copied {addr count : BitVec 16} (even : addr.toNat % 2 = 0) {i : Nat} (less : i < count.toNat) :
    (userToPMABufferCopy src addr count pma).byte (addr.toNat + i) = src i := by
  have rounds : (count.toNat + 1) >>> 1 = (count.toNat + 1) / 2 := Nat.shiftRight_one _
  have here : (addr.toNat + i) / 2 - addr.toNat / 2 = i / 2 := by omega
  have same : (addr.toNat + i) % 2 = i % 2 := by omega
  rw [Pma.byte, userToPMABufferCopy, toPma_eq, rounds, if_pos (by omega), here, same, byte_append]
  split
  · exact congrArg src (by omega)
  · exact congrArg src (by omega)

/-- The bytes that are counted are the first bytes of the buffer. -/
theorem bytes_copied {addr count : BitVec 16} (even : addr.toNat % 2 = 0) :
    (userToPMABufferCopy src addr count pma).bytes addr.toNat count.toNat = (List.range count.toNat).map src := by
  apply List.map_congr_left
  intro i here
  exact byte_copied even (List.mem_range.mp here)

theorem fromPma_eq (n first : Nat) (pma : Pma) : fromPma n first pma = pma.bytes (2 * first) (2 * n) := by
  induction n generalizing first with
  | zero => rfl
  | succ n ih =>
    have two : 2 * (n + 1) = 2 + 2 * n := by omega
    have start : 2 * first / 2 = first := by omega
    rw [fromPma, ih, Pma.bytes, Pma.bytes, Mem.read, Mem.read, two, List.range_add, List.map_append, List.map_map]
    have rest : (List.range (2 * n)).map (fun i => pma.byte (2 * (first + 1) + i)) =
        (List.range (2 * n)).map ((fun i => pma.byte (2 * first + i)) ∘ (2 + ·)) := by
      apply List.map_congr_left
      intro i _
      rw [Function.comp_apply, show 2 * (first + 1) + i = 2 * first + (2 + i) by omega]
    rw [rest]
    have front : (List.range 2).map (fun i => pma.byte (2 * first + i)) = [pma.byte (2 * first), pma.byte (2 * first + 1)] := rfl
    rw [front, Pma.byte, Pma.byte, show 2 * first % 2 = 0 by omega, show (2 * first + 1) % 2 = 1 by omega,
      show (2 * first + 1) / 2 = first by omega, start]
    rfl

/-- The bytes copied out, with the one after an odd number of them. -/
theorem pmaToUser_eq {addr count : BitVec 16} (even : addr.toNat % 2 = 0) :
    pmaToUserBufferCopy addr count pma = pma.bytes addr.toNat (count.toNat + count.toNat % 2) := by
  have rounds : (count.toNat + 1) >>> 1 = (count.toNat + 1) / 2 := Nat.shiftRight_one _
  rw [pmaToUserBufferCopy, fromPma_eq, rounds, show 2 * (addr.toNat / 2) = addr.toNat by omega,
    show 2 * ((count.toNat + 1) / 2) = count.toNat + count.toNat % 2 by omega]

end Copy

end OffLineProgrammer.UsbCore
