import OffLineProgrammer.Lib.WordMem

/-!
# Regions of a 32-bit memory

A region is a first address and a length, and may run over the top of the address
space. Two regions are apart when no address is in both; what happens to a memory
within one region does not change what is read from one apart from it.
-/

namespace OffLineProgrammer.Lib
set_option autoImplicit false

structure Region where
  base : Word
  length : Nat

namespace Region

def Contains (r : Region) (x : Word) : Prop := (x - r.base).toNat < r.length

instance (r : Region) (x : Word) : Decidable (r.Contains x) := by unfold Contains; infer_instance

/-- No address is in both. -/
def Apart (r q : Region) : Prop := ∀ x, r.Contains x → ¬ q.Contains x

/-- `m'` differs from `m` at most in `r`. -/
def Within (r : Region) (m m' : WordMem) : Prop := ∀ x, ¬ r.Contains x → m' x = m x

variable {r q : Region} {m m' : WordMem} {bs : List Byte}

/-- An address is in a region by its distance. -/
theorem contains_offset {b : Word} {n i : Nat} (small : i < 2 ^ 32) :
    Contains ⟨b, n⟩ (b + BitVec.ofNat 32 i) ↔ i < n := by
  rw [Contains, distance b small]

/-- Storing at most a region's length at its base stays within it. -/
theorem within_store (fits : bs.length ≤ r.length) : r.Within m (m.store r.base bs) := by
  intro x out
  have far : r.length ≤ (x - r.base).toNat := Nat.le_of_not_lt out
  exact WordMem.store_out (Nat.le_trans fits far)

/-- A region reads the same when something happens apart from it. -/
theorem Apart.read (apart : r.Apart q) (within : q.Within m m') (fits : r.length ≤ 2 ^ 32) :
    m'.read r.base r.length = m.read r.base r.length := by
  apply List.map_congr_left
  intro i listed
  have inside : i < r.length := List.mem_range.mp listed
  exact within _ (apart _ ((contains_offset (Nat.lt_of_lt_of_le inside fits)).mpr inside))

/-- **Regions `d` apart** do not meet if the first ends before the second begins
and the second does not run over the top into the first. -/
theorem apart_iff {b : Word} {d n k : Nat} (away : 0 < d) (small : d < 2 ^ 32) :
    Apart ⟨b, n⟩ ⟨b + BitVec.ofNat 32 d, k⟩ ↔ (n ≤ d ∨ k = 0) ∧ (n = 0 ∨ d + k ≤ 2 ^ 32) := by
  constructor
  · intro apart
    have zero : (b - b).toNat = 0 := by rw [BitVec.sub_self, BitVec.toNat_zero]
    constructor
    · have start : d < n → ¬ (b + BitVec.ofNat 32 d - (b + BitVec.ofNat 32 d)).toNat < k := fun inside =>
        apart _ ((contains_offset small).mpr inside)
      rw [BitVec.sub_self, BitVec.toNat_zero] at start
      omega
    · have start : (b - b).toNat < n → ¬ (b - (b + BitVec.ofNat 32 d)).toNat < k := apart b
      rw [distance_wrap b b (by rw [zero]; exact away) small, zero] at start
      omega
  · rintro ⟨before, room⟩ x first second
    unfold Contains at first second
    dsimp only at first second
    have ahead := distance_wrap b x (by omega : (x - b).toNat < d) small
    omega

end Region

end OffLineProgrammer.Lib
