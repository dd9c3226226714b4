import OffLineProgrammer.Target.Tail

/-!
# What `target_flash_program_page` programs

Every pass hands `ProgramPage` the page size, so the last page is programmed whole:
behind the end of the buffer with what the page before left in the target's RAM, or
with what was there at first. The range asked for and nothing else is programmed
exactly where those bytes do no harm.
-/

namespace OffLineProgrammer.Target
set_option autoImplicit false
open OffLineProgrammer.Lib

/-- The byte programmed at offset `j` from the start of a buffer of `n` bytes. -/
def plannedByte (t : ProgramTarget) (data : Mem) (n : Nat) (ram : WordMem) (j : Nat) : Byte :=
  if j < n then data j
  else if t.pageSize ≤ j then data (j - t.pageSize)
  else ram (t.programBuffer + BitVec.ofNat 32 j)

/-- The page that covers offset `j` begins inside a buffer of `n` bytes. -/
def ProgramTarget.Covered (t : ProgramTarget) (n j : Nat) : Prop := j / t.pageSize * t.pageSize < n

/-- The flash holds the `n` bytes of the buffer from `start` on, and is erased elsewhere. -/
structure ProgrammedExactly (start : Word) (data : Mem) (n : Nat) (flash : WordMem) : Prop where
  inside : ∀ i < n, flash (start + BitVec.ofNat 32 i) = data i
  outside : ∀ x : Word, n ≤ (x - start).toNat → flash x = 0xFF#8

/-- The bytes programmed behind the buffer are `0xFF`; those that run over the top of
the address space, onto the start of the buffer, clear no bit there. -/
structure StaleHarmless (t : ProgramTarget) (data : Mem) (n : Nat) (ram : WordMem) : Prop where
  behind : ∀ j < 2 ^ 32, n ≤ j → t.Covered n j → plannedByte t data n ram j = 0xFF#8
  wrapped : ∀ i, t.Covered n (2 ^ 32 + i) → data i &&& plannedByte t data n ram (2 ^ 32 + i) = data i

/-- A page in terms of the offsets it covers. -/
theorem pageByte_planned (t : ProgramTarget) (data : Mem) (n : Nat) (ram : WordMem) (c : Nat) {i : Nat}
    (inside : i < t.pageSize) : pageByte t data n ram c i = plannedByte t data n ram (c * t.pageSize + i) := by
  unfold pageByte plannedByte
  split
  · rfl
  · rcases Nat.eq_zero_or_pos c with rfl | later
    · rw [if_neg (Nat.lt_irrefl 0), Nat.zero_mul, Nat.zero_add, if_neg (Nat.not_le.mpr inside)]
    · have before := page_before later t.pageSize
      have place : (c - 1) * t.pageSize + i = c * t.pageSize + i - t.pageSize := by omega
      rw [if_pos later, if_pos (by omega), place]

section Bits

variable {W : World} {t : ProgramTarget} {data : Mem} {n : Nat} {start : Word} {s s' : ProgramPage}

/-- After `c` pages, bit by bit. -/
structure BitsAt (t : ProgramTarget) (data : Mem) (n : Nat) (start : Word) (before : Chip) (c : Nat) (s : ProgramPage) :
    Prop where
  tail : TailAt t data n start before c s
  bits : ∀ x k, (s.rig.chip.flash x).getLsbD k = true ↔ (before.flash x).getLsbD k = true ∧
    ∀ c' < c, ∀ i < t.pageSize, x = start + BitVec.ofNat 32 (c' * t.pageSize + i) →
      (pageByte t data n before.ram c' i).getLsbD k = true

/-- One page more. -/
theorem BitsAt.again {before : Chip} {c : Nat} (at_ : BitsAt t data n start before c s) (programs : W.Programs t)
    (keeps : W.KeepsBuffer t) (pass : programPagePass W t data s = some (.inl s')) :
    BitsAt t data n start before (c + 1) s' := by
  refine ⟨at_.tail.again programs keeps pass, fun x k => ?_⟩
  rw [at_.tail.programmed (masks_bit k) programs pass x, at_.bits x k, and_assoc]
  exact and_congr_right fun _ => Nat.forall_lt_succ_right.symm

/-- The pages that begin inside the buffer are the ones programmed. -/
theorem BitsAt.leave {g : Rig} {c : Nat} (at_ : BitsAt t data n start g.chip c s) (used : s.size = 0) (x : Word)
    (k : Nat) : (s.rig.chip.flash x).getLsbD k = true ↔ (g.chip.flash x).getLsbD k = true ∧
      ∀ j, t.Covered n j → x = start + BitVec.ofNat 32 j → (plannedByte t data n g.chip.ram j).getLsbD k = true := by
  obtain ⟨tail, bits⟩ := at_
  have all : n ≤ c * t.pageSize := by
    have size := tail.size
    have buf := tail.buf
    rw [used] at size
    simp only [BitVec.ofNat_eq_ofNat, BitVec.toNat_ofNat, Nat.zero_mod, Nat.add_zero] at size
    omega
  rw [bits x k]
  apply and_congr_right
  intro _
  constructor
  · intro here j covered land
    have done : j / t.pageSize < c := Nat.lt_of_mul_lt_mul_right (Nat.lt_of_lt_of_le covered all)
    have page : 0 < t.pageSize := Nat.pos_of_mul_pos_left (Nat.lt_of_lt_of_le (Nat.zero_lt_of_lt covered) all)
    have inside := Nat.mod_lt j page
    have split := Nat.div_add_mod' j t.pageSize
    have byte := here (j / t.pageSize) done (j % t.pageSize) inside (by rw [split]; exact land)
    rwa [pageByte_planned _ _ _ _ _ inside, split] at byte
  · intro here c' less i inside land
    have index : (c' * t.pageSize + i) / t.pageSize = c' := by
      rw [Nat.mul_comm, Nat.mul_add_div (Nat.zero_lt_of_lt inside), Nat.div_eq_of_lt inside, Nat.add_zero]
    have covered : t.Covered n (c' * t.pageSize + i) := by
      rw [ProgramTarget.Covered, index]
      exact tail.begun c' less
    rw [pageByte_planned _ _ _ _ _ inside]
    exact here _ covered land

/-- **A cell after a call** keeps a one exactly where every byte that lands on it has one. -/
theorem targetFlashProgramPage_bits {fuel : Nat} {size : Word} {g g' : Rig} (programs : W.Programs t)
    (keeps : W.KeepsBuffer t) (run : targetFlashProgramPage W t fuel start data size g = some (.success, g')) :
    ∀ x k, (g'.chip.flash x).getLsbD k = true ↔ (g.chip.flash x).getLsbD k = true ∧
      ∀ j, t.Covered size.toNat j → x = start + BitVec.ofNat 32 j →
        (plannedByte t data size.toNat g.chip.ram j).getLsbD k = true := by
  have first : BitsAt t data size.toNat start g.chip 0 ⟨start, 0, size, g⟩ := by
    refine ⟨⟨by simp, by simp, by simp, ?_, by simp, by simp, by simp⟩, by simp⟩
    exact (BitVec.add_zero start).symm
  refine Loop.exec_post (fun s => ∃ c, BitsAt t data size.toNat start g.chip c s)
    (fun r : ErrorT × Rig => r.1 = .success → ∀ x k, (r.2.chip.flash x).getLsbD k = true ↔
      (g.chip.flash x).getLsbD k = true ∧ ∀ j, t.Covered size.toNat j → x = start + BitVec.ofNat 32 j →
        (plannedByte t data size.toNat g.chip.ram j).getLsbD k = true)
    ?_ ?_ ⟨0, first⟩ run rfl
  · rintro s s' ⟨c, at_⟩ pass
    exact ⟨c + 1, at_.again programs keeps pass⟩
  · rintro s ⟨e, h⟩ ⟨c, at_⟩ pass rfl x k
    obtain ⟨used, rfl⟩ := programPagePass_leave pass
    exact at_.leave used x k

end Bits

/-! ## The range asked for -/

section Range

variable {t : ProgramTarget} {data : Mem} {n : Nat} {ram flash : WordMem} {start : Word}

/-- The pages reach less than a page behind the buffer. -/
theorem covered_lt (page : 0 < n → 0 < t.pageSize) {j : Nat} (covered : t.Covered n j) : j < n + t.pageSize := by
  have split := Nat.div_add_mod' j t.pageSize
  have inside := Nat.mod_lt j (page (Nat.zero_lt_of_lt covered))
  unfold ProgramTarget.Covered at covered
  omega

/-- The offsets that reach the cell at distance `i`: `i` itself, and one that has run
over the top of the address space. -/
theorem covered_place (small : n < 2 ^ 32) (page : 0 < n → 0 < t.pageSize) {i j : Nat} (near : i < 2 ^ 32)
    (covered : t.Covered n j) (land : start + BitVec.ofNat 32 i = start + BitVec.ofNat 32 j) :
    j = i ∨ j = 2 ^ 32 + i := by
  have reach := covered_lt page covered
  have bound : t.pageSize < 2 ^ 32 := t.programBufferSize.isLt
  have cells := congrArg BitVec.toNat ((BitVec.add_right_inj start).mp land)
  rw [BitVec.toNat_ofNat, BitVec.toNat_ofNat] at cells
  omega

theorem plannedByte_inside {j : Nat} (inside : j < n) : plannedByte t data n ram j = data j := if_pos inside

/-- The offsets of the buffer are covered. -/
theorem covered_inside {j : Nat} (inside : j < n) : t.Covered n j :=
  Nat.lt_of_le_of_lt (Nat.div_mul_le_self ..) inside

/-- A byte with all its bits is `0xFF`. -/
theorem erased_of_bits {b : Byte} (all : ∀ k < 8, b.getLsbD k = true) : b = 0xFF#8 := by
  apply BitVec.eq_of_getLsbD_eq
  intro k less
  rw [all k less, erased_bit less]

/-- A byte that another one clears no bit of. -/
theorem kept_iff (a b : Byte) : a &&& b = a ↔ ∀ k, a.getLsbD k = true → b.getLsbD k = true := by
  constructor
  · intro same k one
    rw [← same, BitVec.getLsbD_and, Bool.and_eq_true] at one
    exact one.2
  · intro all
    apply BitVec.eq_of_getLsbD_eq
    intro k less
    rw [BitVec.getLsbD_and]
    cases one : a.getLsbD k with
    | false => rfl
    | true => rw [all k one, Bool.and_self]

/-- The cells that are programmed, bit by bit. -/
theorem programmedExactly_iff (small : n < 2 ^ 32) (page : 0 < n → 0 < t.pageSize)
    (bits : ∀ x k, (flash x).getLsbD k = true ↔ k < 8 ∧ ∀ j, t.Covered n j → x = start + BitVec.ofNat 32 j →
      (plannedByte t data n ram j).getLsbD k = true) :
    ProgrammedExactly start data n flash ↔ StaleHarmless t data n ram := by
  constructor
  · rintro ⟨inside, outside⟩
    refine ⟨fun j less past covered => ?_, fun i covered => ?_⟩
    · have erased := outside (start + BitVec.ofNat 32 j) (by rw [distance start less]; exact past)
      apply erased_of_bits
      intro k bit
      have one : (flash (start + BitVec.ofNat 32 j)).getLsbD k = true := by
        rw [erased]
        exact erased_bit bit
      exact ((bits _ k).mp one).2 j covered rfl
    · have reach := covered_lt page covered
      have bound : t.pageSize < 2 ^ 32 := t.programBufferSize.isLt
      have place : start + BitVec.ofNat 32 i = start + BitVec.ofNat 32 (2 ^ 32 + i) := by
        rw [BitVec.ofNat_add]
        congr 1
        exact (BitVec.zero_add _).symm
      rw [kept_iff]
      intro k one
      rw [← inside i (by omega)] at one
      exact ((bits _ k).mp one).2 _ covered place
  · rintro ⟨behind, wrapped⟩
    refine ⟨fun i less => ?_, fun x past => ?_⟩
    · apply BitVec.eq_of_getLsbD_eq
      intro k bit
      rw [Bool.eq_iff_iff, bits]
      constructor
      · rintro ⟨-, all⟩
        rw [← @plannedByte_inside t data n ram i less]
        exact all i (covered_inside less) rfl
      · intro one
        refine ⟨bit, fun j covered land => ?_⟩
        rcases covered_place small page (Nat.lt_trans less small) covered land with rfl | rfl
        · rw [plannedByte_inside less]
          exact one
        · exact (kept_iff _ _).mp (wrapped i covered) k one
    · apply erased_of_bits
      intro k bit
      refine (bits x k).mpr ⟨bit, fun j covered land => ?_⟩
      have reach := covered_lt page covered
      have bound : t.pageSize < 2 ^ 32 := t.programBufferSize.isLt
      have place := covered_place small page (x - start).isLt covered ((add_distance start x).trans land)
      have here : j = (x - start).toNat := by omega
      rw [behind j (by rw [here]; exact (x - start).isLt) (by omega) covered]
      exact erased_bit bit

end Range

/-- **The range asked for, and nothing else**, is programmed by a call that returns
`ERROR_SUCCESS` exactly where the bytes behind the end of the buffer do no harm. -/
theorem targetFlashProgramPage_exact_iff (W : World) (t : ProgramTarget) (fuel : Nat) (addr : Word) (data : Mem)
    (size : Word) (g g' : Rig) (programs : W.Programs t) (keeps : W.KeepsBuffer t)
    (erased : g.chip.flash = WordMem.erased)
    (returned : targetFlashProgramPage W t fuel addr data size g = some (.success, g')) :
    ProgrammedExactly addr data size.toNat g'.chip.flash ↔ StaleHarmless t data size.toNat g.chip.ram := by
  apply programmedExactly_iff size.isLt (targetFlashProgramPage_buffered programs keeps returned).page
  intro x k
  rw [targetFlashProgramPage_bits programs keeps returned, erased]
  apply and_congr_left
  intro _
  exact ⟨BitVec.lt_of_getLsbD, erased_bit⟩

/-- An erased target whose RAM holds zeros. -/
def blankRig : Rig := ⟨⟨fun _ => 0, WordMem.erased⟩, []⟩

/-- A full page is programmed exactly. -/
theorem targetFlashProgramPage_exact_page : ∃ g', targetFlashProgramPage (idealWorld (sampleTarget 4) []) (sampleTarget 4)
    2 0x8000000 (fun _ => 0x12) 4 blankRig = some (.success, g') ∧
    ProgrammedExactly 0x8000000 (fun _ => 0x12) 4 g'.chip.flash := by
  refine ⟨_, rfl, (targetFlashProgramPage_exact_iff (idealWorld (sampleTarget 4) []) (sampleTarget 4) 2 0x8000000
    (fun _ => 0x12) 4 blankRig _ (idealWorld_programs (by decide)) idealWorld_keepsBuffer rfl rfl).mpr ⟨?_, ?_⟩⟩
  · intro j _ past covered
    have size : (4 : Word).toNat = 4 := rfl
    have page : (sampleTarget 4).pageSize = 4 := rfl
    simp only [ProgramTarget.Covered, page, size] at past covered
    omega
  · intro i covered
    have size : (4 : Word).toNat = 4 := rfl
    have page : (sampleTarget 4).pageSize = 4 := rfl
    simp only [ProgramTarget.Covered, page, size] at covered
    omega

set_option maxRecDepth 20000 in
/-- One byte with pages of 1024: the zeros in the page buffer are programmed behind it. -/
theorem targetFlashProgramPage_stale : ¬ ∀ (W : World) (t : ProgramTarget) (fuel : Nat) (addr : Word) (data : Mem)
    (size : Word) (g g' : Rig), 1 ≤ t.pageSize → W.Programs t → W.KeepsBuffer t → g.chip.flash = WordMem.erased →
    targetFlashProgramPage W t fuel addr data size g = some (.success, g') →
    ProgrammedExactly addr data size.toNat g'.chip.flash := by
  intro always
  have programs : (idealWorld (sampleTarget 1024) []).Programs (sampleTarget 1024) := idealWorld_programs (by decide)
  obtain ⟨g', returned⟩ : ∃ g', targetFlashProgramPage (idealWorld (sampleTarget 1024) []) (sampleTarget 1024) 2
      0x8000000 (fun _ => 0x12) 1 blankRig = some (.success, g') := ⟨_, rfl⟩
  have exact_ := always _ _ 2 0x8000000 (fun _ => 0x12) 1 blankRig g' (by decide) programs idealWorld_keepsBuffer rfl
    returned
  have one : (g'.chip.flash 0x8000001).getLsbD 0 = true := by
    rw [exact_.outside 0x8000001 (by decide)]
    rfl
  have planned := ((targetFlashProgramPage_bits programs idealWorld_keepsBuffer returned 0x8000001 0).mp one).2 1
    (show 1 / 1024 * 1024 < 1 by decide) rfl
  have zero : plannedByte (sampleTarget 1024) (fun _ => 0x12) 1 blankRig.chip.ram 1 = 0 := rfl
  rw [show (1 : Word).toNat = 1 from rfl, zero] at planned
  cases planned

end OffLineProgrammer.Target
