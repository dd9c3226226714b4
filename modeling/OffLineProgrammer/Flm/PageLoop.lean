import OffLineProgrammer.Flm.Layout

/-!
# Whether the pages of a parsed file come to an end

A pass of `target_flash_program_page` uses up at most a page, and the page size is
whatever the parse has left in `program_buffer_size`: nothing looks whether it is 0.
-/

namespace OffLineProgrammer.Flm
set_option autoImplicit false
open OffLineProgrammer.Lib OffLineProgrammer.Target

/-! ## The loop -/

section Loop

variable {W : World} {t : ProgramTarget} {data : Mem} {addr size : Word} {g : Rig}

/-- A pass that does not use up the buffer makes it shorter, if there are pages. -/
theorem programPagePass_shorter (all : W.Succeeds) (s : ProgramPage) (pages : t.pageSize ≠ 0 ∨ s.size = 0) :
    (∃ s', programPagePass W t data s = some (.inl s') ∧ (t.pageSize ≠ 0 ∨ s'.size = 0) ∧
      s'.size.toNat < s.size.toNat) ∨
    ∃ r, programPagePass W t data s = some (.inr r) ∧ r.1 = .success := by
  by_cases more : s.size > 0
  · have some_ : 0 < s.size.toNat := by simpa [BitVec.lt_def] using more
    have page : t.pageSize ≠ 0 := by
      apply pages.resolve_right
      intro none
      rw [none] at some_
      exact Nat.lt_irrefl 0 some_
    have step := writeSize_toNat t s.size
    refine Or.inl ⟨_, programPagePass_made all more, Or.inl page, ?_⟩
    have left : (s.size - writeSize t s.size).toNat = s.size.toNat - min t.pageSize s.size.toNat := by
      rw [BitVec.toNat_sub_of_le, step]
      rw [BitVec.le_def, step]
      exact Nat.min_le_right ..
    rw [left]
    omega
  · refine Or.inr ⟨(.success, s.rig), ?_, rfl⟩
    rw [programPagePass, if_neg more]

/-- The passes are at most as many as there are bytes. -/
theorem targetFlashProgramPage_ends (all : W.Succeeds) (pages : t.pageSize ≠ 0 ∨ size = 0) :
    ∃ r, targetFlashProgramPage W t (size.toNat + 1) addr data size g = some r ∧ r.1 = .success := by
  refine Loop.exec_returns (fun s : ProgramPage => t.pageSize ≠ 0 ∨ s.size = 0) (fun r : ErrorT × Rig => r.1 = .success)
    (fun s => s.size.toNat) (fun s => programPagePass_shorter all s) pages ?_
  exact Nat.lt_succ_self _

/-- Without pages every pass is followed by another. -/
theorem targetFlashProgramPage_endless (all : W.Succeeds) (zero : t.pageSize = 0) (more : size ≠ 0) (fuel : Nat) :
    targetFlashProgramPage W t fuel addr data size g = none := by
  refine Loop.exec_diverges (fun s : ProgramPage => s.size ≠ 0) (fun s some_ => ?_) (show size ≠ 0 from more)
  have positive : s.size > 0 := by
    show 0 < s.size
    rw [BitVec.lt_def]
    exact Nat.pos_of_ne_zero fun empty => some_ (BitVec.eq_of_toNat_eq empty)
  have nothing : writeSize t s.size = 0 := by
    apply BitVec.eq_of_toNat_eq
    rw [writeSize_toNat, zero, Nat.zero_min]
    rfl
  refine ⟨_, programPagePass_made all positive, ?_⟩
  have same : s.size - writeSize t s.size = s.size := by
    rw [nothing]
    exact BitVec.sub_zero _
  exact same.trans_ne some_

end Loop

/-! ## The page size of a file -/

section Parse

variable (m : Media) (mem : Memory) (target : ProgramTarget) (info : ChipInformation)

/-- The page size a parse leaves: that of the last device header, what `info` held where
there is none, and what `target` held where the file is no ELF file. -/
def parsedPageSize : Nat := if HasElf m mem then pageBytes m mem info else target.pageSize

theorem flmPrase_pageSize : (flmPrase m mem target info).target.pageSize = parsedPageSize m mem target info := by
  unfold parsedPageSize
  split
  · rename_i elf
    have accepted : (flmPrase m mem target info).ret = 0 := by rw [flmPrase, if_pos elf]
    exact congrArg Region.length (flmPrase_laid accepted).buffer
  · rename_i other
    rw [flmPrase, if_neg other]

/-- **The loop ends** within as many passes as there are bytes exactly where the buffer is
empty or the parse has left a page size; else it never ends. -/
theorem programPage_ends_iff (W : World) (all : W.Succeeds) (addr : Word) (data : Mem) (size : Word) (g : Rig) :
    ((∃ r, targetFlashProgramPage W (flmPrase m mem target info).target (size.toNat + 1) addr data size g = some r) ↔
      size = 0 ∨ parsedPageSize m mem target info ≠ 0) ∧
    (size ≠ 0 → parsedPageSize m mem target info = 0 →
      ∀ fuel, targetFlashProgramPage W (flmPrase m mem target info).target fuel addr data size g = none) := by
  have page := flmPrase_pageSize m mem target info
  have endless : size ≠ 0 → parsedPageSize m mem target info = 0 →
      ∀ fuel, targetFlashProgramPage W (flmPrase m mem target info).target fuel addr data size g = none :=
    fun more zero => targetFlashProgramPage_endless all (page.trans zero) more
  refine ⟨⟨?_, ?_⟩, endless⟩
  · rintro ⟨r, ended⟩
    apply or_iff_not_imp_left.mpr
    intro more zero
    rw [endless more zero] at ended
    cases ended
  · intro pages
    obtain ⟨r, ended, -⟩ := @targetFlashProgramPage_ends W (flmPrase m mem target info).target data addr size g all
      (by rw [page]; exact pages.symm)
    exact ⟨r, ended⟩

end Parse

theorem plainWorld_succeeds : (plainWorld id).Succeeds := fun _ => rfl

/-- A file with pages of 1024 bytes. -/
theorem programPage_ends_pages : ∃ r, targetFlashProgramPage (plainWorld id) (parseFlm 64 1024).target 1025 0x8000000
    (fun _ => 0) 1024 ⟨⟨fun _ => 0, fun _ => 0⟩, []⟩ = some r :=
  (programPage_ends_iff (Media.whole (flmFile 64 1024)) zeroMemory flashAlgo noInformation (plainWorld id)
    plainWorld_succeeds 0x8000000 (fun _ => 0) 1024 ⟨⟨fun _ => 0, fun _ => 0⟩, []⟩).1.mpr (Or.inr (by decide +kernel))

/-- A file whose page size is 0 is accepted, and one byte is never programmed. -/
theorem programPage_endless_zero : ¬ ∀ (m : Media) (mem : Memory) (target : ProgramTarget) (info : ChipInformation)
    (W : World), W.Succeeds → (flmPrase m mem target info).ret = 0 → ∀ (addr : Word) (data : Mem) (size : Word) (g : Rig),
    ∃ r, targetFlashProgramPage W (flmPrase m mem target info).target (size.toNat + 1) addr data size g = some r := by
  intro ends
  have accepted : (parseFlm 64 0).ret = 0 := by decide +kernel
  have zero : (parseFlm 64 0).target.pageSize = 0 := by
    rw [parseFlm, flmPrase_pageSize]
    decide +kernel
  obtain ⟨r, ended⟩ := ends (Media.whole (flmFile 64 0)) zeroMemory flashAlgo noInformation (plainWorld id)
    plainWorld_succeeds accepted 0x8000000 (fun _ => 0) 1 ⟨⟨fun _ => 0, fun _ => 0⟩, []⟩
  rw [← parseFlm, targetFlashProgramPage_endless plainWorld_succeeds zero (by decide)] at ended
  cases ended

end OffLineProgrammer.Flm
