import OffLineProgrammer.Target.FlashSwd

/-!
# The file is programmed

With a page size that divides the block size every page is full, so the blocks
are programmed one after the other without overlap: a run that returns 1 leaves
the file in the flash.
-/

namespace OffLineProgrammer.Target
set_option autoImplicit false
open OffLineProgrammer.Lib

/-! ## A buffer of whole pages -/

section Pages

variable {W : World} {t : ProgramTarget}

/-- The buffer up to the cursor is programmed. -/
structure PagesAt (t : ProgramTarget) (start : Word) (data : Mem) (size : Nat) (flash : WordMem) (s : ProgramPage) :
    Prop where
  addr : s.addr = start + BitVec.ofNat 32 s.buf
  size : s.buf + s.size.toNat = size
  whole : t.pageSize ∣ s.buf
  flash : s.rig.chip.flash = flash.program start (data.read 0 s.buf)

/-- A page is a full one while the buffer is not used up. -/
theorem writeSize_whole {size : Word} (more : 0 < size.toNat) (whole : t.pageSize ∣ size.toNat) :
    writeSize t size = t.programBufferSize := by
  have le : t.pageSize ≤ size.toNat := Nat.le_of_dvd more whole
  unfold writeSize
  split
  · rfl
  · rename_i small
    rw [gt_iff_lt, BitVec.lt_def] at small
    exact BitVec.eq_of_toNat_eq (Nat.le_antisymm (Nat.le_of_not_lt small) le)

/-- The page programmed is the one just downloaded. -/
theorem ProgramPage.Passed.flash {data : Mem} {s s' : ProgramPage} (passed : s.Passed W t data s') (programs : W.Programs t)
    (full : writeSize t s.size = t.programBufferSize) :
    s'.rig.chip.flash = s.rig.chip.flash.program s.addr (data.read s.buf t.pageSize) := by
  have bound : (s.piece t data).length ≤ 2 ^ 32 := by
    rw [ProgramPage.piece, Mem.length_read]
    exact Nat.le_of_lt (writeSize t s.size).isLt
  have back : (s.loaded t data).ram.read t.programBuffer t.pageSize = s.piece t data := by
    have size : t.pageSize = (s.piece t data).length := by
      rw [ProgramPage.piece, Mem.length_read, full, ProgramTarget.pageSize]
    rw [size]
    exact WordMem.read_store bound
  rw [passed.chip, programs, ← ProgramTarget.pageSize, back, ProgramPage.piece, full]
  rfl

/-- One page further. -/
theorem PagesAt.again {start : Word} {data : Mem} {size : Nat} {flash : WordMem} (programs : W.Programs t)
    (whole : t.pageSize ∣ size) (bound : size ≤ 2 ^ 32) {s s' : ProgramPage} (at_ : PagesAt t start data size flash s)
    (pass : programPagePass W t data s = some (.inl s')) : PagesAt t start data size flash s' := by
  obtain ⟨address, cursor, pages, content⟩ := at_
  have passed := programPagePass_again pass
  have rest : t.pageSize ∣ s.size.toNat := by
    rw [← cursor] at whole
    exact (Nat.dvd_add_right pages).mp whole
  have full := writeSize_whole passed.more rest
  have le : t.pageSize ≤ s.size.toNat := Nat.le_of_dvd passed.more rest
  have buf : s'.buf = s.buf + t.pageSize := by rw [passed.buf, full, ProgramTarget.pageSize]
  have left : s'.size.toNat = s.size.toNat - t.pageSize := by
    rw [passed.size, full, BitVec.toNat_sub_of_le (BitVec.le_def.mpr le), ProgramTarget.pageSize]
  refine ⟨?_, by omega, ?_, ?_⟩
  · rw [passed.addr, full, address, buf, BitVec.add_assoc]
    congr 1
    rw [BitVec.ofNat_add, ProgramTarget.pageSize, BitVec.ofNat_toNat, BitVec.setWidth_eq]
  · rw [buf]
    exact Nat.dvd_add pages (Nat.dvd_refl _)
  · rw [passed.flash programs full, content, address, buf, Mem.read_add, WordMem.program_append]
    · rw [Mem.length_read, Nat.zero_add]
    · rw [Mem.length_read, Mem.length_read]
      omega

/-- **Whole pages program the buffer.** -/
theorem targetFlashProgramPage_whole {fuel : Nat} {start : Word} {data : Mem} {size : Word} {g g' : Rig}
    (programs : W.Programs t) (whole : t.pageSize ∣ size.toNat)
    (run : targetFlashProgramPage W t fuel start data size g = some (.success, g')) :
    g'.chip.flash = g.chip.flash.program start (data.read 0 size.toNat) := by
  have first : PagesAt t start data size.toNat g.chip.flash ⟨start, 0, size, g⟩ := by
    refine ⟨?_, Nat.zero_add _, Nat.dvd_zero _, ?_⟩
    · exact (BitVec.add_zero start).symm
    · exact (WordMem.program_nil _ _).symm
  refine Loop.exec_post (PagesAt t start data size.toNat g.chip.flash)
    (fun r : ErrorT × Rig => r.1 = .success → r.2.chip.flash = g.chip.flash.program start (data.read 0 size.toNat))
    (fun s s' at_ pass => at_.again programs whole (Nat.le_of_lt size.isLt) pass) ?_ first run rfl
  rintro s ⟨e, h⟩ at_ pass rfl
  obtain ⟨used, rfl⟩ := programPagePass_leave pass
  have all : s.buf = size.toNat := by
    have cursor := at_.size
    rw [used] at cursor
    simpa using cursor
  rw [← all]
  exact at_.flash

end Pages

/-! ## The blocks of the file -/

section Blocks

variable {W : World} {t : ProgramTarget} {file : List Byte} {fuel : Nat}

/-- After some full blocks of the file. -/
structure BlocksAt (file : List Byte) (s : FlashSwd) : Prop where
  addr : s.addr = BitVec.ofNat 32 (dlSize * s.reads)
  inside : dlSize * s.reads ≤ file.length
  flash : s.rig.chip.flash = WordMem.erased.program flashBase (file.take (dlSize * s.reads))

/-- A block that starts inside a file ends in the address space. -/
theorem block_fits {n length : Nat} (inside : dlSize * n ≤ length) (small : length < 2 ^ 32) :
    dlSize * n + dlSize ≤ 2 ^ 32 := by
  unfold dlSize at *
  omega

/-- The block that is read, and what the buffer holds behind it. -/
theorem FlashSwd.block_read (s : FlashSwd) (delivers : W.Delivers file) :
    (s.block W).read 0 dlSize =
      (file.drop (dlSize * s.reads)).take dlSize ++
        s.binBuff.read ((file.drop (dlSize * s.reads)).take dlSize).length
          (dlSize - ((file.drop (dlSize * s.reads)).take dlSize).length) := by
  have length : ((file.drop (dlSize * s.reads)).take dlSize).length ≤ dlSize := by
    rw [List.length_take]
    exact Nat.min_le_left ..
  have front := Mem.read_write_front s.binBuff 0 ((file.drop (dlSize * s.reads)).take dlSize)
    (dlSize - ((file.drop (dlSize * s.reads)).take dlSize).length)
  rw [Nat.add_sub_cancel' length, Nat.zero_add] at front
  rw [FlashSwd.block, delivers, front]

/-- A block programs the buffer behind the blocks before it. -/
theorem BlocksAt.programmed {s : FlashSwd} {g : Rig} (at_ : BlocksAt file s) (programs : W.Programs t)
    (small : file.length < 2 ^ 32) (whole : t.pageSize ∣ dlSize) (run : s.Programmed W t fuel g) :
    g.chip.flash = WordMem.erased.program flashBase (file.take (dlSize * s.reads) ++ (s.block W).read 0 dlSize) := by
  obtain ⟨rig, same, page⟩ := run
  have size : (file.take (dlSize * s.reads)).length = dlSize * s.reads := by
    rw [List.length_take, Nat.min_eq_left at_.inside]
  have block := targetFlashProgramPage_whole programs (show t.pageSize ∣ (BitVec.ofNat 32 dlSize).toNat from whole) page
  rw [block, same, at_.flash, at_.addr, WordMem.program_append, size]
  · rfl
  · rw [size, Mem.length_read]
    exact block_fits at_.inside small

/-- A full block. -/
theorem BlocksAt.again {s s' : FlashSwd} (at_ : BlocksAt file s) (delivers : W.Delivers file) (programs : W.Programs t)
    (small : file.length < 2 ^ 32) (whole : t.pageSize ∣ dlSize)
    (pass : flashSwdPass W t fuel s = some (.inl s')) : BlocksAt file s' := by
  obtain ⟨full, run, addr, -, reads⟩ := flashSwdPass_again pass
  have flash := at_.programmed programs small whole run
  rw [delivers, List.length_take, List.length_drop] at full
  have length : ((file.drop (dlSize * s.reads)).take dlSize).length = dlSize := by
    rw [List.length_take, List.length_drop]
    omega
  have block := s.block_read delivers
  rw [length, Nat.sub_self, Mem.read_zero, List.append_nil] at block
  have inside := at_.inside
  have further : dlSize * s'.reads = dlSize * s.reads + dlSize := by rw [reads, Nat.mul_succ]
  refine ⟨?_, ?_, ?_⟩
  · rw [addr, at_.addr, further, BitVec.ofNat_add]
  · rw [further]
    omega
  · rw [flash, block, ← List.take_add, ← further]

/-- The last block: the rest of the file and the rest of the buffer. -/
theorem BlocksAt.leave {s : FlashSwd} {g : Rig} (at_ : BlocksAt file s) (delivers : W.Delivers file)
    (programs : W.Programs t) (small : file.length < 2 ^ 32) (whole : t.pageSize ∣ dlSize)
    (pass : flashSwdPass W t fuel s = some (.inr (true, g))) :
    ∃ tail, (file ++ tail).length ≤ 2 ^ 32 ∧ g.chip.flash = WordMem.erased.program flashBase (file ++ tail) := by
  obtain ⟨short, run⟩ := flashSwdPass_leave pass
  have flash := at_.programmed programs small whole run
  rw [delivers, List.length_take, List.length_drop] at short
  have inside := at_.inside
  have rest : (file.drop (dlSize * s.reads)).take dlSize = file.drop (dlSize * s.reads) := by
    apply List.take_of_length_le
    rw [List.length_drop]
    omega
  have block := s.block_read delivers
  rw [rest] at block
  rw [block, ← List.append_assoc, List.take_append_drop] at flash
  have fits := block_fits inside small
  refine ⟨_, ?_, flash⟩
  rw [List.length_append, Mem.length_read, List.length_drop]
  omega

end Blocks

/-- **The file is programmed.** With a page size that divides the block size, a run
that returns 1 leaves every byte of the file in the flash. -/
theorem flashSwd_programs_file (W : World) (t : ProgramTarget) (file : List Byte) (fuel : Nat) (heap : Mem) (g g' : Rig)
    (small : file.length < 2 ^ 32) (delivers : W.Delivers file) (erases : W.Erases t) (programs : W.Programs t)
    (whole : t.pageSize ∣ dlSize) (returned : flashSwd W t fuel heap g = some (1, g')) :
    ∀ k (hk : k < file.length), g'.chip.flash (0x8000000 + BitVec.ofNat 32 k) = file[k] := by
  obtain ⟨rig, ended, start, final, -, loop⟩ := flashSwd_one returned
  have first : BlocksAt file ⟨0, heap, 0, rig⟩ := by
    refine ⟨rfl, Nat.zero_le _, ?_⟩
    show rig.chip.flash = WordMem.erased.program flashBase (file.take 0)
    rw [start, prepared, erases, List.take_zero, WordMem.program_nil]
  obtain ⟨tail, bound, flash⟩ := Loop.exec_post (BlocksAt file)
    (fun r : Bool × Rig => r.1 = true → ∃ tail, (file ++ tail).length ≤ 2 ^ 32 ∧
      r.2.chip.flash = WordMem.erased.program flashBase (file ++ tail))
    (fun s s' at_ pass => at_.again delivers programs small whole pass)
    (by
      rintro s ⟨done, h⟩ at_ pass rfl
      exact at_.leave delivers programs small whole pass) first loop rfl
  intro k hk
  have inside : k < (file ++ tail).length := by
    rw [List.length_append]
    omega
  rw [← final, flash, WordMem.program_erased k inside bound, List.getElem_append_left hk]

set_option maxRecDepth 20000 in
/-- A file of two blocks is programmed with pages of 512 bytes. -/
theorem flashSwd_programs_blocks : ∃ g', flashSwd (idealWorld (sampleTarget 512) sampleFile) (sampleTarget 512) 4 (fun _ => 0)
    restingRig = some (1, g') ∧ g'.chip.flash 0x8000000 = 0x12 ∧ g'.chip.flash 0x8000400 = 0x34 := by
  obtain ⟨g', returned⟩ : ∃ g', flashSwd (idealWorld (sampleTarget 512) sampleFile) (sampleTarget 512) 4 (fun _ => 0)
      restingRig = some (1, g') := ⟨_, rfl⟩
  have programmed := flashSwd_programs_file (idealWorld (sampleTarget 512) sampleFile) (sampleTarget 512) sampleFile 4 (fun _ => 0)
    restingRig g' (by decide) idealWorld_delivers idealWorld_erases (idealWorld_programs (by decide)) (by decide) returned
  exact ⟨g', returned, programmed 0 (by decide), programmed 1024 (by decide)⟩

end OffLineProgrammer.Target
