import OffLineProgrammer.Lib.Loop
import OffLineProgrammer.Target.Swd

/-!
# The target flash routines, from target_flash.c

Download of the algorithm, chip erase, and the download and programming of a
buffer page by page. `target_flash_program_page` hands `ProgramPage` the page
size whatever is left of the buffer.
-/

namespace OffLineProgrammer.Target
set_option autoImplicit false
open OffLineProgrammer.Lib

/-- The values of `error_t` these routines return. -/
inductive ErrorT where
  | success
  | reset
  | algoDl
  | algoDataSeq
  | init
  | eraseSector
  | eraseAll
  | write
  deriving DecidableEq

section Routines

variable (W : World) (t : ProgramTarget)

/-- `swd_flash_syscall_exec( &flash_algo.sys_call_s, entry, .. )` -/
def flashSyscallExec (entry r0 r1 r2 r3 : Word) (g : Rig) : Bool × Rig :=
  g.call W (.syscallExec t.sysCallS entry r0 r1 r2 r3)

/-- `target_flash_init` -/
def targetFlashInit (flashStart : Word) (g : Rig) : ErrorT × Rig :=
  let r := g.call W (.setTargetStateHw .resetProgram)
  if r.1 = false then (.reset, r.2)
  else
    let r := r.2.call W (.writeMemory t.algoStart t.image)
    if r.1 = false then (.algoDl, r.2)
    else
      let r := flashSyscallExec W t t.init flashStart 0 0 0 r.2
      if r.1 = false then (.init, r.2) else (.success, r.2)

/-- `target_flash_uninit` -/
def targetFlashUninit (g : Rig) : ErrorT × Rig :=
  (.success, ((g.call W (.setTargetStateHw .resetRun)).2.call W .off).2)

/-- `target_flash_erase_sector` -/
def targetFlashEraseSector (addr : Word) (g : Rig) : ErrorT × Rig :=
  let r := flashSyscallExec W t t.eraseSector addr 0 0 0 g
  if r.1 = false then (.eraseSector, r.2) else (.success, r.2)

/-- `target_flash_erase_chip` -/
def targetFlashEraseChip (g : Rig) : ErrorT × Rig :=
  let r := flashSyscallExec W t t.eraseChip 0 0 0 0 g
  if r.1 = false then (.eraseAll, r.2) else (.success, r.2)

/-- The loop variables of `target_flash_program_page`; `buf` is the offset from
the caller's pointer. -/
structure ProgramPage where
  addr : Word
  buf : Nat
  size : Word
  rig : Rig

/-- The bytes of one pass. -/
def writeSize (size : Word) : Word := if size > t.programBufferSize then t.programBufferSize else size

/-- One pass of the loop of `target_flash_program_page`. -/
def programPagePass (data : Mem) (s : ProgramPage) : Option (ProgramPage ⊕ (ErrorT × Rig)) :=
  if s.size > 0 then
    let w := writeSize t s.size
    let r := s.rig.call W (.writeMemory t.programBuffer (data.read s.buf w.toNat))
    if r.1 = false then some (.inr (.algoDataSeq, r.2))
    else
      let r := flashSyscallExec W t t.programPage s.addr t.programBufferSize t.programBuffer 0 r.2
      if r.1 = false then some (.inr (.write, r.2))
      else some (.inl ⟨s.addr + w, s.buf + w.toNat, s.size - w, r.2⟩)
  else some (.inr (.success, s.rig))

/-- `target_flash_program_page` -/
def targetFlashProgramPage (fuel : Nat) (addr : Word) (data : Mem) (size : Word) (g : Rig) : Option (ErrorT × Rig) :=
  Loop.exec (programPagePass W t data) fuel ⟨addr, 0, size, g⟩

end Routines

/-! ## What a pass does -/

section Pass

variable {W : World} {t : ProgramTarget} {data : Mem} {s s' : ProgramPage}

theorem writeSize_toNat (t : ProgramTarget) (size : Word) : (writeSize t size).toNat = min t.pageSize size.toNat := by
  unfold writeSize
  split
  · rename_i large
    rw [gt_iff_lt, BitVec.lt_def] at large
    exact (Nat.min_eq_left (Nat.le_of_lt large)).symm
  · rename_i small
    rw [gt_iff_lt, BitVec.lt_def] at small
    exact (Nat.min_eq_right (Nat.le_of_not_lt small)).symm

/-- The bytes of the pass. -/
def ProgramPage.piece (t : ProgramTarget) (data : Mem) (s : ProgramPage) : List Byte :=
  data.read s.buf (writeSize t s.size).toNat

/-- The target as `ProgramPage` finds it in the pass. -/
def ProgramPage.loaded (t : ProgramTarget) (data : Mem) (s : ProgramPage) : Chip :=
  { s.rig.chip with ram := s.rig.chip.ram.store t.programBuffer (s.piece t data) }

/-- A pass that goes round again has programmed one page. -/
structure ProgramPage.Passed (W : World) (t : ProgramTarget) (data : Mem) (s s' : ProgramPage) : Prop where
  more : 0 < s.size.toNat
  addr : s'.addr = s.addr + writeSize t s.size
  buf : s'.buf = s.buf + (writeSize t s.size).toNat
  size : s'.size = s.size - writeSize t s.size
  chip : s'.rig.chip =
    W.exec t.sysCallS t.programPage s.addr t.programBufferSize t.programBuffer 0 (s.loaded t data)
  calls : s'.rig.calls = s.rig.calls ++ [.writeMemory t.programBuffer (s.piece t data),
    .syscallExec t.sysCallS t.programPage s.addr t.programBufferSize t.programBuffer 0]

theorem programPagePass_again (pass : programPagePass W t data s = some (.inl s')) : s.Passed W t data s' := by
  unfold programPagePass at pass
  split at pass
  case isFalse => cases pass
  case isTrue more =>
    have some_ : 0 < s.size.toNat := by simpa [BitVec.lt_def] using more
    simp only at pass
    split at pass
    · cases pass
    · rename_i downloaded
      split at pass
      · cases pass
      · rename_i ran
        have download := Rig.call_true ((Bool.not_eq_false _).mp downloaded)
        have exec := Rig.call_true ((Bool.not_eq_false _).mp ran)
        cases pass
        refine ⟨some_, rfl, rfl, rfl, ?_, ?_⟩
        · show (flashSyscallExec W t t.programPage s.addr t.programBufferSize t.programBuffer 0 _).2.chip = _
          rw [flashSyscallExec, exec, download]
          rfl
        · show (flashSyscallExec W t t.programPage s.addr t.programBufferSize t.programBuffer 0 _).2.calls = _
          rw [flashSyscallExec, exec, download]
          simp only [List.append_assoc, List.singleton_append]
          rfl

/-- The loop ends when the buffer is used up. -/
theorem programPagePass_leave {g : Rig} (pass : programPagePass W t data s = some (.inr (.success, g))) :
    s.size = 0 ∧ g = s.rig := by
  unfold programPagePass at pass
  split at pass
  case isFalse more =>
    cases pass
    refine ⟨BitVec.eq_of_toNat_eq ?_, rfl⟩
    simpa [BitVec.lt_def] using more
  case isTrue =>
    simp only at pass
    split at pass
    · cases pass
    · split at pass
      · cases pass
      · cases pass

end Pass

/-! ## Download and erase -/

section Prepare

variable {W : World} {t : ProgramTarget} {g : Rig}

/-- The target with the algorithm downloaded. -/
def downloaded (t : ProgramTarget) (c : Chip) : Chip := { c with ram := c.ram.store t.algoStart t.image }

theorem targetFlashInit_success {start : Word} (ok : (targetFlashInit W t start g).1 = .success) :
    (targetFlashInit W t start g).2.chip = W.exec t.sysCallS t.init start 0 0 0 (downloaded t g.chip) := by
  unfold targetFlashInit at ok ⊢
  simp only at ok ⊢
  split at ok
  · cases ok
  · rename_i reset
    split at ok
    · cases ok
    · rename_i download
      split at ok
      · cases ok
      · rename_i ran
        rw [if_neg reset, if_neg download, if_neg ran, flashSyscallExec,
          Rig.call_true ((Bool.not_eq_false _).mp ran), Rig.call_true ((Bool.not_eq_false _).mp download),
          Rig.call_true ((Bool.not_eq_false _).mp reset)]
        rfl

theorem targetFlashEraseChip_success (ok : (targetFlashEraseChip W t g).1 = .success) :
    (targetFlashEraseChip W t g).2.chip = W.exec t.sysCallS t.eraseChip 0 0 0 0 g.chip := by
  unfold targetFlashEraseChip at ok ⊢
  simp only at ok ⊢
  split at ok
  · cases ok
  · rename_i ran
    rw [if_neg ran, flashSyscallExec, Rig.call_true ((Bool.not_eq_false _).mp ran)]
    rfl

end Prepare

end OffLineProgrammer.Target
