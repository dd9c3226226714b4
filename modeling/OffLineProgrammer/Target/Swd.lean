import OffLineProgrammer.Lib.WordMem

/-!
# The probe and the target

The programmer reaches the target through calls over SWD, each of which may
fail. `World` says what is outside the programmer: which calls succeed, what the
flash algorithm does when the target runs it, and what the file system reads.
-/

namespace OffLineProgrammer.Target
set_option autoImplicit false
open OffLineProgrammer.Lib

/-! ## The algorithm, from flashalgo.h -/

/-- `program_syscall_t` -/
structure ProgramSyscall where
  breakpoint : Word
  staticBase : Word
  stackPointer : Word
  deriving DecidableEq

/-- `program_target_t`, with the bytes `algo_blob` points to. -/
structure ProgramTarget where
  init : Word
  uninit : Word
  eraseChip : Word
  eraseSector : Word
  programPage : Word
  sysCallS : ProgramSyscall
  programBuffer : Word
  algoStart : Word
  algoSize : Word
  algoBlob : Mem
  programBufferSize : Word

namespace ProgramTarget

/-- The page size. -/
def pageSize (t : ProgramTarget) : Nat := t.programBufferSize.toNat

/-- The bytes downloaded: `algo_size` bytes of `algo_blob`. -/
def image (t : ProgramTarget) : List Byte := t.algoBlob.read 0 t.algoSize.toNat

@[simp] theorem length_image (t : ProgramTarget) : t.image.length = t.algoSize.toNat := by
  simp [image]

end ProgramTarget

/-! ## Calls -/

/-- RAM and flash of the target. -/
structure Chip where
  ram : WordMem
  flash : WordMem

/-- The states of `swd_set_target_state_hw` that are asked for. -/
inductive TargetState where
  | resetProgram
  | resetRun
  deriving DecidableEq

/-- A call the programmer makes, or would have to make to give back what it took. -/
inductive Call where
  | rtMalloc (size : Nat)
  | rtFree
  | fOpen
  | fRead (size : Nat)
  | fClose
  | initDebug
  | setTargetStateHw (state : TargetState)
  | writeMemory (addr : Word) (data : List Byte)
  | syscallExec (sys : ProgramSyscall) (entry r0 r1 r2 r3 : Word)
  | setTargetReset (asserted : Bool)
  | off
  deriving DecidableEq

/-- What one `f_read` does: the bytes it puts in the buffer, and whether it
reports an error. -/
structure ReadOutcome where
  data : List Byte
  fails : Bool

structure World where
  /-- Whether the call made after so many others succeeds. -/
  succeeds : Nat → Bool
  /-- What the target's code at an entry point does to the target. -/
  exec : ProgramSyscall → (entry r0 r1 r2 r3 : Word) → Chip → Chip
  /-- The reads of the open file, in order. -/
  reads : Nat → ReadOutcome

/-- The target, and the calls made so far. -/
structure Rig where
  chip : Chip
  calls : List Call

/-- What a call that succeeds does to the target. -/
def Call.effect (W : World) : Call → Chip → Chip
  | .writeMemory addr data, c => { c with ram := c.ram.store addr data }
  | .syscallExec sys entry r0 r1 r2 r3, c => W.exec sys entry r0 r1 r2 r3 c
  | _, c => c

/-- Make a call. -/
def Rig.call (W : World) (c : Call) (g : Rig) : Bool × Rig :=
  if W.succeeds g.calls.length then (true, ⟨c.effect W g.chip, g.calls ++ [c]⟩)
  else (false, ⟨g.chip, g.calls ++ [c]⟩)

section Calls

variable {W : World} {c : Call} {g : Rig}

/-- A call that succeeds has its effect. -/
theorem Rig.call_true (made : (g.call W c).1 = true) : (g.call W c).2 = ⟨c.effect W g.chip, g.calls ++ [c]⟩ := by
  unfold Rig.call at made ⊢
  split at made
  · rename_i ok
    rw [if_pos ok]
  · cases made

theorem Rig.call_calls : (g.call W c).2.calls = g.calls ++ [c] := by
  unfold Rig.call
  split <;> rfl

/-- A call without effect. -/
theorem Rig.call_chip (none : ∀ h, c.effect W h = h) : (g.call W c).2.chip = g.chip := by
  unfold Rig.call
  split
  · exact none g.chip
  · rfl

end Calls

/-! ## What the algorithm does -/

/-- EraseChip sets the flash to `0xFF`. -/
def World.Erases (W : World) (t : ProgramTarget) : Prop :=
  ∀ c : Chip, (W.exec t.sysCallS t.eraseChip 0 0 0 0 c).flash = WordMem.erased

/-- `ProgramPage(adr, sz, buf)` programs `sz` bytes of RAM at `buf` into the flash at `adr`. -/
def World.Programs (W : World) (t : ProgramTarget) : Prop :=
  ∀ (adr sz buf : Word) (c : Chip),
    (W.exec t.sysCallS t.programPage adr sz buf 0 c).flash = c.flash.program adr (c.ram.read buf sz.toNat)

/-- The algorithm leaves the page buffer alone. -/
def World.KeepsBuffer (W : World) (t : ProgramTarget) : Prop :=
  ∀ (entry r0 r1 r2 r3 : Word) (c : Chip) (i : Nat), i < t.pageSize →
    (W.exec t.sysCallS entry r0 r1 r2 r3 c).ram (t.programBuffer + BitVec.ofNat 32 i) =
      c.ram (t.programBuffer + BitVec.ofNat 32 i)

end OffLineProgrammer.Target
