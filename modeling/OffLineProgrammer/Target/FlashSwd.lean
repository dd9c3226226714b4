import OffLineProgrammer.Target.TargetFlash

/-!
# Programming a file, from FlashalgoApp.c

`FLASH_SWD` reads the file in blocks of 1024 bytes into one buffer and programs
the whole buffer each time, the last time too.
-/

namespace OffLineProgrammer.Target
set_option autoImplicit false
open OffLineProgrammer.Lib

/-- `DLSize` -/
abbrev dlSize : Nat := 1024

/-- The first address programmed. -/
abbrev flashBase : Word := 0x8000000

section Program

variable (W : World) (t : ProgramTarget)

/-- The loop variables of `FLASH_SWD`, and the number of reads made. -/
structure FlashSwd where
  addr : Word
  binBuff : Mem
  reads : Nat
  rig : Rig

/-- One pass of the loop of `FLASH_SWD`; it leaves with whether the loop ended or
the function returned from inside it. -/
def flashSwdPass (fuel : Nat) (s : FlashSwd) : Option (FlashSwd ⊕ (Bool × Rig)) := do
  let rig := (s.rig.call W (.fRead dlSize)).2
  let data := (W.reads s.reads).data
  let binBuff := s.binBuff.write 0 data
  let r ← targetFlashProgramPage W t fuel (flashBase + s.addr) binBuff (BitVec.ofNat 32 dlSize) rig
  if r.1 ≠ .success then some (.inr (false, r.2))
  else if data.length < dlSize then some (.inr (true, r.2))
  else some (.inl ⟨s.addr + BitVec.ofNat 32 dlSize, binBuff, s.reads + 1, r.2⟩)

/-- `FLASH_SWD`; `heap` is what `rt_malloc` returns. -/
def flashSwd (fuel : Nat) (heap : Mem) (g : Rig) : Option (Byte × Rig) := do
  let g := (g.call W (.rtMalloc dlSize)).2
  let r := g.call W .fOpen
  if r.1 = false then some (0, r.2)
  else
    let r := r.2.call W .initDebug
    if r.1 = false then some (0, r.2)
    else
      let r := targetFlashInit W t flashBase r.2
      if r.1 ≠ .success then some (0, (targetFlashUninit W r.2).2)
      else
        let r := targetFlashEraseChip W t r.2
        if r.1 ≠ .success then some (0, r.2)
        else
          let r ← Loop.exec (flashSwdPass W t fuel) fuel ⟨0, heap, 0, r.2⟩
          if r.1 = false then some (0, r.2)
          else
            let r := r.2.call W .initDebug
            if r.1 = false then some (0, r.2)
            else some (1, (r.2.call W (.setTargetReset false)).2)

/-- `f_read` delivers the file in order without errors. -/
def World.Delivers (file : List Byte) : Prop :=
  ∀ n, W.reads n = ⟨(file.drop (dlSize * n)).take dlSize, false⟩

end Program

/-! ## A world without failures -/

/-- An algorithm of the given page size, with its entry points one after the other. -/
def sampleTarget (pageSize : Word) : ProgramTarget where
  init := 0x20000021
  uninit := 0x20000031
  eraseChip := 0x20000041
  eraseSector := 0x20000051
  programPage := 0x20000061
  sysCallS := ⟨0x20000001, 0x20000C00, 0x20001000⟩
  programBuffer := 0x20000190
  algoStart := 0x20000000
  algoSize := 96
  algoBlob := fun _ => 0
  programBufferSize := pageSize

/-- Every call succeeds, the target runs the algorithm, and the file is read. -/
def idealWorld (t : ProgramTarget) (file : List Byte) : World where
  succeeds := fun _ => true
  exec := fun _ entry r0 r1 r2 _ c =>
    if entry = t.eraseChip then { c with flash := WordMem.erased }
    else if entry = t.programPage then { c with flash := c.flash.program r0 (c.ram.read r2 r1.toNat) }
    else c
  reads := fun n => ⟨(file.drop (dlSize * n)).take dlSize, false⟩

/-- A file of two blocks, of which the second has one byte. -/
def sampleFile : List Byte := 0x12 :: List.replicate 1023 0xFF ++ [0x34]

/-- A target before anything is programmed. -/
def restingRig : Rig := ⟨⟨fun _ => 0, fun _ => 0⟩, []⟩

section Ideal

variable {t : ProgramTarget} {file : List Byte}

theorem idealWorld_delivers : (idealWorld t file).Delivers file := fun _ => rfl

theorem idealWorld_erases : (idealWorld t file).Erases t := by
  intro c
  simp only [idealWorld, if_true]

theorem idealWorld_programs (differ : t.programPage ≠ t.eraseChip) : (idealWorld t file).Programs t := by
  intro adr sz buf c
  simp only [idealWorld, if_neg differ, if_true]

theorem idealWorld_keepsBuffer : (idealWorld t file).KeepsBuffer t := by
  intro entry r0 r1 r2 r3 c i _
  simp only [idealWorld]
  split
  · rfl
  · split <;> rfl

end Ideal

/-! ## What a pass does -/

section Pass

variable {W : World} {t : ProgramTarget} {fuel : Nat} {s s' : FlashSwd}

/-- The buffer after the read of the pass. -/
def FlashSwd.block (W : World) (s : FlashSwd) : Mem := s.binBuff.write 0 (W.reads s.reads).data

/-- The whole buffer is programmed in every pass. -/
def FlashSwd.Programmed (W : World) (t : ProgramTarget) (fuel : Nat) (s : FlashSwd) (g : Rig) : Prop :=
  ∃ rig, rig.chip = s.rig.chip ∧
    targetFlashProgramPage W t fuel (flashBase + s.addr) (s.block W) (BitVec.ofNat 32 dlSize) rig = some (.success, g)

theorem flashSwdPass_again (pass : flashSwdPass W t fuel s = some (.inl s')) :
    dlSize ≤ (W.reads s.reads).data.length ∧ s.Programmed W t fuel s'.rig ∧
      s'.addr = s.addr + BitVec.ofNat 32 dlSize ∧ s'.binBuff = s.block W ∧ s'.reads = s.reads + 1 := by
  obtain ⟨⟨e, g⟩, run, rest⟩ := Option.bind_eq_some_iff.mp pass
  simp only at rest
  split at rest
  · cases rest
  · rename_i ok
    split at rest
    · cases rest
    · rename_i full
      have success : e = .success := Decidable.of_not_not ok
      subst success
      obtain rfl := Sum.inl.inj (Option.some.inj rest)
      exact ⟨Nat.le_of_not_lt full, ⟨_, Rig.call_chip fun _ => rfl, run⟩, rfl, rfl, rfl⟩

theorem flashSwdPass_leave {g : Rig} (pass : flashSwdPass W t fuel s = some (.inr (true, g))) :
    (W.reads s.reads).data.length < dlSize ∧ s.Programmed W t fuel g := by
  obtain ⟨⟨e, h⟩, run, rest⟩ := Option.bind_eq_some_iff.mp pass
  simp only at rest
  split at rest
  · cases rest
  · rename_i ok
    split at rest
    · rename_i short
      have success : e = .success := Decidable.of_not_not ok
      subst success
      cases rest
      exact ⟨short, ⟨_, Rig.call_chip fun _ => rfl, run⟩⟩
    · cases rest

end Pass

/-! ## A run that returns 1 -/

section Run

variable {W : World} {t : ProgramTarget} {fuel : Nat} {heap : Mem} {g g' : Rig}

/-- The target as the loop finds it. -/
def prepared (W : World) (t : ProgramTarget) (c : Chip) : Chip :=
  W.exec t.sysCallS t.eraseChip 0 0 0 0 (W.exec t.sysCallS t.init flashBase 0 0 0 (downloaded t c))

/-- `FLASH_SWD` returns 1 only when its loop has ended. -/
theorem flashSwd_one (returned : flashSwd W t fuel heap g = some (1, g')) :
    ∃ rig ended, rig.chip = prepared W t g.chip ∧ ended.chip = g'.chip ∧ (∀ c ∈ ended.calls, c ∈ g'.calls) ∧
      Loop.exec (flashSwdPass W t fuel) fuel ⟨0, heap, 0, rig⟩ = some (true, ended) := by
  unfold flashSwd at returned
  simp only at returned
  split at returned
  · cases returned
  · split at returned
    · cases returned
    · split at returned
      · cases returned
      · rename_i ready
        split at returned
        · cases returned
        · rename_i blank
          have erase := targetFlashEraseChip_success (Decidable.of_not_not blank)
          have init := targetFlashInit_success (Decidable.of_not_not ready)
          rw [init, Rig.call_chip fun _ => rfl, Rig.call_chip fun _ => rfl, Rig.call_chip fun _ => rfl] at erase
          obtain ⟨⟨done, ended⟩, loop, last⟩ := Option.bind_eq_some_iff.mp returned
          cases done with
          | false => cases last
          | true =>
            simp only [Bool.true_eq_false, if_false] at last
            split at last
            · cases last
            · cases last
              refine ⟨_, ended, erase, ?_, ?_, loop⟩
              · rw [Rig.call_chip fun _ => rfl, Rig.call_chip fun _ => rfl]
              · intro c made
                rw [Rig.call_calls, Rig.call_calls]
                exact List.mem_append_left _ (List.mem_append_left _ made)

end Run

end OffLineProgrammer.Target
