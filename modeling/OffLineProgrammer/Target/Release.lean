import OffLineProgrammer.Target.Calls

/-!
# What `FLASH_SWD` gives back

It opens a file, allocates a buffer and halts the target, and returns from seven places.
None of them closes the file or frees the buffer, and of those behind `target_flash_init`
only the last one lets the target go.
-/

namespace OffLineProgrammer.Target
set_option autoImplicit false
open OffLineProgrammer.Lib

/-- Calls after which the target runs: `target_flash_uninit` makes one, and
`swd_set_target_reset( 0 )` is one. -/
def Call.letsGo : Call → Bool
  | .setTargetStateHw .resetRun => true
  | .setTargetReset false => true
  | _ => false

/-- Between `g` and `g'` everything taken has been given back. -/
structure Released (W : World) (t : ProgramTarget) (g g' : Rig) : Prop where
  file : (opening W g).1 = true → .fClose ∈ g.made g'
  buffer : (g.call W (.rtMalloc dlSize)).1 = true → .rtFree ∈ g.made g'
  target : TargetTaken W t g → (g.made g').countP Call.letsGo = 1

/-- Calls that close no file and free no buffer. -/
def Call.Keeps (c : Call) : Prop := c ≠ .fClose ∧ c ≠ .rtFree

/-- Calls that do not let the target go, either. -/
def Call.Holds (c : Call) : Prop := c.Keeps ∧ c.letsGo = false

theorem Call.Programming.holds {c : Call} (programming : c.Programming) : c.Holds := by
  cases c with
  | setTargetStateHw state =>
    cases state with
    | resetProgram => exact ⟨⟨Call.noConfusion, Call.noConfusion⟩, rfl⟩
    | resetRun => cases programming
  | writeMemory addr data => exact ⟨⟨Call.noConfusion, Call.noConfusion⟩, rfl⟩
  | syscallExec sys entry r0 r1 r2 r3 => exact ⟨⟨Call.noConfusion, Call.noConfusion⟩, rfl⟩
  | _ => cases programming

section Exits

variable {W : World} {t : ProgramTarget} {g g' : Rig} {fuel : Nat} {heap : Mem} {r : Byte}

theorem opening_holds : g.Adds Call.Holds (opening W g).2 := by
  have malloc : g.Adds Call.Holds (g.call W (.rtMalloc dlSize)).2 :=
    Rig.adds_call ⟨⟨Call.noConfusion, Call.noConfusion⟩, rfl⟩
  exact malloc.trans (Rig.adds_call ⟨⟨Call.noConfusion, Call.noConfusion⟩, rfl⟩)

theorem initDebug_holds (W : World) (h : Rig) : h.Adds Call.Holds (h.call W .initDebug).2 :=
  Rig.adds_call ⟨⟨Call.noConfusion, Call.noConfusion⟩, rfl⟩

theorem connecting_holds : g.Adds Call.Holds (connecting W g).2 := opening_holds.trans (initDebug_holds W _)

theorem initialising_holds : g.Adds Call.Holds (initialising W t g).2 :=
  connecting_holds.trans ((targetFlashInit_adds _).mono fun _ => Call.Programming.holds)

theorem erasing_holds : g.Adds Call.Holds (erasing W t g).2 :=
  initialising_holds.trans (targetFlashEraseChip_adds.mono fun _ => Call.Programming.holds)

theorem flashSwdPass_holds {s : FlashSwd} {next : FlashSwd ⊕ (Bool × Rig)} (adds : g.Adds Call.Holds s.rig)
    (pass : flashSwdPass W t fuel s = some next) : g.Adds Call.Holds (FlashSwd.after next) := by
  have read : s.rig.Adds Call.Holds (s.rig.call W (.fRead dlSize)).2 :=
    Rig.adds_call ⟨⟨Call.noConfusion, Call.noConfusion⟩, rfl⟩
  exact (adds.trans read).trans ((flashSwdPass_adds pass).mono fun _ => Call.Programming.holds)

theorem programming_holds {e : Bool × Rig} (loop : programming W t g fuel heap = some e) :
    g.Adds Call.Holds e.2 :=
  Loop.exec_post (fun s : FlashSwd => g.Adds Call.Holds s.rig) (fun e : Bool × Rig => g.Adds Call.Holds e.2)
    (fun _ _ adds pass => flashSwdPass_holds adds pass) (fun _ _ adds pass => flashSwdPass_holds adds pass)
    erasing_holds loop

/-- **No exit closes the file or frees the buffer.** -/
theorem FlashSwdExit.keeps (exit : FlashSwdExit W t g fuel heap r g') : g.Adds Call.Keeps g' := by
  have weaken : ∀ c : Call, c.Holds → c.Keeps := fun _ => And.left
  cases exit with
  | notOpened _ => exact opening_holds.mono weaken
  | notConnected _ _ => exact connecting_holds.mono weaken
  | notInitialised _ _ =>
    apply ((@initialising_holds W t g).mono weaken).trans
    have resetRun : ∀ h : Rig, h.Adds Call.Keeps (h.call W (.setTargetStateHw .resetRun)).2 :=
      fun h => Rig.adds_call ⟨Call.noConfusion, Call.noConfusion⟩
    exact (resetRun _).trans (Rig.adds_call ⟨Call.noConfusion, Call.noConfusion⟩)
  | notErased _ => exact erasing_holds.mono weaken
  | notProgrammed _ _ loop => exact (programming_holds loop).mono weaken
  | notReset _ ended loop =>
    exact ((programming_holds loop).trans (initDebug_holds W ended)).mono weaken
  | done _ ended loop =>
    have before := (programming_holds loop).trans (initDebug_holds W ended)
    exact (before.mono weaken).trans (Rig.adds_call ⟨Call.noConfusion, Call.noConfusion⟩)

theorem countP_letsGo (adds : g.Adds Call.Holds g') : (g.made g').countP Call.letsGo = 0 := by
  rw [List.countP_eq_zero]
  intro c mem
  rw [(adds.2 c mem).2]
  exact Bool.false_ne_true

/-- **The target is let go** once where 1 is returned, and not at all where the erase, a
page or the last `swd_init_debug` has failed. -/
theorem FlashSwdExit.letsGo (exit : FlashSwdExit W t g fuel heap r g') (taken : TargetTaken W t g) :
    (g.made g').countP Call.letsGo = if r = 1 then 1 else 0 := by
  cases exit with
  | notOpened failed => exact absurd (taken.1.symm.trans failed) (by decide)
  | notConnected _ failed => exact absurd (taken.2.1.symm.trans failed) (by decide)
  | notInitialised _ failed => exact absurd taken.2.2 failed
  | notErased _ => exact countP_letsGo erasing_holds
  | notProgrammed _ _ loop => exact countP_letsGo (programming_holds loop)
  | notReset _ ended loop =>
    exact countP_letsGo ((programming_holds loop).trans (initDebug_holds W ended))
  | done _ ended loop =>
    have before := (programming_holds loop).trans (initDebug_holds W ended)
    have last : (ended.call W .initDebug).2.Adds (fun c => c.letsGo = true)
        ((ended.call W .initDebug).2.call W (.setTargetReset false)).2 := Rig.adds_call rfl
    rw [before.made_append last, List.countP_append, countP_letsGo before, Rig.made_call]
    rfl

end Exits

/-- **What is given back**: everything only where nothing was taken, since no exit closes
the file or frees the buffer; the target is let go exactly where 1 is returned. -/
theorem flashSwd_released_iff (W : World) (t : ProgramTarget) (fuel : Nat) (heap : Mem) (g : Rig) (r : Byte) (g' : Rig)
    (returned : flashSwd W t fuel heap g = some (r, g')) :
    (Released W t g g' ↔ (g.call W (.rtMalloc dlSize)).1 = false ∧ (opening W g).1 = false) ∧
    (TargetTaken W t g → ((g.made g').countP Call.letsGo = 1 ↔ r = 1)) := by
  have exit := flashSwd_exit returned
  obtain ⟨-, kept⟩ := exit.keeps
  refine ⟨⟨fun released => ⟨?_, ?_⟩, fun nothing => ⟨?_, ?_, ?_⟩⟩, fun taken => ?_⟩
  · apply Bool.eq_false_iff.mpr
    exact fun allocated => (kept _ (released.buffer allocated)).2 rfl
  · apply Bool.eq_false_iff.mpr
    exact fun opened => (kept _ (released.file opened)).1 rfl
  · exact fun opened => absurd (opened.symm.trans nothing.2) (by decide)
  · exact fun allocated => absurd (allocated.symm.trans nothing.1) (by decide)
  · exact fun taken => absurd (taken.1.symm.trans nothing.2) (by decide)
  · rw [exit.letsGo taken]
    split
    · rename_i one
      exact iff_of_true rfl one
    · rename_i other
      exact iff_of_false (by decide) other

/-- A file that is programmed is left open, and the buffer allocated. -/
theorem flashSwd_released_one : ∃ g', flashSwd (idealWorld (sampleTarget 512) [0x12]) (sampleTarget 512) 4 (fun _ => 0)
    restingRig = some (1, g') ∧ ¬ Released (idealWorld (sampleTarget 512) [0x12]) (sampleTarget 512) restingRig g' := by
  refine ⟨_, rfl, fun released => ?_⟩
  have nothing := (flashSwd_released_iff (idealWorld (sampleTarget 512) [0x12]) (sampleTarget 512) 4 (fun _ => 0)
    restingRig 1 _ rfl).1.mp released
  exact absurd nothing.2 (by decide)

/-- The seventh call, `target_flash_erase_chip`, fails. -/
def unerasedWorld : World := { idealWorld (sampleTarget 512) [0x12] with succeeds := fun n => n ≠ 6 }

/-- Where the erase fails the target is left halted. -/
theorem flashSwd_released_not : ¬ ∀ (W : World) (t : ProgramTarget) (fuel : Nat) (heap : Mem) (g : Rig) (r : Byte)
    (g' : Rig), (g.call W (.rtMalloc dlSize)).1 = true → flashSwd W t fuel heap g = some (r, g') →
    Released W t g g' := by
  intro always
  obtain ⟨g', returned⟩ : ∃ g', flashSwd unerasedWorld (sampleTarget 512) 4 (fun _ => 0) restingRig = some (0, g') :=
    ⟨_, rfl⟩
  have released := always unerasedWorld (sampleTarget 512) 4 (fun _ => 0) restingRig 0 g' (by decide) returned
  have taken : TargetTaken unerasedWorld (sampleTarget 512) restingRig := ⟨by decide, by decide, by decide⟩
  have once := released.target taken
  rw [(flashSwd_exit returned).letsGo taken] at once
  exact absurd once (by decide)

end OffLineProgrammer.Target
