import OffLineProgrammer.Target.FlashSwd

/-!
# The calls of `FLASH_SWD`

Which calls each routine adds to those made so far, however it ends, and the seven
ways out of `FLASH_SWD` with the calls that lead to each.
-/

namespace OffLineProgrammer.Target
set_option autoImplicit false
open OffLineProgrammer.Lib

/-! ## Calls that are added -/

/-- The calls made between `g` and a later `h`. -/
def Rig.made (g h : Rig) : List Call := h.calls.drop g.calls.length

/-- `h` comes from `g` by some more calls, all of which have `P`. -/
def Rig.Adds (P : Call → Prop) (g h : Rig) : Prop := h.calls = g.calls ++ g.made h ∧ ∀ c ∈ g.made h, P c

section Adds

variable {P Q : Call → Prop} {g h k : Rig}

theorem Rig.adds_of {calls : List Call} (more : h.calls = g.calls ++ calls) (all : ∀ c ∈ calls, P c) : g.Adds P h := by
  have same : g.made h = calls := by rw [Rig.made, more, List.drop_left]
  rw [Rig.Adds, same]
  exact ⟨more, all⟩

theorem Rig.made_call {W : World} {c : Call} : g.made (g.call W c).2 = [c] := by
  rw [Rig.made, Rig.call_calls, List.drop_left]

theorem Rig.Adds.refl (g : Rig) : g.Adds P g := Rig.adds_of (List.append_nil _).symm fun _ none => nomatch none

theorem Rig.Adds.made_append (first : g.Adds P h) (second : h.Adds Q k) : g.made k = g.made h ++ h.made k := by
  have calls : k.calls = g.calls ++ (g.made h ++ h.made k) := by rw [second.1, first.1, List.append_assoc]
  rw [Rig.made, calls, List.drop_left]

theorem Rig.Adds.trans (first : g.Adds P h) (second : h.Adds P k) : g.Adds P k := by
  have calls : k.calls = g.calls ++ (g.made h ++ h.made k) := by rw [second.1, first.1, List.append_assoc]
  apply Rig.adds_of calls
  intro c mem
  rcases List.mem_append.mp mem with early | late
  · exact first.2 c early
  · exact second.2 c late

theorem Rig.Adds.mono (adds : g.Adds P h) (weaken : ∀ c, P c → Q c) : g.Adds Q h :=
  ⟨adds.1, fun c mem => weaken c (adds.2 c mem)⟩

theorem Rig.adds_call {W : World} {c : Call} (here : P c) : g.Adds P (g.call W c).2 :=
  Rig.adds_of Rig.call_calls fun _ mem => List.mem_singleton.mp mem ▸ here

end Adds

/-! ## The routines -/

/-- The calls of `target_flash_init`, of the erase and of the pages. -/
def Call.Programming : Call → Prop
  | .setTargetStateHw .resetProgram | .writeMemory .. | .syscallExec .. => True
  | _ => False

section Routines

variable {W : World} {t : ProgramTarget} {data : Mem} {fuel : Nat} {g : Rig}

theorem targetFlashInit_adds (start : Word) : g.Adds Call.Programming (targetFlashInit W t start g).2 := by
  have reset : g.Adds Call.Programming (g.call W (.setTargetStateHw .resetProgram)).2 := Rig.adds_call trivial
  have load : ∀ h : Rig, h.Adds Call.Programming (h.call W (.writeMemory t.algoStart t.image)).2 :=
    fun h => Rig.adds_call trivial
  have init : ∀ h : Rig, h.Adds Call.Programming (flashSyscallExec W t t.init start 0 0 0 h).2 :=
    fun h => Rig.adds_call trivial
  unfold targetFlashInit
  simp only
  split
  · exact reset
  · split
    · exact reset.trans (load _)
    · split
      · exact (reset.trans (load _)).trans (init _)
      · exact (reset.trans (load _)).trans (init _)

theorem targetFlashEraseChip_adds : g.Adds Call.Programming (targetFlashEraseChip W t g).2 := by
  have erase : g.Adds Call.Programming (flashSyscallExec W t t.eraseChip 0 0 0 0 g).2 := Rig.adds_call trivial
  unfold targetFlashEraseChip
  simp only
  split
  · exact erase
  · exact erase

/-- The rig after a pass, whether it goes round again or leaves. -/
def ProgramPage.after : ProgramPage ⊕ (ErrorT × Rig) → Rig
  | .inl s => s.rig
  | .inr r => r.2

theorem programPagePass_adds {s : ProgramPage} {next : ProgramPage ⊕ (ErrorT × Rig)}
    (pass : programPagePass W t data s = some next) : s.rig.Adds Call.Programming (ProgramPage.after next) := by
  have load : ∀ (h : Rig) (bytes : List Byte), h.Adds Call.Programming (h.call W (.writeMemory t.programBuffer bytes)).2 :=
    fun h bytes => Rig.adds_call trivial
  have run : ∀ h : Rig, h.Adds Call.Programming
      (flashSyscallExec W t t.programPage s.addr t.programBufferSize t.programBuffer 0 h).2 :=
    fun h => Rig.adds_call trivial
  unfold programPagePass at pass
  split at pass
  · simp only at pass
    split at pass
    · obtain rfl := Option.some.inj pass
      exact load _ _
    · split at pass
      · obtain rfl := Option.some.inj pass
        exact (load _ _).trans (run _)
      · obtain rfl := Option.some.inj pass
        exact (load _ _).trans (run _)
  · obtain rfl := Option.some.inj pass
    exact Rig.Adds.refl _

theorem targetFlashProgramPage_adds {addr size : Word} {r : ErrorT × Rig}
    (run : targetFlashProgramPage W t fuel addr data size g = some r) : g.Adds Call.Programming r.2 :=
  Loop.exec_post (fun s : ProgramPage => g.Adds Call.Programming s.rig)
    (fun r : ErrorT × Rig => g.Adds Call.Programming r.2)
    (fun _ _ adds pass => adds.trans (programPagePass_adds pass))
    (fun _ _ adds pass => adds.trans (programPagePass_adds pass)) (Rig.Adds.refl g) run

/-- The rig after a pass of `FLASH_SWD`. -/
def FlashSwd.after : FlashSwd ⊕ (Bool × Rig) → Rig
  | .inl s => s.rig
  | .inr r => r.2

/-- A pass of `FLASH_SWD` makes one read, and then programs. -/
theorem flashSwdPass_adds {s : FlashSwd} {next : FlashSwd ⊕ (Bool × Rig)} (pass : flashSwdPass W t fuel s = some next) :
    (s.rig.call W (.fRead dlSize)).2.Adds Call.Programming (FlashSwd.after next) := by
  obtain ⟨r, run, rest⟩ := Option.bind_eq_some_iff.mp pass
  have adds := targetFlashProgramPage_adds run
  split at rest
  · obtain rfl := Option.some.inj rest
    exact adds
  · split at rest
    · obtain rfl := Option.some.inj rest
      exact adds
    · obtain rfl := Option.some.inj rest
      exact adds

end Routines

/-! ## The exits -/

section Exits

variable (W : World) (t : ProgramTarget) (g : Rig)

/-- `f_open`, after the allocation of the buffer. -/
def opening : Bool × Rig := (g.call W (.rtMalloc dlSize)).2.call W .fOpen

/-- The first `swd_init_debug`. -/
def connecting : Bool × Rig := (opening W g).2.call W .initDebug

/-- `target_flash_init`. -/
def initialising : ErrorT × Rig := targetFlashInit W t flashBase (connecting W g).2

/-- `target_flash_erase_chip`. -/
def erasing : ErrorT × Rig := targetFlashEraseChip W t (initialising W t g).2

/-- `target_flash_init` is reached, and succeeds. -/
def TargetTaken : Prop :=
  (opening W g).1 = true ∧ (connecting W g).1 = true ∧ (initialising W t g).1 = .success

/-- The loop of `FLASH_SWD`. -/
def programming (fuel : Nat) (heap : Mem) : Option (Bool × Rig) :=
  Loop.exec (flashSwdPass W t fuel) fuel ⟨0, heap, 0, (erasing W t g).2⟩

/-- **The exits of `FLASH_SWD`**: what is returned, and the rig. -/
inductive FlashSwdExit (fuel : Nat) (heap : Mem) : Byte → Rig → Prop where
  | notOpened (failed : (opening W g).1 = false) : FlashSwdExit fuel heap 0 (opening W g).2
  | notConnected (opened : (opening W g).1 = true) (failed : (connecting W g).1 = false) :
      FlashSwdExit fuel heap 0 (connecting W g).2
  | notInitialised (opened : (opening W g).1 = true) (failed : (initialising W t g).1 ≠ .success) :
      FlashSwdExit fuel heap 0 (targetFlashUninit W (initialising W t g).2).2
  | notErased (taken : TargetTaken W t g) : FlashSwdExit fuel heap 0 (erasing W t g).2
  | notProgrammed (taken : TargetTaken W t g) (ended : Rig)
      (loop : programming W t g fuel heap = some (false, ended)) : FlashSwdExit fuel heap 0 ended
  | notReset (taken : TargetTaken W t g) (ended : Rig) (loop : programming W t g fuel heap = some (true, ended)) :
      FlashSwdExit fuel heap 0 (ended.call W .initDebug).2
  | done (taken : TargetTaken W t g) (ended : Rig) (loop : programming W t g fuel heap = some (true, ended)) :
      FlashSwdExit fuel heap 1 ((ended.call W .initDebug).2.call W (.setTargetReset false)).2

variable {W t g}

theorem flashSwd_exit {fuel : Nat} {heap : Mem} {r : Byte} {g' : Rig}
    (returned : flashSwd W t fuel heap g = some (r, g')) : FlashSwdExit W t g fuel heap r g' := by
  unfold flashSwd at returned
  simp only at returned
  split at returned
  · rename_i failed
    obtain ⟨rfl, rfl⟩ := Prod.mk.inj (Option.some.inj returned)
    exact .notOpened failed
  · rename_i opened
    have opened := (Bool.not_eq_false _).mp opened
    split at returned
    · rename_i failed
      obtain ⟨rfl, rfl⟩ := Prod.mk.inj (Option.some.inj returned)
      exact .notConnected opened failed
    · rename_i connected
      split at returned
      · rename_i failed
        obtain ⟨rfl, rfl⟩ := Prod.mk.inj (Option.some.inj returned)
        exact .notInitialised opened failed
      · rename_i ready
        have taken : TargetTaken W t g := ⟨opened, (Bool.not_eq_false _).mp connected, Decidable.of_not_not ready⟩
        split at returned
        · obtain ⟨rfl, rfl⟩ := Prod.mk.inj (Option.some.inj returned)
          exact .notErased taken
        · obtain ⟨⟨done, ended⟩, loop, last⟩ := Option.bind_eq_some_iff.mp returned
          cases done with
          | false =>
            obtain ⟨rfl, rfl⟩ := Prod.mk.inj (Option.some.inj last)
            exact .notProgrammed taken ended loop
          | true =>
            simp only [Bool.true_eq_false, if_false] at last
            split at last
            · obtain ⟨rfl, rfl⟩ := Prod.mk.inj (Option.some.inj last)
              exact .notReset taken ended loop
            · obtain ⟨rfl, rfl⟩ := Prod.mk.inj (Option.some.inj last)
              exact .done taken ended loop

/-- The last exit is the only one that returns 1. -/
theorem FlashSwdExit.one {fuel : Nat} {heap : Mem} {r : Byte} {g' : Rig} (exit : FlashSwdExit W t g fuel heap r g')
    (one : r = 1) : TargetTaken W t g ∧ ∃ ended, programming W t g fuel heap = some (true, ended) ∧
      g' = ((ended.call W .initDebug).2.call W (.setTargetReset false)).2 := by
  have other : ¬ (0 : Byte) = 1 := by decide
  cases exit with
  | done taken ended loop => exact ⟨taken, ended, loop, rfl⟩
  | _ => exact absurd one other

end Exits

end OffLineProgrammer.Target
