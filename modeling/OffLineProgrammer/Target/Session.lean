import OffLineProgrammer.Lib.Region
import OffLineProgrammer.Lib.Run
import OffLineProgrammer.Target.TargetFlash

/-!
# Programming sessions

A session downloads the algorithm, erases the chip and programs any number of
buffers, one pass of the page loop after the other. The algorithm stays as it was
downloaded through every session exactly when its place in the target's RAM is
apart from the page buffer and from the area for static data and the stack
(`intact_iff`).
-/

namespace OffLineProgrammer.Target
set_option autoImplicit false
open OffLineProgrammer.Lib

/-! ## The areas of the target's RAM -/

namespace ProgramTarget

variable (t : ProgramTarget)

def imageArea : Region := ⟨t.algoStart, t.algoSize.toNat⟩

def bufferArea : Region := ⟨t.programBuffer, t.pageSize⟩

/-- From `static_base` to `stack_pointer`. -/
def staticArea : Region := ⟨t.sysCallS.staticBase, (t.sysCallS.stackPointer - t.sysCallS.staticBase).toNat⟩

def AreasApart : Prop :=
  t.imageArea.Apart t.bufferArea ∧ t.imageArea.Apart t.staticArea ∧ t.bufferArea.Apart t.staticArea

/-- The target's RAM holds the algorithm. -/
def Holds (c : Chip) : Prop := c.ram.read t.algoStart t.algoSize.toNat = t.image

end ProgramTarget

/-! ## Sessions -/

/-- Every call succeeds. -/
def World.Succeeds (W : World) : Prop := ∀ n, W.succeeds n = true

/-- The algorithm changes RAM only where its static data and its stack are. -/
def World.Confined (W : World) (t : ProgramTarget) : Prop :=
  ∀ (entry r0 r1 r2 r3 : Word) (c : Chip), t.staticArea.Within c.ram (W.exec t.sysCallS entry r0 r1 r2 r3 c).ram

/-- How far a session has got. -/
inductive Session where
  | reset (rig : Rig)
  | initialised (rig : Rig)
  | ready (rig : Rig)
  | programming (data : Mem) (s : ProgramPage)

def Session.rig : Session → Rig
  | .reset g => g
  | .initialised g => g
  | .ready g => g
  | .programming _ s => s.rig

inductive SessionEvent where
  | init (flashStart : Word)
  | eraseChip
  /-- A call of `target_flash_program_page`. -/
  | programPage (addr : Word) (data : Mem) (size : Word)
  /-- One pass of its loop. -/
  | pass

section Machine

variable (W : World) (t : ProgramTarget)

def sessionStep : SessionEvent → Session → Option Session
  | .init flashStart, .reset g =>
    let r := targetFlashInit W t flashStart g
    if r.1 = .success then some (.initialised r.2) else none
  | .eraseChip, .initialised g =>
    let r := targetFlashEraseChip W t g
    if r.1 = .success then some (.ready r.2) else none
  | .programPage addr data size, .ready g => some (.programming data ⟨addr, 0, size, g⟩)
  | .pass, .programming data s =>
    match programPagePass W t data s with
    | some (.inl s') => some (.programming data s')
    | some (.inr (.success, g)) => some (.ready g)
    | _ => none
  | _, _ => none

end Machine

/-! ## The calls of a session -/

/-- `swd_flash_syscall_exec` -/
def Call.IsExec : Call → Prop
  | .syscallExec .. => True
  | _ => False

/-- What calls that succeed make of the target. -/
def replay (W : World) (calls : List Call) (c : Chip) : Chip := calls.foldl (fun c call => call.effect W c) c

/-- Each `swd_flash_syscall_exec` of the calls finds the algorithm in place. -/
def ExecsHold (W : World) (t : ProgramTarget) : List Call → Chip → Prop
  | [], _ => True
  | call :: calls, c => (call.IsExec → t.Holds c) ∧ ExecsHold W t calls (call.effect W c)

/-- **The algorithm is intact** at every `swd_flash_syscall_exec` of every session. -/
def ProgramTarget.Intact (t : ProgramTarget) : Prop :=
  ∀ W : World, W.Succeeds → W.Confined t → ∀ (c : Chip) (es : List SessionEvent) (s : Session),
    Run.run (sessionStep W t) es (.reset ⟨c, []⟩) = some s → ExecsHold W t s.rig.calls c

/-- The target and the calls after some more calls that succeed. -/
def Rig.make (W : World) (calls : List Call) (g : Rig) : Rig := ⟨replay W calls g.chip, g.calls ++ calls⟩

/-- The calls of an event. -/
def SessionEvent.calls (t : ProgramTarget) : SessionEvent → Session → List Call
  | .init flashStart, _ => [.setTargetStateHw .resetProgram, .writeMemory t.algoStart t.image,
      .syscallExec t.sysCallS t.init flashStart 0 0 0]
  | .eraseChip, _ => [.syscallExec t.sysCallS t.eraseChip 0 0 0 0]
  | .programPage .., _ => []
  | .pass, .programming data s =>
    if s.size > 0 then [.writeMemory t.programBuffer (s.piece t data),
      .syscallExec t.sysCallS t.programPage s.addr t.programBufferSize t.programBuffer 0]
    else []
  | .pass, _ => []

section Calls

variable {W : World} {t : ProgramTarget} {g : Rig} {c : Chip}

theorem replay_append (xs ys : List Call) : replay W (xs ++ ys) c = replay W ys (replay W xs c) := List.foldl_append

theorem execsHold_append {xs ys : List Call} :
    ExecsHold W t (xs ++ ys) c ↔ ExecsHold W t xs c ∧ ExecsHold W t ys (replay W xs c) := by
  induction xs generalizing c with
  | nil => exact (and_iff_right trivial).symm
  | cons call xs ih =>
    rw [List.cons_append, ExecsHold, ExecsHold, ih, and_assoc]
    rfl

theorem Rig.make_nil : g.make W [] = g := by
  rw [Rig.make, List.append_nil]
  rfl

theorem Rig.make_make (xs ys : List Call) : (g.make W xs).make W ys = g.make W (xs ++ ys) := by
  simp only [Rig.make, replay_append, List.append_assoc]

theorem Rig.call_made (all : W.Succeeds) (call : Call) : g.call W call = (true, g.make W [call]) := by
  rw [Rig.call, if_pos (all _)]
  rfl

theorem targetFlashInit_made (all : W.Succeeds) (flashStart : Word) : targetFlashInit W t flashStart g =
    (.success, g.make W [.setTargetStateHw .resetProgram, .writeMemory t.algoStart t.image,
      .syscallExec t.sysCallS t.init flashStart 0 0 0]) := by
  simp only [targetFlashInit, flashSyscallExec, Rig.call_made all, Rig.make_make, Bool.true_eq_false, if_false,
    List.cons_append, List.nil_append]

theorem targetFlashEraseChip_made (all : W.Succeeds) :
    targetFlashEraseChip W t g = (.success, g.make W [.syscallExec t.sysCallS t.eraseChip 0 0 0 0]) := by
  simp only [targetFlashEraseChip, flashSyscallExec, Rig.call_made all, Bool.true_eq_false, if_false]

theorem programPagePass_made (all : W.Succeeds) {data : Mem} {s : ProgramPage} (more : s.size > 0) :
    programPagePass W t data s = some (.inl ⟨s.addr + writeSize t s.size, s.buf + (writeSize t s.size).toNat,
      s.size - writeSize t s.size, s.rig.make W [.writeMemory t.programBuffer (s.piece t data),
        .syscallExec t.sysCallS t.programPage s.addr t.programBufferSize t.programBuffer 0]⟩) := by
  simp only [programPagePass, if_pos more, flashSyscallExec, Rig.call_made all, Rig.make_make, Bool.true_eq_false,
    if_false, List.cons_append, List.nil_append]
  rfl

/-- **What a step does**, when every call succeeds: the calls of its event, which
begins a session if and only if it downloads the algorithm. -/
theorem sessionStep_cases (all : W.Succeeds) {e : SessionEvent} {s s' : Session} (go : sessionStep W t e s = some s') :
    s'.rig = s.rig.make W (e.calls t s) ∧ ((∃ flashStart g, e = .init flashStart ∧ s = .reset g) ∨
      ((∀ flashStart, e ≠ .init flashStart) ∧ ∀ g, s ≠ .reset g)) := by
  unfold sessionStep at go
  split at go
  · rename_i flashStart g
    simp only [targetFlashInit_made all, if_true] at go
    obtain rfl := Option.some.inj go
    exact ⟨rfl, Or.inl ⟨flashStart, g, rfl, rfl⟩⟩
  · simp only [targetFlashEraseChip_made all, if_true] at go
    obtain rfl := Option.some.inj go
    exact ⟨rfl, Or.inr ⟨fun _ => SessionEvent.noConfusion, fun _ => Session.noConfusion⟩⟩
  · obtain rfl := Option.some.inj go
    exact ⟨Rig.make_nil.symm, Or.inr ⟨fun _ => SessionEvent.noConfusion, fun _ => Session.noConfusion⟩⟩
  · rename_i data s
    refine ⟨?_, Or.inr ⟨fun _ => SessionEvent.noConfusion, fun _ => Session.noConfusion⟩⟩
    rw [SessionEvent.calls]
    by_cases more : s.size > 0
    · simp only [programPagePass_made all more] at go
      obtain rfl := Option.some.inj go
      rw [if_pos more]
      rfl
    · simp only [programPagePass, if_neg more] at go
      obtain rfl := Option.some.inj go
      rw [if_neg more]
      exact Rig.make_nil.symm
  · cases go

end Calls

/-! ## The algorithm stays in place -/

section Intact

variable {W : World} {t : ProgramTarget} {c : Chip}

theorem holds_downloaded : t.Holds (downloaded t c) := by
  have length : t.image.length = t.algoSize.toNat := t.length_image
  have fits : t.image.length ≤ 2 ^ 32 := by
    rw [length]
    exact Nat.le_of_lt t.algoSize.isLt
  have stored := @WordMem.read_store c.ram t.algoStart t.image fits
  rwa [length] at stored

theorem ProgramTarget.Holds.within {c' : Chip} {r : Region} (holds : t.Holds c) (apart : t.imageArea.Apart r)
    (within : r.Within c.ram c'.ram) : t.Holds c' :=
  (apart.read within (Nat.le_of_lt t.algoSize.isLt)).trans holds

/-- The bytes of a pass fit in the page buffer. -/
theorem piece_fits (data : Mem) (s : ProgramPage) : (s.piece t data).length ≤ t.bufferArea.length := by
  rw [ProgramPage.piece, Mem.length_read, writeSize_toNat]
  exact Nat.min_le_left ..

/-- The calls of a later event find the algorithm in place and leave it there. -/
theorem execsHold_event (confined : W.Confined t) (buffer : t.imageArea.Apart t.bufferArea)
    (area : t.imageArea.Apart t.staticArea) (holds : t.Holds c) {e : SessionEvent}
    (later : ∀ flashStart, e ≠ .init flashStart) (s : Session) :
    ExecsHold W t (e.calls t s) c ∧ t.Holds (replay W (e.calls t s) c) := by
  have exec : ∀ {c : Chip} (entry r0 r1 r2 r3 : Word), t.Holds c →
      t.Holds (W.exec t.sysCallS entry r0 r1 r2 r3 c) := fun entry r0 r1 r2 r3 holds =>
    holds.within area (confined entry r0 r1 r2 r3 _)
  cases e with
  | init flashStart => exact absurd rfl (later flashStart)
  | eraseChip => exact ⟨⟨fun _ => holds, trivial⟩, exec _ _ _ _ _ holds⟩
  | programPage addr data size => exact ⟨trivial, holds⟩
  | pass =>
    cases s with
    | reset g => exact ⟨trivial, holds⟩
    | initialised g => exact ⟨trivial, holds⟩
    | ready g => exact ⟨trivial, holds⟩
    | programming data s =>
      rw [SessionEvent.calls]
      split
      · have loaded : t.Holds { c with ram := c.ram.store t.programBuffer (s.piece t data) } :=
          holds.within buffer (Region.within_store (piece_fits data s))
        exact ⟨⟨fun exec => exec.elim, fun _ => loaded, trivial⟩, exec _ _ _ _ _ loaded⟩
      · exact ⟨trivial, holds⟩

/-- The invariant of a session that began with the target `c`. -/
structure SessionInv (W : World) (t : ProgramTarget) (c : Chip) (s : Session) : Prop where
  chip : s.rig.chip = replay W s.rig.calls c
  execs : ExecsHold W t s.rig.calls c
  holds : (∀ g, s ≠ .reset g) → t.Holds s.rig.chip

theorem sessionInv_step (all : W.Succeeds) (confined : W.Confined t) (buffer : t.imageArea.Apart t.bufferArea)
    (area : t.imageArea.Apart t.staticArea) (s : Session) (e : SessionEvent) (s' : Session) (inv : SessionInv W t c s)
    (go : sessionStep W t e s = some s') : SessionInv W t c s' := by
  obtain ⟨rig, order⟩ := sessionStep_cases all go
  have made : ExecsHold W t (e.calls t s) s.rig.chip ∧ t.Holds (replay W (e.calls t s) s.rig.chip) := by
    rcases order with ⟨flashStart, g, rfl, rfl⟩ | ⟨later, begun⟩
    · have loaded := @holds_downloaded t g.chip
      exact ⟨⟨fun exec => exec.elim, fun exec => exec.elim, fun _ => loaded, trivial⟩,
        loaded.within area (confined _ _ _ _ _ _)⟩
    · exact execsHold_event confined buffer area (inv.holds begun) later s
  refine ⟨?_, ?_, fun _ => ?_⟩
  · rw [rig, Rig.make, replay_append, inv.chip]
  · rw [rig, Rig.make, execsHold_append, ← inv.chip]
    exact ⟨inv.execs, made.1⟩
  · rw [rig]
    exact made.2

theorem intact_of_apart (buffer : t.imageArea.Apart t.bufferArea) (area : t.imageArea.Apart t.staticArea) :
    t.Intact := by
  intro W all confined c es s go
  have start : SessionInv W t c (.reset ⟨c, []⟩) := ⟨rfl, trivial, fun begun => absurd rfl (begun _)⟩
  exact (Run.reachable_inv (SessionInv W t c) (sessionInv_step all confined buffer area) start ⟨es, go⟩).execs

end Intact

/-! ## Sessions that overwrite the algorithm -/

section Overwrite

variable {t : ProgramTarget}

/-- A byte of the algorithm. -/
def ProgramTarget.imageByte (t : ProgramTarget) (x : Word) : Byte := t.algoBlob (x - t.algoStart).toNat

/-- Where the algorithm is in place, RAM has its bytes. -/
theorem ProgramTarget.Holds.byte {c : Chip} (holds : t.Holds c) {x : Word} (inside : t.imageArea.Contains x) :
    c.ram x = t.imageByte x := by
  have bound : (x - t.algoStart).toNat < t.algoSize.toNat := inside
  have cell := congrArg (fun l => l[(x - t.algoStart).toNat]?) holds
  simp only [WordMem.read, ProgramTarget.image, Mem.read, List.getElem?_map, List.getElem?_range bound, Option.map_some,
    add_distance, Nat.zero_add, Option.some.injEq] at cell
  exact cell

/-- Every call succeeds, and the algorithm does `effect` whatever its entry point. -/
def plainWorld (effect : Chip → Chip) : World := ⟨fun _ => true, fun _ _ _ _ _ _ => effect, fun _ => ⟨[], false⟩⟩

/-- The algorithm that changes the byte at `x`. -/
def flipByte (x : Word) (c : Chip) : Chip := { c with ram := fun y => if y = x then c.ram y + 1 else c.ram y }

/-- The calls before the first page. -/
def prepareCalls (t : ProgramTarget) : List Call :=
  [.setTargetStateHw .resetProgram, .writeMemory t.algoStart t.image, .syscallExec t.sysCallS t.init 0 0 0 0,
    .syscallExec t.sysCallS t.eraseChip 0 0 0 0]

theorem run_prepare {W : World} (all : W.Succeeds) (c : Chip) :
    Run.run (sessionStep W t) [.init 0, .eraseChip] (.reset ⟨c, []⟩) =
      some (.ready (Rig.make W (prepareCalls t) ⟨c, []⟩)) := by
  simp only [Run.run, sessionStep, targetFlashInit_made all, targetFlashEraseChip_made all, if_true, Option.bind_some,
    Rig.make_make, List.cons_append, List.nil_append, prepareCalls]

theorem run_page {W : World} (all : W.Succeeds) (c : Chip) (data : Mem) {size : Word} (more : size > 0) :
    ∃ s, Run.run (sessionStep W t) [.init 0, .eraseChip, .programPage 0 data size, .pass] (.reset ⟨c, []⟩) = some s ∧
      s.rig.calls = prepareCalls t ++ [.writeMemory t.programBuffer (data.read 0 (writeSize t size).toNat),
        .syscallExec t.sysCallS t.programPage 0 t.programBufferSize t.programBuffer 0] := by
  have pass := @programPagePass_made W t all data ⟨0, 0, size, Rig.make W (prepareCalls t) ⟨c, []⟩⟩ more
  refine ⟨.programming data ⟨0 + writeSize t size, 0 + (writeSize t size).toNat, size - writeSize t size,
    (Rig.make W (prepareCalls t) ⟨c, []⟩).make W [.writeMemory t.programBuffer (data.read 0 (writeSize t size).toNat),
      .syscallExec t.sysCallS t.programPage 0 t.programBufferSize t.programBuffer 0]⟩, ?_, rfl⟩
  have prepared := @run_prepare t W all c
  simp only [Run.run, sessionStep, targetFlashInit_made all, targetFlashEraseChip_made all, if_true, Option.bind_some,
    Option.some.injEq, Session.ready.injEq] at prepared ⊢
  rw [prepared, pass]
  rfl

theorem byte_add_one (b : Byte) : b + 1 ≠ b := by
  bv_omega

/-- Its first run changes a byte it shares with the area of its data. -/
theorem ProgramTarget.Intact.area_apart (intact : t.Intact) : t.imageArea.Apart t.staticArea := by
  intro x inside shared
  have confined : (plainWorld (flipByte x)).Confined t := by
    intro entry r0 r1 r2 r3 c y out
    have other : y ≠ x := by
      rintro rfl
      exact out shared
    exact if_neg other
  have all : (plainWorld (flipByte x)).Succeeds := fun _ => rfl
  have execs := intact _ all confined ⟨fun _ => 0, fun _ => 0⟩ _ _ (run_prepare all _)
  have loaded := (@holds_downloaded t ⟨fun _ => 0, fun _ => 0⟩).byte inside
  have erase : t.Holds (flipByte x (downloaded t ⟨fun _ => 0, fun _ => 0⟩)) := execs.2.2.2.1 trivial
  have cell := erase.byte inside
  rw [flipByte] at cell
  simp only [if_true, loaded] at cell
  exact byte_add_one _ cell

/-- A full page of one other byte overwrites a byte it shares with the page buffer. -/
theorem ProgramTarget.Intact.buffer_apart (intact : t.Intact) : t.imageArea.Apart t.bufferArea := by
  intro x inside shared
  have bound : (x - t.programBuffer).toNat < t.programBufferSize.toNat := shared
  have confined : (plainWorld id).Confined t := fun _ _ _ _ _ _ _ _ => rfl
  have all : (plainWorld id).Succeeds := fun _ => rfl
  have more : t.programBufferSize > 0 := by
    show 0 < t.programBufferSize
    rw [BitVec.lt_def]
    exact Nat.zero_lt_of_lt bound
  have whole : writeSize t t.programBufferSize = t.programBufferSize := by
    unfold writeSize
    split <;> rfl
  obtain ⟨s, run, calls⟩ := @run_page t _ all ⟨fun _ => 0, fun _ => 0⟩ (fun _ => t.imageByte x + 1) _ more
  have execs := intact _ all confined _ _ _ run
  rw [calls, execsHold_append, whole] at execs
  have page : t.Holds _ := execs.2.2.1 trivial
  have cell := page.byte inside
  change WordMem.store _ _ _ x = _ at cell
  rw [WordMem.store, List.getD_eq_getElem _ _ (by rw [Mem.length_read]; exact bound), Mem.getElem_read] at cell
  exact byte_add_one _ cell

/-- **The algorithm is intact** in every session if and only if nothing else is
placed where it is. -/
theorem intact_iff : t.Intact ↔ t.imageArea.Apart t.bufferArea ∧ t.imageArea.Apart t.staticArea :=
  ⟨fun intact => ⟨intact.buffer_apart, intact.area_apart⟩, fun apart => intact_of_apart apart.1 apart.2⟩

end Overwrite

end OffLineProgrammer.Target
