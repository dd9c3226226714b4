import OffLineProgrammer.Target.Calls

/-!
# Read errors in `FLASH_SWD`

The result of `f_read` is not looked at: a read that fails and delivers less than it was
asked for looks like the end of the file, one that fails and delivers all of it like any
other block. `FLASH_SWD` returns 1 after the whole file exactly where no read up to the
first short one fails.
-/

namespace OffLineProgrammer.Target
set_option autoImplicit false
open OffLineProgrammer.Lib

/-! ## Reads that may fail -/

namespace World

variable (W : World)

/-- The bytes delivered by the reads before read `n`: the place of the file pointer. -/
def delivered : Nat → Nat
  | 0 => 0
  | n + 1 => delivered n + (W.reads n).data.length

/-- `f_read` of a file: it never delivers more than was asked for, and without an error
it delivers all that is there. -/
structure ReadsFrom (file : List Byte) : Prop where
  count : ∀ n, (W.reads n).data.length ≤ dlSize
  ok : ∀ n, (W.reads n).fails = false → (W.reads n).data = (file.drop (W.delivered n)).take dlSize

/-- A read that comes after full ones only does not fail. -/
def ErrorFree : Prop := ∀ n, (∀ k < n, dlSize ≤ (W.reads k).data.length) → (W.reads n).fails = false

/-- The first `n` reads succeed, and together deliver the file. -/
structure DeliversWhole (file : List Byte) (n : Nat) : Prop where
  ok : ∀ k < n, (W.reads k).fails = false
  whole : (List.range n).flatMap (fun k => (W.reads k).data) = file

variable {W} {file : List Byte}

/-- Full reads without an error deliver a front of the file. -/
theorem ReadsFrom.front (reads : W.ReadsFrom file) {n : Nat} (full : ∀ k < n, dlSize ≤ (W.reads k).data.length)
    (ok : ∀ k < n, (W.reads k).fails = false) :
    W.delivered n = dlSize * n ∧ (List.range n).flatMap (fun k => (W.reads k).data) = file.take (dlSize * n) := by
  induction n with
  | zero => exact ⟨rfl, by rw [Nat.mul_zero, List.take_zero]; rfl⟩
  | succ n ih =>
    obtain ⟨place, front⟩ := ih (fun k less => full k (by omega)) (fun k less => ok k (by omega))
    have length : (W.reads n).data.length = dlSize := Nat.le_antisymm (reads.count n) (full n (Nat.lt_succ_self n))
    refine ⟨by rw [delivered, place, length, Nat.mul_succ], ?_⟩
    rw [List.range_succ, List.flatMap_append, front, List.flatMap_singleton, reads.ok n (ok n (Nat.lt_succ_self n)),
      place, Nat.mul_succ, List.take_add]

/-- The first short read is the last one of the file. -/
theorem ReadsFrom.whole_iff (reads : W.ReadsFrom file) {n : Nat} (full : ∀ k < n, dlSize ≤ (W.reads k).data.length)
    (short : (W.reads n).data.length < dlSize) : W.DeliversWhole file (n + 1) ↔ W.ErrorFree := by
  constructor
  · intro whole m earlier
    have before : m ≤ n := by
      by_contra after
      exact Nat.not_lt.mpr (earlier n (by omega)) short
    exact whole.ok m (by omega)
  · intro free
    have ok : ∀ k < n + 1, (W.reads k).fails = false := fun k less => free k fun k' less' => full k' (by omega)
    obtain ⟨place, front⟩ := reads.front full fun k less => ok k (by omega)
    refine ⟨ok, ?_⟩
    have last := reads.ok n (ok n (Nat.lt_succ_self n))
    rw [place] at last
    have rest : (file.drop (dlSize * n)).take dlSize = file.drop (dlSize * n) := by
      apply List.take_of_length_le
      rw [last, List.length_take] at short
      omega
    rw [List.range_succ, List.flatMap_append, front, List.flatMap_singleton, last, rest, List.take_append_drop]

end World

/-! ## The reads of a run -/

def Call.isRead : Call → Bool
  | .fRead _ => true
  | _ => false

/-- The number of calls of `f_read` between `g` and `g'`. -/
def Rig.readsMade (g g' : Rig) : Nat := (g.made g').countP Call.isRead

section Runs

variable {W : World} {t : ProgramTarget} {g g' h : Rig} {fuel : Nat} {heap : Mem}

theorem Call.Programming.not_read {c : Call} (programming : c.Programming) : c.isRead = false := by
  cases c with
  | fRead size => cases programming
  | _ => rfl

theorem readsMade_none (adds : g.Adds (fun c => c.isRead = false) h) : g.readsMade h = 0 := by
  rw [Rig.readsMade, List.countP_eq_zero]
  intro c mem
  rw [adds.2 c mem]
  exact Bool.false_ne_true

theorem readsMade_add {P Q : Call → Prop} (first : g.Adds P h) (second : h.Adds Q g') :
    g.readsMade g' = g.readsMade h + h.readsMade g' := by
  rw [Rig.readsMade, first.made_append second, List.countP_append]
  rfl

/-- The loop has made its reads, all of them full ones. -/
structure ReadsAt (W : World) (g : Rig) (s : FlashSwd) : Prop where
  adds : g.Adds (fun _ => True) s.rig
  count : g.readsMade s.rig = s.reads
  full : ∀ k < s.reads, dlSize ≤ (W.reads k).data.length

/-- A pass makes one read. -/
theorem ReadsAt.pass {s : FlashSwd} {next : FlashSwd ⊕ (Bool × Rig)} (at_ : ReadsAt W g s)
    (pass : flashSwdPass W t fuel s = some next) :
    g.Adds (fun _ => True) (FlashSwd.after next) ∧ g.readsMade (FlashSwd.after next) = s.reads + 1 := by
  have read : s.rig.Adds (fun _ => True) (s.rig.call W (.fRead dlSize)).2 := Rig.adds_call trivial
  have one : s.rig.readsMade (s.rig.call W (.fRead dlSize)).2 = 1 := by
    rw [Rig.readsMade, Rig.made_call]
    rfl
  have pages := flashSwdPass_adds pass
  have none := readsMade_none (pages.mono fun _ => Call.Programming.not_read)
  have start := at_.adds.trans read
  refine ⟨start.trans (pages.mono fun _ _ => trivial), ?_⟩
  rw [readsMade_add start pages, readsMade_add at_.adds read, at_.count, one, none]

/-- The loop ends with the first short read. -/
theorem programming_reads (start : Rig) (adds : g.Adds (fun c => c.isRead = false) start) {ended : Rig}
    (loop : Loop.exec (flashSwdPass W t fuel) fuel ⟨0, heap, 0, start⟩ = some (true, ended)) :
    g.Adds (fun _ => True) ended ∧ ∃ n, g.readsMade ended = n + 1 ∧
      (∀ k < n, dlSize ≤ (W.reads k).data.length) ∧ (W.reads n).data.length < dlSize := by
  have first : ReadsAt W g ⟨0, heap, 0, start⟩ :=
    ⟨adds.mono fun _ _ => trivial, readsMade_none adds, fun k none => absurd none (Nat.not_lt_zero k)⟩
  refine Loop.exec_post (ReadsAt W g) (fun r : Bool × Rig => r.1 = true → g.Adds (fun _ => True) r.2 ∧
    ∃ n, g.readsMade r.2 = n + 1 ∧ (∀ k < n, dlSize ≤ (W.reads k).data.length) ∧ (W.reads n).data.length < dlSize)
    ?_ ?_ first loop rfl
  · intro s s' at_ pass
    obtain ⟨adds', count⟩ := at_.pass pass
    obtain ⟨full, -, -, -, reads⟩ := flashSwdPass_again pass
    refine ⟨adds', ?_, ?_⟩
    · rw [reads]
      exact count
    · intro k less
      rw [reads] at less
      rcases Nat.lt_succ_iff_lt_or_eq.mp less with earlier | rfl
      · exact at_.full k earlier
      · exact full
  · rintro s ⟨done, ended⟩ at_ pass rfl
    obtain ⟨adds', count⟩ := at_.pass pass
    obtain ⟨short, -⟩ := flashSwdPass_leave pass
    exact ⟨adds', s.reads, count, at_.full, short⟩

/-- A run that returns 1 has read up to the first short read. -/
theorem flashSwd_reads (returned : flashSwd W t fuel heap g = some (1, g')) :
    ∃ n, g.readsMade g' = n + 1 ∧ (∀ k < n, dlSize ≤ (W.reads k).data.length) ∧ (W.reads n).data.length < dlSize := by
  obtain ⟨-, ended, loop, rfl⟩ := (flashSwd_exit returned).one rfl
  have malloc : g.Adds (fun c => c.isRead = false) (g.call W (.rtMalloc dlSize)).2 := Rig.adds_call rfl
  have opened : g.Adds (fun c => c.isRead = false) (opening W g).2 := malloc.trans (Rig.adds_call rfl)
  have connected : g.Adds (fun c => c.isRead = false) (connecting W g).2 := opened.trans (Rig.adds_call rfl)
  have ready : g.Adds (fun c => c.isRead = false) (initialising W t g).2 :=
    connected.trans ((targetFlashInit_adds _).mono fun _ => Call.Programming.not_read)
  have blank : g.Adds (fun c => c.isRead = false) (erasing W t g).2 :=
    ready.trans (targetFlashEraseChip_adds.mono fun _ => Call.Programming.not_read)
  obtain ⟨adds, n, count, full, short⟩ := programming_reads _ blank loop
  have again : ended.Adds (fun c => c.isRead = false) (ended.call W .initDebug).2 := Rig.adds_call rfl
  have last : ended.Adds (fun c => c.isRead = false)
      ((ended.call W .initDebug).2.call W (.setTargetReset false)).2 := again.trans (Rig.adds_call rfl)
  exact ⟨n, by rw [readsMade_add adds last, readsMade_none last, count], full, short⟩

end Runs

/-- **The file is read whole** by a run that returns 1 exactly where no read up to the
first short one fails. -/
theorem flashSwd_whole_iff (W : World) (t : ProgramTarget) (file : List Byte) (fuel : Nat) (heap : Mem) (g g' : Rig)
    (reads : W.ReadsFrom file) (returned : flashSwd W t fuel heap g = some (1, g')) :
    W.DeliversWhole file (g.readsMade g') ↔ W.ErrorFree := by
  obtain ⟨n, count, full, short⟩ := flashSwd_reads returned
  rw [count]
  exact reads.whole_iff full short

/-- Reads that never fail read the file. -/
theorem idealWorld_readsFrom {t : ProgramTarget} {file : List Byte} : (idealWorld t file).ReadsFrom file := by
  have place : ∀ n, (idealWorld t file).delivered n = min (dlSize * n) file.length := by
    intro n
    induction n with
    | zero => rfl
    | succ n ih =>
      have data : ((idealWorld t file).reads n).data = (file.drop (dlSize * n)).take dlSize := rfl
      rw [World.delivered, ih, data, List.length_take, List.length_drop, Nat.mul_succ]
      omega
  refine ⟨fun n => ?_, fun n _ => ?_⟩
  · show ((file.drop (dlSize * n)).take dlSize).length ≤ dlSize
    rw [List.length_take]
    exact Nat.min_le_left ..
  · show (file.drop (dlSize * n)).take dlSize = _
    rw [place]
    rcases Nat.le_total (dlSize * n) file.length with inside | past
    · rw [Nat.min_eq_left inside]
    · rw [Nat.min_eq_right past, List.drop_of_length_le past, List.drop_length]

set_option maxRecDepth 20000 in
/-- A file of two blocks is read whole. -/
theorem flashSwd_whole_blocks : ∃ g', flashSwd (idealWorld (sampleTarget 512) sampleFile) (sampleTarget 512) 4 (fun _ => 0)
    restingRig = some (1, g') ∧
    (idealWorld (sampleTarget 512) sampleFile).DeliversWhole sampleFile (restingRig.readsMade g') :=
  ⟨_, rfl, (flashSwd_whole_iff (idealWorld (sampleTarget 512) sampleFile) (sampleTarget 512) sampleFile 4 (fun _ => 0)
    restingRig _ idealWorld_readsFrom rfl).mpr fun _ _ => rfl⟩

/-- Every read fails and delivers nothing. -/
def unreadWorld : World := { idealWorld (sampleTarget 512) [0x12] with reads := fun _ => ⟨[], true⟩ }

/-- 1 is returned without a byte of the file. -/
theorem flashSwd_whole_not : ¬ ∀ (W : World) (t : ProgramTarget) (file : List Byte) (fuel : Nat) (heap : Mem)
    (g g' : Rig), W.ReadsFrom file → flashSwd W t fuel heap g = some (1, g') →
    W.DeliversWhole file (g.readsMade g') := by
  intro always
  have reads : unreadWorld.ReadsFrom [0x12] := ⟨fun _ => Nat.zero_le _, fun _ ok => by cases ok⟩
  obtain ⟨g', returned⟩ : ∃ g', flashSwd unreadWorld (sampleTarget 512) 4 (fun _ => 0) restingRig = some (1, g') :=
    ⟨_, rfl⟩
  obtain ⟨n, count, -⟩ := flashSwd_reads returned
  have whole := always unreadWorld (sampleTarget 512) [0x12] 4 (fun _ => 0) restingRig g' reads returned
  rw [count] at whole
  cases whole.ok 0 (Nat.succ_pos n)

end OffLineProgrammer.Target
