import OffLineProgrammer.Fatfs.OverBus
import OffLineProgrammer.Fatfs.Seeking
import OffLineProgrammer.Lib.Run
import Mathlib.Logic.Function.Basic

/-!
# Several open files

The open files of a volume share its window: every call may leave another sector there. What
the calls deliver does not depend on it. A run of calls, in any order and on any of the files,
is a run of cursors that know nothing of each other, and so it is over the bus.
-/

namespace OffLineProgrammer.Fatfs
set_option autoImplicit false
open OffLineProgrammer.Lib OffLineProgrammer.Storage

/-! ## Calls -/

/-- A call of the program on an open file. -/
inductive Call where
  | read (btr : Nat)
  | lseek (ofs : Nat)

/-- A call: the result, the bytes that are delivered, the volume and the object. -/
def Call.exec (m : Mem) (fs : FATFS) (fp : FIL) : Call → Option (FRESULT × List Byte × FATFS × FIL)
  | .read btr => fRead m fs fp btr
  | .lseek ofs => (fLseek m fs fp ofs).map fun r => (r.1, [], r.2)

/-- A volume and its open files. -/
structure Files (ι : Type) where
  fs : FATFS
  fp : ι → FIL

/-- What a call on one of the files returns. -/
structure Reply (ι : Type) where
  file : ι
  call : Call
  res : FRESULT
  data : List Byte

section Runs

variable {ι : Type} [DecidableEq ι] (m : Mem)

/-- A call on one of the files. -/
def Files.step (e : ι × Call) (s : Files ι) : Option (Files ι) :=
  (e.2.exec m s.fs (s.fp e.1)).map fun r => ⟨r.2.2.1, Function.update s.fp e.1 r.2.2.2⟩

/-- What it returns. -/
def Files.replies (e : ι × Call) (s : Files ι) : List (Reply ι) :=
  match e.2.exec m s.fs (s.fp e.1) with
  | none => []
  | some r => [⟨e.1, e.2, r.1, r.2.1⟩]

end Runs

/-! ## Calls over the bus -/

/-- A file that has just been opened has room, and so has a window that is in order. -/
theorem Room.opened {m : Mem} {fs : FATFS} (coherent : fs.Coherent m) (dir : List Byte) (clust : Nat) :
    Room fs (fOpened fs dir clust) := by
  have buf : (fOpened fs dir clust).buf = List.replicate 4096 0 := rfl
  refine ⟨?_, ?_⟩
  · rw [HasSector, coherent.2]
    exact Nat.le_of_eq (length_diskSector m fs.winsect).symm
  · rw [HasSector, buf]
    exact Nat.le_of_eq List.length_replicate.symm

/-- A call over the bus; `rbuff` is what the caller's buffer holds. -/
def Call.execOn (rbuff : Mem) (fs : FATFS) (fp : FIL) (b : Bus) : Call → Option ((FRESULT × List Byte × FATFS × FIL) × Bus)
  | .read btr => fReadOn rbuff fs fp btr b
  | .lseek ofs => (fLseekOn fs fp ofs b).map fun r => ((r.1.1, [], r.1.2), r.2)

section OverBus

variable {ι : Type} [DecidableEq ι] (rbuff : Files ι × Bus → Mem)

/-- A call on one of the files. -/
def Files.stepOn (e : ι × Call) (x : Files ι × Bus) : Option (Files ι × Bus) :=
  (e.2.execOn (rbuff x) x.1.fs (x.1.fp e.1) x.2).map fun r => (⟨r.1.2.2.1, Function.update x.1.fp e.1 r.1.2.2.2⟩, r.2)

/-- What it returns. -/
def Files.repliesOn (e : ι × Call) (x : Files ι × Bus) : List (Reply ι) :=
  (e.2.execOn (rbuff x) x.1.fs (x.1.fp e.1) x.2).elim [] fun r => [⟨e.1, e.2, r.1.1, r.1.2.1⟩]

variable {rbuff} {m : Mem} {s s' : Files ι} {b : Bus}

theorem Call.execOn_yields (data : Mem) {fs : FATFS} {fp : FIL} (room : Room fs fp) (ready : b.Ready m) (c : Call) :
    ∃ b', b'.Ready m ∧ c.execOn data fs fp b = (c.exec m fs fp).map (·, b') ∧
      ∀ r, c.exec m fs fp = some r → Room r.2.2.1 r.2.2.2 := by
  cases c with
  | read btr => exact fReadOn_yields data room btr ready
  | lseek ofs =>
    obtain ⟨b', ready', eq, post⟩ := fLseekOn_yields room ofs ready
    refine ⟨b', ready', ?_, fun r same => ?_⟩
    · rw [Call.execOn, Call.exec, eq, Option.map_map, Option.map_map]
      rfl
    · obtain ⟨a, run, rfl⟩ := Option.map_eq_some_iff.mp same
      exact post a run

/-- One call over the bus. -/
theorem Files.stepOn_step (room : ∀ i, Room s.fs (s.fp i)) (ready : b.Ready m) {e : ι × Call} (go : Files.step m e s = some s') :
    ∃ b', b'.Ready m ∧ Files.stepOn rbuff e (s, b) = some (s', b') ∧
      Files.repliesOn rbuff e (s, b) = Files.replies m e s ∧ ∀ i, Room s'.fs (s'.fp i) := by
  obtain ⟨i, c⟩ := e
  obtain ⟨b', ready', eq, post⟩ := Call.execOn_yields (rbuff (s, b)) (room i) ready c
  obtain ⟨r, run, rfl⟩ := Option.map_eq_some_iff.mp go
  have last := post r run
  refine ⟨b', ready', ?_, ?_, fun j => ⟨last.win, ?_⟩⟩
  · simp only [Files.stepOn, eq, run, Option.map_some]
  · simp only [Files.repliesOn, Files.replies, eq, run, Option.map_some, Option.elim_some]
  · by_cases same : j = i
    · subst same
      simp only [Function.update_self]
      exact last.buf
    · simp only [Function.update_of_ne same]
      exact (room j).buf

/-- **A run over the bus** is the run on what the chip holds. -/
theorem Files.runOn_run (room : ∀ i, Room s.fs (s.fp i)) (ready : b.Ready m) {es : List (ι × Call)}
    (go : Run.run (Files.step m) es s = some s') : ∃ b', b'.Ready m ∧ Run.run (Files.stepOn rbuff) es (s, b) = some (s', b') ∧
      Run.trace (Files.stepOn rbuff) (Files.repliesOn rbuff) es (s, b) = Run.trace (Files.step m) (Files.replies m) es s := by
  induction es generalizing s b with
  | nil =>
    cases go
    exact ⟨b, ready, rfl, by simp only [Run.trace]⟩
  | cons e es ih =>
    obtain ⟨t, next, rest⟩ := Run.run_split go
    obtain ⟨b₁, ready₁, step, replies, room₁⟩ := @Files.stepOn_step ι _ rbuff m s t b room ready e next
    obtain ⟨b₂, ready₂, run, trace⟩ := ih room₁ ready₁ rest
    refine ⟨b₂, ready₂, (Run.run_cons step).trans run, ?_⟩
    simp only [Run.trace, step, next, replies, Option.elim_some, trace]

end OverBus

/-! ## Cursors -/

/-- A file as its reader sees it. -/
structure Cursor where
  bytes : List Byte
  pos : Nat

/-- The bytes a call delivers. -/
def Cursor.delivers (c : Cursor) : Call → List Byte
  | .read btr => (c.bytes.drop c.pos).take btr
  | .lseek _ => []

/-- Where it leaves the cursor. -/
def Cursor.moves (c : Cursor) : Call → Cursor
  | .read btr => { c with pos := min (c.pos + btr) c.bytes.length }
  | .lseek ofs => { c with pos := min ofs c.bytes.length }

/-- The replies that cursors give: each call succeeds, and moves one cursor only. -/
def Cursor.accept {ι : Type} [DecidableEq ι] (r : Reply ι) (cs : ι → Cursor) : Option (ι → Cursor) :=
  if r.res = .ok ∧ r.data = (cs r.file).delivers r.call then some (Function.update cs r.file ((cs r.file).moves r.call)) else none

section Refinement

variable {m : Mem} {vol : Volume} {start size : Nat} {clusters : List Nat} {fs : FATFS} {fp : FIL}

/-- **A call is a move of the cursor**, and leaves the object in order. -/
theorem Call.exec_cursor (sound : vol.Sound) (file : Clusters m vol start size clusters)
    (held : Held m vol start size clusters fs fp) (c : Call) :
    ∃ fs' fp', c.exec m fs fp = some (.ok, (Cursor.mk (content m vol clusters size) fp.fptr).delivers c, fs', fp') ∧
      Held m vol start size clusters fs' fp' ∧
      (Cursor.mk (content m vol clusters size) fp.fptr).moves c = ⟨content m vol clusters size, fp'.fptr⟩ := by
  have length := length_content file
  cases c with
  | read btr =>
    obtain ⟨fs', fp', run, held', fptr⟩ := fRead_content sound file held btr
    refine ⟨fs', fp', run, held', ?_⟩
    rw [Cursor.moves, length, fptr]
  | lseek ofs =>
    obtain ⟨fs', fp', run, held', fptr⟩ := fLseek_place sound file held ofs
    refine ⟨fs', fp', ?_, held', ?_⟩
    · rw [Call.exec, run]
      rfl
    · rw [Cursor.moves, length, fptr]

/-- What a call does to the window is nothing to an object it is not about. -/
theorem Held.other {fs' : FATFS} (held : Held m vol start size clusters fs fp) (volume : fs'.toVolume = vol)
    (coherent : fs'.Coherent m) : Held m vol start size clusters fs' fp :=
  ⟨{ held.toOpened with volume := volume, coherent := coherent }, held.toPlaced, held.inside⟩

end Refinement

/-! ## Runs -/

section Whole

variable {ι : Type} [DecidableEq ι] {m : Mem} {vol : Volume} {start size : ι → Nat} {clusters : ι → List Nat}

/-- Every file is open and at a place of its own. -/
def Files.Held (m : Mem) (vol : Volume) (start size : ι → Nat) (clusters : ι → List Nat) (s : Files ι) : Prop :=
  ∀ i, Fatfs.Held m vol (start i) (size i) (clusters i) s.fs (s.fp i)

/-- The files as cursors. -/
def Files.cursors (m : Mem) (vol : Volume) (size : ι → Nat) (clusters : ι → List Nat) (s : Files ι) : ι → Cursor :=
  fun i => ⟨content m vol (clusters i) (size i), (s.fp i).fptr⟩

/-- One call on one of the files moves its cursor and no other. -/
theorem Files.step_cursors (sound : vol.Sound) (files : ∀ i, Clusters m vol (start i) (size i) (clusters i))
    {s : Files ι} (held : s.Held m vol start size clusters) (e : ι × Call) :
    ∃ s', Files.step m e s = some s' ∧ s'.Held m vol start size clusters ∧
      Run.run Cursor.accept (Files.replies m e s) (s.cursors m vol size clusters) = some (s'.cursors m vol size clusters) := by
  obtain ⟨i, c⟩ := e
  obtain ⟨fs', fp', run, held', moved⟩ := Call.exec_cursor sound (files i) (held i) c
  refine ⟨⟨fs', Function.update s.fp i fp'⟩, ?_, ?_, ?_⟩
  · simp only [Files.step, run, Option.map_some]
  · intro j
    by_cases same : j = i
    · subst same
      simp only [Function.update_self]
      exact held'
    · simp only [Function.update_of_ne same]
      exact (held j).other held'.volume held'.coherent
  · have taken : Cursor.accept ⟨i, c, .ok, (s.cursors m vol size clusters i).delivers c⟩ (s.cursors m vol size clusters) =
        some (Function.update (s.cursors m vol size clusters) i ((s.cursors m vol size clusters i).moves c)) :=
      if_pos ⟨rfl, rfl⟩
    simp only [Files.replies, run]
    refine (Run.run_cons taken).trans ?_
    rw [Run.run_nil]
    congr 1
    funext j
    by_cases same : j = i
    · subst same
      simp only [Files.cursors, Function.update_self]
      exact moved
    · simp only [Files.cursors, Function.update_of_ne same]

/-- **Open files are cursors**: whatever calls are made on whichever files in whatever order,
each succeeds, and what each file delivers is the content from where its own calls have left it.
Over a bus that is ready the run is the same. -/
theorem Files.run_cursors (sound : vol.Sound) (files : ∀ i, Clusters m vol (start i) (size i) (clusters i))
    {s : Files ι} (held : s.Held m vol start size clusters) (es : List (ι × Call)) :
    ∃ s', Run.run (Files.step m) es s = some s' ∧ s'.Held m vol start size clusters ∧
      Run.run Cursor.accept (Run.trace (Files.step m) (Files.replies m) es s) (s.cursors m vol size clusters) =
        some (s'.cursors m vol size clusters) ∧
      ∀ (rbuff : Files ι × Bus → Mem) (b : Bus), b.Ready m → (∀ i, Room s.fs (s.fp i)) →
        ∃ b', b'.Ready m ∧ Run.run (Files.stepOn rbuff) es (s, b) = some (s', b') ∧
          Run.trace (Files.stepOn rbuff) (Files.repliesOn rbuff) es (s, b) = Run.trace (Files.step m) (Files.replies m) es s := by
  have matched : ∀ (s : Files ι) (cs : ι → Cursor) (e : ι × Call),
      s.Held m vol start size clusters ∧ cs = s.cursors m vol size clusters →
      ∃ t ds, Files.step m e s = some t ∧ Run.run Cursor.accept (Files.replies m e s) cs = some ds ∧
        t.Held m vol start size clusters ∧ ds = t.cursors m vol size clusters := by
    rintro s _ e ⟨held, rfl⟩
    obtain ⟨t, go, held', accepted⟩ := Files.step_cursors sound files held e
    exact ⟨t, _, go, accepted, held', rfl⟩
  obtain ⟨s', _, go, accepted, held', rfl⟩ := Run.simulation _ matched es ⟨held, rfl⟩
  exact ⟨s', go, held', accepted, fun rbuff b ready room => Files.runOn_run room ready go⟩

/-- The small disk on a chip that is idle. -/
def smallBus : Bus := ⟨⟨smallDisk, false, 0, fun _ => 0⟩, false, [], fun _ => 0xA5, 0⟩

theorem smallBus_ready : smallBus.Ready smallDisk := ⟨rfl, rfl, rfl⟩

/-- Two places of one file of two clusters, with calls in turn. -/
theorem Files.run_cursors_small : ∃ s', Run.run (Files.step smallDisk)
      [(true, .read 10), (false, .lseek 4500), (true, .read 4090), (false, .read 1000)]
      ⟨smallFs, fun _ : Bool => fOpened smallFs smallEntry 0⟩ = some s' ∧
    s'.Held smallDisk smallVolume (fun _ => 3) (fun _ => 5000) (fun _ => [3, 2]) ∧
    ∃ b', b'.Ready smallDisk ∧ Run.run (Files.stepOn fun _ _ => 0xFF)
      [(true, .read 10), (false, .lseek 4500), (true, .read 4090), (false, .read 1000)]
      (⟨smallFs, fun _ : Bool => fOpened smallFs smallEntry 0⟩, smallBus) = some (s', b') := by
  have opened : Fatfs.Held smallDisk smallVolume (ldClust smallFs smallEntry) (ldDword smallEntry 28) [3, 2] smallFs
      (fOpened smallFs smallEntry 0) := fOpened_held smallFs_coherent 0
  rw [smallEntry_first, smallEntry_size] at opened
  obtain ⟨s', go, held', -, bus⟩ := Files.run_cursors smallVolume_sound (fun _ => smallDisk_clusters) (s := ⟨smallFs, fun _ => _⟩)
    (fun _ => opened) [(true, .read 10), (false, .lseek 4500), (true, .read 4090), (false, .read 1000)]
  obtain ⟨b', ready, run, -⟩ := bus (fun _ _ => 0xFF) smallBus smallBus_ready fun _ => Room.opened smallFs_coherent smallEntry 0
  exact ⟨s', go, held', b', ready, run⟩

end Whole

end OffLineProgrammer.Fatfs
