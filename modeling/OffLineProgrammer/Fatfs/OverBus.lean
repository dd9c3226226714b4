import OffLineProgrammer.Fatfs.File

/-!
# Files over the bus

`f_read` and `f_lseek` get their sectors from `disk_read`, which clocks its buffer out to the
chip while the bytes come in. From a ready bus every call does over the bus what it does to
the bytes that the chip holds, and leaves the bus ready for the next.
-/

namespace OffLineProgrammer.Fatfs
set_option autoImplicit false
open OffLineProgrammer.Lib OffLineProgrammer.Storage

/-! ## The calls -/

/-- `disk_read` into a buffer with these bytes. -/
def diskReadOn (sector count : Nat) (buff : List Byte) : StateM Bus (List Byte) := fun b =>
  let r := diskReadBus sector count 0 buff b
  (r.2, r.1)

/-- `move_window` -/
def moveWindowOn (sect : Nat) (fs : FATFS) : StateM Bus FATFS :=
  if sect ≠ fs.winsect then do
    let win ← diskReadOn sect 1 fs.win
    pure { fs with win := win, winsect := sect }
  else pure fs

/-- `get_fat` -/
def getFatOn (clst : Nat) (fs : FATFS) : StateM Bus (Nat × FATFS) :=
  if clst < 2 ∨ fs.nFatent ≤ clst then pure (1, fs)
  else match fs.fsType with
    | some .fat12 => do
      let bc := clst + clst / 2
      let fs ← moveWindowOn (u32 (fs.fatbase + bc / fs.ssize)) fs
      let wc := (fs.win.getD (bc % fs.ssize) 0).toNat
      let fs ← moveWindowOn (u32 (fs.fatbase + (bc + 1) / fs.ssize)) fs
      let wc := wc + 256 * (fs.win.getD ((bc + 1) % fs.ssize) 0).toNat
      pure (if clst % 2 = 1 then wc / 16 else wc % 4096, fs)
    | some .fat16 => do
      let fs ← moveWindowOn (u32 (fs.fatbase + clst / (fs.ssize / 2))) fs
      pure (ldWord fs.win (u32 (clst * 2) % fs.ssize), fs)
    | some .fat32 => do
      let fs ← moveWindowOn (u32 (fs.fatbase + clst / (fs.ssize / 4))) fs
      pure (ldDword fs.win (u32 (clst * 4) % fs.ssize) % 2 ^ 28, fs)
    | none => pure (1, fs)

namespace Reading

/-- `Reading.follow` over the bus. -/
def followOn (s : Reading) : StateM Bus (Reading ⊕ (FRESULT × Reading)) := do
  let r ← (if s.fp.fptr = 0 then pure (s.fp.sclust, s.fs) else getFatOn s.fp.clust s.fs : StateM Bus _)
  let s := { s with fs := r.2 }
  pure (if r.1 < 2 then .inr (s.abort .intErr)
    else if r.1 = 0xFFFFFFFF then .inr (s.abort .diskErr)
    else .inl { s with fp := { s.fp with clust := r.1 } })

/-- `Reading.sector` over the bus; `rbuff` is what the caller's buffer held. -/
def sectorOn (rbuff : Mem) (csect : Nat) (s : Reading) : StateM Bus (Reading ⊕ (FRESULT × Reading)) :=
  let sect := clst2sect s.fs.toVolume s.fp.clust
  if sect = 0 then pure (.inr (s.abort .intErr))
  else
    let sect := u32 (sect + csect)
    let cc := s.btr / s.fs.ssize
    if 0 < cc then do
      let cc := if s.fs.csize < csect + cc then s.fs.csize - csect else cc
      let rcnt := s.fs.ssize * cc
      let data ← diskReadOn sect cc (rbuff.read s.out.length (spiFlashSectorSize * cc))
      pure (.inl { s with
        fp := { s.fp with fptr := u32 (s.fp.fptr + rcnt) }
        btr := s.btr - rcnt
        out := s.out ++ data })
    else do
      let buf ← (if s.fp.sect ≠ sect then diskReadOn sect 1 s.fp.buf else pure s.fp.buf : StateM Bus _)
      pure (.inl { s with fp := { s.fp with buf := buf, sect := sect } }.copy)

end Reading

/-- One round of the loop of `f_read`. -/
def fReadPassOn (rbuff : Mem) (s : Reading) : StateM Bus (Reading ⊕ (FRESULT × Reading)) :=
  if s.btr = 0 then pure (.inr (.ok, s))
  else if s.fp.fptr % s.fs.ssize = 0 then do
    let csect := s.fp.fptr / s.fs.ssize &&& (s.fs.csize - 1)
    let r ← (if csect = 0 then s.followOn else pure (.inl s) : StateM Bus _)
    r.elim (fun s => s.sectorOn rbuff csect) fun r => pure (.inr r)
  else pure (.inl s.copy)

/-- A loop whose body uses the bus. -/
def loopOn {σ α : Type} (body : σ → StateM Bus (σ ⊕ α)) (fuel : Nat) (s : σ) (b : Bus) : Option (α × Bus) :=
  Loop.exec (fun x : σ × Bus => some (Sum.map (·, (body x.1 x.2).2) (·, (body x.1 x.2).2) (body x.1 x.2).1)) fuel (s, b)

/-- `f_read` -/
def fReadOn (rbuff : Mem) (fs : FATFS) (fp : FIL) (btr : Nat) (b : Bus) :
    Option ((FRESULT × List Byte × FATFS × FIL) × Bus) :=
  let res := validate fs fp
  if res ≠ .ok then some ((res, [], fs, fp), b)
  else if fp.err ≠ .ok then some ((fp.err, [], fs, fp), b)
  else if fp.read = false then some ((.denied, [], fs, fp), b)
  else
    let remain := u32 (fp.objsize + 2 ^ 32 - fp.fptr)
    (loopOn (fReadPassOn rbuff) (min btr remain + 1) ⟨fs, fp, min btr remain, []⟩ b).map fun r =>
      ((r.1.1, r.1.2.out, r.1.2.fs, r.1.2.fp), r.2)

/-- One round of the loop of `f_lseek`. -/
def fLseekPassOn (s : Seeking) : StateM Bus (Seeking ⊕ (FRESULT × Seeking)) :=
  let bcs := s.fs.csize * s.fs.ssize
  if bcs < s.ofs then do
    let r ← getFatOn s.clst s.fs
    let s := { s with fs := r.2, fp := { s.fp with fptr := s.fp.fptr + bcs }, ofs := s.ofs - bcs, clst := r.1 }
    pure (if r.1 = 0xFFFFFFFF then .inr (.diskErr, { s with fp := { s.fp with err := .diskErr } })
      else if r.1 ≤ 1 ∨ s.fs.nFatent ≤ r.1 then .inr (.intErr, { s with fp := { s.fp with err := .intErr } })
      else .inl { s with fp := { s.fp with clust := r.1 } })
  else pure (.inr (.ok, s))

/-- `fLseekEnd` over the bus. -/
def fLseekEndOn (nsect : Nat) (fs : FATFS) (fp : FIL) : StateM Bus (FRESULT × FATFS × FIL) :=
  if fp.fptr % fs.ssize ≠ 0 ∧ nsect ≠ fp.sect then do
    let buf ← diskReadOn nsect 1 fp.buf
    pure (.ok, fs, { fp with buf := buf, sect := nsect })
  else pure (.ok, fs, fp)

/-- What `f_lseek` does behind its loop. -/
def fLseekLeaveOn (r : FRESULT × Seeking) : StateM Bus (FRESULT × FATFS × FIL) :=
  let s := r.2
  if r.1 ≠ .ok then pure (r.1, s.fs, s.fp)
  else
    let fp := { s.fp with fptr := s.fp.fptr + s.ofs }
    if s.ofs % s.fs.ssize = 0 then fLseekEndOn 0 s.fs fp
    else
      let nsect := clst2sect s.fs.toVolume s.clst
      if nsect = 0 then pure (.intErr, s.fs, { fp with err := .intErr })
      else fLseekEndOn (u32 (nsect + s.ofs / s.fs.ssize)) s.fs fp

/-- `f_lseek` -/
def fLseekOn (fs : FATFS) (fp : FIL) (ofs : Nat) (b : Bus) : Option ((FRESULT × FATFS × FIL) × Bus) :=
  let res := validate fs fp
  if res ≠ .ok then some ((res, fs, fp), b)
  else if fp.err ≠ .ok then some ((fp.err, fs, fp), b)
  else
    let ofs := min ofs fp.objsize
    if ofs = 0 then some (fLseekEndOn 0 fs { fp with fptr := 0 } b)
    else
      let s := fLseekStart fs fp ofs
      if s.clst = 0 then none
      else (loopOn fLseekPassOn (s.ofs + 1) s b).map fun r => fLseekLeaveOn r.1 r.2

/-! ## What the calls yield -/

/-- From a ready bus the computation yields `y`, and leaves the bus ready. -/
def Yields {α : Type} (m : Mem) (p : StateM Bus α) (y : α) : Prop := ∀ b : Bus, b.Ready m → (p b).1 = y ∧ (p b).2.Ready m

/-- A buffer that has room for a sector. -/
def HasSector (buff : List Byte) : Prop := 4096 ≤ buff.length

/-- The window and the object have room for a sector. -/
structure Room (fs : FATFS) (fp : FIL) : Prop where
  win : HasSector fs.win
  buf : HasSector fp.buf

section Yields

variable {α β : Type} {m : Mem} {fs : FATFS} {fp : FIL}

theorem Yields.pure (y : α) : Yields m (Pure.pure y) y := fun _ ready => ⟨rfl, ready⟩

theorem Yields.bind {p : StateM Bus α} {f : α → StateM Bus β} {x : α} {y : β} (first : Yields m p x) (rest : Yields m (f x) y) :
    Yields m (p >>= f) y := by
  intro b ready
  obtain ⟨rfl, ready'⟩ := first b ready
  exact rest _ ready'

/-- A choice between two computations. -/
theorem Yields.elim {γ : Type} {r : α ⊕ β} {f : α → StateM Bus γ} {g : β → StateM Bus γ} {x : α → γ} {y : β → γ} {P : γ → Prop}
    (left : ∀ a, r = .inl a → Yields m (f a) (x a) ∧ P (x a)) (right : ∀ b, r = .inr b → Yields m (g b) (y b) ∧ P (y b)) :
    Yields m (r.elim f g) (r.elim x y) ∧ P (r.elim x y) := by
  cases r with
  | inl a => exact left a rfl
  | inr b => exact right b rfl

/-- A call that ends with the computation. -/
theorem Yields.returns (P : α → Prop) {p : StateM Bus α} {y : α} (yields : Yields m p y ∧ P y) {b : Bus} (ready : b.Ready m) :
    ∃ b', b'.Ready m ∧ some (p b) = (some y).map (·, b') ∧ ∀ r, some y = some r → P r := by
  obtain ⟨rfl, ready'⟩ := yields.1 b ready
  exact ⟨_, ready', rfl, fun r same => Option.some.inj same ▸ yields.2⟩

/-- **A sector comes as the chip holds it**. -/
theorem diskReadOn_yields {count : Nat} {buff : List Byte} (room : 4096 * count ≤ buff.length) (sector : Nat) :
    Yields m (diskReadOn sector count buff) (diskRead m sector count) := by
  intro b ready
  obtain ⟨ready', read⟩ := diskReadBus_ready ready sector count 0 buff room
  exact ⟨read, ready'⟩

theorem diskRead_hasSector (m : Mem) (sector : Nat) : HasSector (diskRead m sector 1) :=
  Nat.le_of_eq (length_diskRead m sector 1).symm

theorem moveWindowOn_yields (room : HasSector fs.win) (sect : Nat) :
    Yields m (moveWindowOn sect fs) (moveWindow m sect fs) ∧ HasSector (moveWindow m sect fs).win := by
  unfold moveWindowOn moveWindow
  split
  · have read : Yields m (diskReadOn sect 1 fs.win) (diskRead m sect 1) := diskReadOn_yields room sect
    have long := diskRead_hasSector m sect
    revert read long
    generalize diskRead m sect 1 = win
    exact fun read long => ⟨read.bind (.pure _), long⟩
  · exact ⟨.pure _, room⟩

theorem getFatOn_yields (room : HasSector fs.win) (clst : Nat) :
    Yields m (getFatOn clst fs) (getFat m clst fs) ∧ HasSector (getFat m clst fs).2.win := by
  unfold getFatOn getFat
  by_cases outside : clst < 2 ∨ fs.nFatent ≤ clst
  · rw [if_pos outside, if_pos outside]
    exact ⟨.pure _, room⟩
  rw [if_neg outside, if_neg outside]
  cases fs.fsType with
  | none => exact ⟨.pure _, room⟩
  | some type =>
    cases type with
    | fat12 =>
      obtain ⟨first, room'⟩ := @moveWindowOn_yields m fs room (u32 (fs.fatbase + (clst + clst / 2) / fs.ssize))
      obtain ⟨second, room''⟩ := @moveWindowOn_yields m _ room' (u32
        ((moveWindow m (u32 (fs.fatbase + (clst + clst / 2) / fs.ssize)) fs).fatbase + (clst + clst / 2 + 1) /
          (moveWindow m (u32 (fs.fatbase + (clst + clst / 2) / fs.ssize)) fs).ssize))
      exact ⟨first.bind (second.bind (.pure _)), room''⟩
    | fat16 =>
      obtain ⟨first, room'⟩ := @moveWindowOn_yields m fs room (u32 (fs.fatbase + clst / (fs.ssize / 2)))
      exact ⟨first.bind (.pure _), room'⟩
    | fat32 =>
      obtain ⟨first, room'⟩ := @moveWindowOn_yields m fs room (u32 (fs.fatbase + clst / (fs.ssize / 4)))
      exact ⟨first.bind (.pure _), room'⟩

/-- What a loop that uses the bus returns. -/
theorem loopOn_yields {σ α : Type} {body : σ → StateM Bus (σ ⊕ α)} {pass : σ → Option (σ ⊕ α)} (Inv : σ → Prop) (Post : α → Prop)
    (round : ∀ s, Inv s → ∃ r, pass s = some r ∧ Yields m (body s) r ∧ r.elim Inv Post) (fuel : Nat) :
    ∀ {s : σ} {b : Bus}, Inv s → b.Ready m → ∃ b', b'.Ready m ∧ loopOn body fuel s b = (Loop.exec pass fuel s).map (·, b') ∧
      ∀ a, Loop.exec pass fuel s = some a → Post a := by
  induction fuel with
  | zero => exact fun _ ready => ⟨_, ready, rfl, fun _ run => by cases run⟩
  | succ fuel ih =>
    intro s b inv ready
    obtain ⟨r, goes, yields, holds⟩ := round s inv
    obtain ⟨same, ready'⟩ := yields b ready
    cases r with
    | inl s' =>
      obtain ⟨b', last, eq, post⟩ := ih holds ready'
      refine ⟨b', last, ?_, fun a run => post a (by rwa [Loop.exec_again goes] at run)⟩
      rw [Loop.exec_again goes, ← eq, loopOn, loopOn]
      exact Loop.exec_again (by rw [same]; rfl)
    | inr a =>
      refine ⟨(body s b).2, ready', ?_, fun a' run => ?_⟩
      · rw [Loop.exec_leave goes, loopOn]
        exact Loop.exec_leave (by rw [same]; rfl)
      · rw [Loop.exec_leave goes] at run
        obtain rfl := Option.some.inj run
        exact holds

end Yields

/-! ## `f_read` -/

section Reads

variable {m : Mem} {fs : FATFS} {fp : FIL}

/-- Where a round ends there is room again. -/
def Reading.Roomy (r : Reading ⊕ (FRESULT × Reading)) : Prop :=
  r.elim (fun s => Room s.fs s.fp) fun r => Room r.2.fs r.2.fp

theorem Room.keep (room : Room fs fp) {fp' : FIL} (same : fp'.buf = fp.buf) : Room fs fp' := ⟨room.win, same ▸ room.buf⟩

theorem Room.load (room : Room fs fp) {buf : List Byte} (long : HasSector buf) (sect : Nat) :
    Room fs { fp with buf := buf, sect := sect } :=
  ⟨room.win, long⟩

theorem Reading.copy_roomy {btr : Nat} {out : List Byte} (room : Room fs fp) :
    Reading.Roomy (.inl (Reading.copy ⟨fs, fp, btr, out⟩)) :=
  ⟨room.win, room.buf⟩

theorem Reading.followOn_yields (s : Reading) (room : Room s.fs s.fp) :
    Yields m s.followOn (s.follow m) ∧ Reading.Roomy (s.follow m) := by
  obtain ⟨r, follow, yields, win⟩ : ∃ r, r = (if s.fp.fptr = 0 then (s.fp.sclust, s.fs) else getFat m s.fp.clust s.fs) ∧
      Yields m (if s.fp.fptr = 0 then Pure.pure (s.fp.sclust, s.fs) else getFatOn s.fp.clust s.fs) r ∧ HasSector r.2.win := by
    refine ⟨_, rfl, ?_⟩
    split
    · exact ⟨.pure _, room.win⟩
    · exact getFatOn_yields room.win s.fp.clust
  unfold Reading.follow Reading.followOn
  rw [← follow]
  refine ⟨yields.bind (.pure _), ?_⟩
  simp only [Reading.Roomy]
  split
  · exact ⟨win, room.buf⟩
  · split
    · exact ⟨win, room.buf⟩
    · exact ⟨win, room.buf⟩

theorem Reading.sectorOn_yields (rbuff : Mem) (csect : Nat) (s : Reading) (room : Room s.fs s.fp) :
    Yields m (s.sectorOn rbuff csect) (s.sector m csect) ∧ Reading.Roomy (s.sector m csect) := by
  unfold Reading.sectorOn Reading.sector
  simp only
  by_cases none : clst2sect s.fs.toVolume s.fp.clust = 0
  · rw [if_pos none, if_pos none]
    exact ⟨.pure _, room.win, room.buf⟩
  rw [if_neg none, if_neg none]
  by_cases whole : 0 < s.btr / s.fs.ssize
  · rw [if_pos whole, if_pos whole]
    obtain ⟨cc, count⟩ : ∃ cc, cc = if s.fs.csize < csect + s.btr / s.fs.ssize then s.fs.csize - csect else s.btr / s.fs.ssize :=
      ⟨_, rfl⟩
    rw [← count]
    have space : 4096 * cc ≤ (rbuff.read s.out.length (spiFlashSectorSize * cc)).length := by
      rw [Mem.length_read]
    have read := @diskReadOn_yields m cc _ space (u32 (clst2sect s.fs.toVolume s.fp.clust + csect))
    revert read
    generalize diskRead m (u32 (clst2sect s.fs.toVolume s.fp.clust + csect)) cc = data
    exact fun read => ⟨read.bind (.pure _), room.win, room.buf⟩
  · rw [if_neg whole, if_neg whole]
    by_cases other : s.fp.sect ≠ u32 (clst2sect s.fs.toVolume s.fp.clust + csect)
    · rw [if_pos other, if_pos other]
      have read := @diskReadOn_yields m 1 _ room.buf (u32 (clst2sect s.fs.toVolume s.fp.clust + csect))
      have long := diskRead_hasSector m (u32 (clst2sect s.fs.toVolume s.fp.clust + csect))
      revert read long
      generalize diskRead m (u32 (clst2sect s.fs.toVolume s.fp.clust + csect)) 1 = buf
      exact fun read long => ⟨read.bind (.pure _), Reading.copy_roomy (room.load long _)⟩
    · rw [if_neg other, if_neg other]
      have held : Yields m (Pure.pure s.fp.buf) s.fp.buf := .pure _
      exact ⟨held.bind (.pure _), Reading.copy_roomy (room.load room.buf _)⟩

theorem fReadPass_boundary {s : Reading} (more : s.btr ≠ 0) (boundary : s.fp.fptr % s.fs.ssize = 0) {csect : Nat}
    (place : s.fp.fptr / s.fs.ssize &&& (s.fs.csize - 1) = csect) :
    fReadPass m s = some ((if csect = 0 then s.follow m else .inl s).elim (fun s => s.sector m csect) .inr) := by
  rw [fReadPass, if_neg more, if_pos boundary, place]
  simp only
  cases if csect = 0 then s.follow m else .inl s with
  | inl s' => exact congrArg some (Sum.elim_inl (fun s => Reading.sector m csect s) .inr s').symm
  | inr r => exact congrArg some (Sum.elim_inr (fun s => Reading.sector m csect s) .inr r).symm

theorem fReadPassOn_yields (rbuff : Mem) (s : Reading) (room : Room s.fs s.fp) :
    ∃ r, fReadPass m s = some r ∧ Yields m (fReadPassOn rbuff s) r ∧ Reading.Roomy r := by
  unfold fReadPassOn
  by_cases done : s.btr = 0
  · rw [if_pos done]
    exact ⟨_, by rw [fReadPass, if_pos done], .pure _, room⟩
  rw [if_neg done]
  by_cases boundary : s.fp.fptr % s.fs.ssize = 0
  · rw [if_pos boundary]
    obtain ⟨csect, place⟩ : ∃ csect, s.fp.fptr / s.fs.ssize &&& (s.fs.csize - 1) = csect := ⟨_, rfl⟩
    obtain ⟨r, goes, yields, roomy⟩ : ∃ r, (if csect = 0 then s.follow m else .inl s) = r ∧
        Yields m (if csect = 0 then s.followOn else Pure.pure (.inl s)) r ∧ Reading.Roomy r := by
      refine ⟨_, rfl, ?_⟩
      split
      · exact Reading.followOn_yields s room
      · exact ⟨.pure _, room⟩
    have rest : Yields m (r.elim (fun s => s.sectorOn rbuff csect) fun r => Pure.pure (.inr r))
        (r.elim (fun s => s.sector m csect) .inr) ∧ Reading.Roomy (r.elim (fun s => s.sector m csect) .inr) := by
      refine Yields.elim (fun s' same => ?_) fun a same => ?_
      · rw [same] at roomy
        exact Reading.sectorOn_yields rbuff csect s' roomy
      · rw [same] at roomy
        exact ⟨.pure _, roomy⟩
    refine ⟨_, fReadPass_boundary done boundary place, ?_, ?_⟩
    · rw [goes]
      simp only [place]
      exact yields.bind rest.1
    · rw [goes]
      exact rest.2
  · rw [if_neg boundary]
    exact ⟨_, by rw [fReadPass, if_neg done, if_neg boundary], .pure _, Reading.copy_roomy room⟩

/-- **`f_read` over the bus**. -/
theorem fReadOn_yields (rbuff : Mem) (room : Room fs fp) (btr : Nat) {b : Bus} (ready : b.Ready m) :
    ∃ b', b'.Ready m ∧ fReadOn rbuff fs fp btr b = (fRead m fs fp btr).map (·, b') ∧
      ∀ r, fRead m fs fp btr = some r → Room r.2.2.1 r.2.2.2 := by
  have leave : ∀ res : FRESULT, Yields m (Pure.pure (res, ([] : List Byte), fs, fp)) (res, [], fs, fp) ∧ Room fs fp :=
    fun _ => ⟨.pure _, room⟩
  have stop {y : FRESULT × List Byte × FATFS × FIL} := @Yields.returns _ m (fun r => Room r.2.2.1 r.2.2.2) (Pure.pure y) y
  unfold fReadOn fRead
  simp only
  split
  · exact stop (leave _) ready
  split
  · exact stop (leave _) ready
  split
  · exact stop (leave _) ready
  · obtain ⟨b', ready', eq, post⟩ := loopOn_yields (fun s : Reading => Room s.fs s.fp)
      (fun r : FRESULT × Reading => Room r.2.fs r.2.fp) (fun s room => @fReadPassOn_yields m rbuff s room)
      (min btr (u32 (fp.objsize + 2 ^ 32 - fp.fptr)) + 1)
      (s := ⟨fs, fp, min btr (u32 (fp.objsize + 2 ^ 32 - fp.fptr)), []⟩) room ready
    refine ⟨b', ready', ?_, fun r same => ?_⟩
    · rw [eq, Option.map_map, Option.map_map]
      rfl
    · obtain ⟨a, run, rfl⟩ := Option.map_eq_some_iff.mp same
      exact post a run

end Reads

/-! ## `f_lseek` -/

section Seeks

variable {m : Mem} {fs : FATFS} {fp : FIL}

theorem fLseekPassOn_yields (s : Seeking) (room : Room s.fs s.fp) : ∃ r, fLseekPass m s = some r ∧ Yields m (fLseekPassOn s) r ∧
    r.elim (fun s => Room s.fs s.fp) fun r : FRESULT × Seeking => Room r.2.fs r.2.fp := by
  refine ⟨_, rfl, ?_⟩
  unfold fLseekPassOn
  by_cases further : s.fs.csize * s.fs.ssize < s.ofs
  · rw [if_pos further, if_pos further]
    obtain ⟨yields, win⟩ := @getFatOn_yields m s.fs room.win s.clst
    refine ⟨yields.bind (.pure _), ?_⟩
    simp only
    split
    · exact ⟨win, room.buf⟩
    · split
      · exact ⟨win, room.buf⟩
      · exact ⟨win, room.buf⟩
  · rw [if_neg further, if_neg further]
    exact ⟨.pure _, room.win, room.buf⟩

theorem fLseekEndOn_yields (nsect : Nat) (room : Room fs fp) :
    Yields m (fLseekEndOn nsect fs fp) (fLseekEnd m nsect fs fp) ∧ Room (fLseekEnd m nsect fs fp).2.1 (fLseekEnd m nsect fs fp).2.2 := by
  unfold fLseekEndOn fLseekEnd
  split
  · have read : Yields m (diskReadOn nsect 1 fp.buf) (diskRead m nsect 1) := diskReadOn_yields room.buf nsect
    have long := diskRead_hasSector m nsect
    revert read long
    generalize diskRead m nsect 1 = buf
    exact fun read long => ⟨read.bind (.pure _), room.load long nsect⟩
  · exact ⟨.pure _, room⟩

/-- **`f_lseek` over the bus**. -/
theorem fLseekOn_yields (room : Room fs fp) (ofs : Nat) {b : Bus} (ready : b.Ready m) :
    ∃ b', b'.Ready m ∧ fLseekOn fs fp ofs b = (fLseek m fs fp ofs).map (·, b') ∧
      ∀ r, fLseek m fs fp ofs = some r → Room r.2.1 r.2.2 := by
  have stop {p : StateM Bus (FRESULT × FATFS × FIL)} {y : FRESULT × FATFS × FIL} :=
    @Yields.returns _ m (fun r => Room r.2.1 r.2.2) p y
  unfold fLseekOn fLseek
  simp only
  split
  · exact @stop (Pure.pure _) _ ⟨.pure _, room⟩ b ready
  split
  · exact @stop (Pure.pure _) _ ⟨.pure _, room⟩ b ready
  split
  · exact stop (@fLseekEndOn_yields m fs { fp with fptr := 0 } 0 (room.keep rfl)) ready
  split
  · exact ⟨b, ready, rfl, fun r same => by cases same⟩
  have start : Room (fLseekStart fs fp (min ofs fp.objsize)).fs (fLseekStart fs fp (min ofs fp.objsize)).fp := by
    unfold fLseekStart
    simp only
    split
    · exact room.keep rfl
    · exact room.keep rfl
  obtain ⟨b', ready', eq, post⟩ := loopOn_yields (fun s : Seeking => Room s.fs s.fp)
    (fun r : FRESULT × Seeking => Room r.2.fs r.2.fp) (fun s room => @fLseekPassOn_yields m s room)
    ((fLseekStart fs fp (min ofs fp.objsize)).ofs + 1) start ready
  rw [eq]
  cases run : Loop.exec (fLseekPass m) ((fLseekStart fs fp (min ofs fp.objsize)).ofs + 1) (fLseekStart fs fp (min ofs fp.objsize)) with
  | none => exact ⟨b', ready', rfl, fun r same => by cases same⟩
  | some r =>
    have left := post r run
    rw [Option.map_some, Option.map_some, Option.map_some]
    unfold fLseekLeaveOn
    refine stop ?_ ready'
    split
    · exact ⟨.pure _, left⟩
    · simp only
      split
      · exact fLseekEndOn_yields 0 (left.keep rfl)
      · split
        · exact ⟨.pure _, left.keep rfl⟩
        · exact fLseekEndOn_yields _ (left.keep rfl)

end Seeks

end OffLineProgrammer.Fatfs
