import OffLineProgrammer.Fatfs.Files
import OffLineProgrammer.Flm.Elf
import OffLineProgrammer.Target.Faithful

/-!
# The files of the programmer

Where the volume is in order, the reads of the two programs are what their models take them
for: `ReadDataFromFile` reads an FLM file as a file all of whose accesses succeed, and
`FLASH_SWD` programs the content of its file. Both hold of the reads over the bus.
-/

namespace OffLineProgrammer.Fatfs
set_option autoImplicit false
open OffLineProgrammer.Lib OffLineProgrammer.Storage

/-! ## FLM files -/

/-- `ReadDataFromFile` of `size` bytes, where `found` is what the path leads to: the return
value, the bytes in the variable, the volume and the object. -/
def readDataFromFile (m : Mem) (fs : FATFS) (found : Except FRESULT (List Byte)) (fp : FIL) (offset size : Nat) :
    Option (Int × List Byte × FATFS × FIL) := do
  let o := fOpen fs found fp
  if o.1 ≠ .ok then some (-1, [], fs, (fClose fs o.2).2)
  else
    let l ← fLseek m fs o.2 offset
    if l.1 ≠ .ok then some (-2, [], l.2.1, (fClose l.2.1 l.2.2).2)
    else
      let r ← fRead m l.2.1 l.2.2 size
      some (if r.1 ≠ .ok then -3 else 0, r.2.1, r.2.2.1, (fClose r.2.2.1 r.2.2.2).2)

/-- `ReadDataFromFile` over the bus. -/
def readDataFromFileOn (rbuff : Mem) (fs : FATFS) (found : Except FRESULT (List Byte)) (fp : FIL) (offset size : Nat) (b : Bus) :
    Option ((Int × List Byte × FATFS × FIL) × Bus) := do
  let o := fOpen fs found fp
  if o.1 ≠ .ok then some ((-1, [], fs, (fClose fs o.2).2), b)
  else
    let l ← fLseekOn fs o.2 offset b
    if l.1.1 ≠ .ok then some ((-2, [], l.1.2.1, (fClose l.1.2.1 l.1.2.2).2), l.2)
    else
      let r ← fReadOn rbuff l.1.2.1 l.1.2.2 size l.2
      some ((if r.1.1 ≠ .ok then -3 else 0, r.1.2.1, r.1.2.2.1, (fClose r.1.2.2.1 r.1.2.2.2).2), r.2)

section Flm

variable {m : Mem} {fs : FATFS} {dir : List Byte} {clusters : List Nat} {b : Bus}

theorem readDataFromFileOn_yields (rbuff : Mem) {found : Except FRESULT (List Byte)} {fp : FIL}
    (room : Room fs (fOpen fs found fp).2) (offset size : Nat) (ready : b.Ready m) : ∃ b', b'.Ready m ∧
      readDataFromFileOn rbuff fs found fp offset size b = (readDataFromFile m fs found fp offset size).map (·, b') := by
  unfold readDataFromFileOn readDataFromFile
  simp only
  split
  · exact ⟨b, ready, rfl⟩
  obtain ⟨b₁, ready₁, seek, room₁⟩ := fLseekOn_yields room offset ready
  rw [seek]
  cases sought : fLseek m fs (fOpen fs found fp).2 offset with
  | none => exact ⟨b₁, ready₁, rfl⟩
  | some l =>
    simp only [Option.map_some, Option.bind_eq_bind, Option.bind_some]
    split
    · exact ⟨b₁, ready₁, rfl⟩
    obtain ⟨b₂, ready₂, read, -⟩ := fReadOn_yields rbuff (room₁ l sought) size ready₁
    rw [read]
    refine ⟨b₂, ready₂, ?_⟩
    cases fRead m l.2.1 l.2.2 size with
    | none => rfl
    | some r => rfl

/-- `f_open` of a file that is there. -/
theorem fOpen_file (plain : (dir.getD 11 0).toNat &&& 0x10 = 0) (fp : FIL) :
    fOpen fs (.ok dir) fp = (.ok, fOpened fs dir fp.clust) := by
  simp only [fOpen, plain, ne_eq, not_true_eq_false, if_false]

/-- **An FLM file is read from the volume** as the parser takes it to be read: from any
offset, into any variable, and whatever the object and the window held before. Over a bus
that is ready it is read so too. -/
theorem readDataFromFile_whole (sound : fs.Sound) (coherent : fs.Coherent m)
    (file : Clusters m fs.toVolume (ldClust fs dir) (ldDword dir 28) clusters) (plain : (dir.getD 11 0).toNat &&& 0x10 = 0)
    (fp : FIL) (s : Flm.Site) (offset : Word) (buf : Flm.Cells) :
    ∃ data fs' fp', readDataFromFile m fs (.ok dir) fp offset.toNat buf.length = some (0, data, fs', fp') ∧
      (Flm.Media.whole (content m fs.toVolume clusters (ldDword dir 28))).readDataFromFile s offset buf =
        (0, (data.map fun b => ⟨b, some s⟩) ++ buf.drop data.length) ∧
      fs'.toVolume = fs.toVolume ∧ fs'.Coherent m ∧
      ∀ (rbuff : Mem) (b : Bus), b.Ready m → ∃ b', b'.Ready m ∧
        readDataFromFileOn rbuff fs (.ok dir) fp offset.toNat buf.length b = some ((0, data, fs', fp'), b') := by
  obtain ⟨bytes, whole⟩ : ∃ bytes, bytes = content m fs.toVolume clusters (ldDword dir 28) := ⟨_, rfl⟩
  have length : bytes.length = ldDword dir 28 := by
    rw [whole, length_content file]
  obtain ⟨fs₁, fp₁, seek, held₁, fptr⟩ := fLseek_place sound file (fOpened_held coherent fp.clust) offset.toNat
  obtain ⟨fs₂, fp₂, read, held₂, -⟩ := fRead_content sound file held₁ buf.length
  rw [← whole] at read ⊢
  have run : readDataFromFile m fs (.ok dir) fp offset.toNat buf.length =
      some (0, (bytes.drop fp₁.fptr).take buf.length, fs₂, (fClose fs₂ fp₂).2) := by
    simp only [readDataFromFile, fOpen_file plain]
    rw [if_neg (by decide), seek]
    simp only [Option.bind_eq_bind, Option.bind_some]
    rw [if_neg (by decide), read]
    rfl
  refine ⟨(bytes.drop fp₁.fptr).take buf.length, fs₂, (fClose fs₂ fp₂).2, run, ?_, held₂.volume, held₂.coherent, ?_⟩
  · have got : (Flm.Media.whole bytes).got s offset buf.length = min buf.length (bytes.length - offset.toNat) := by
      simp only [Flm.Media.got, Flm.Media.whole, Bool.and_self, if_true]
      omega
    have delivered : (bytes.drop fp₁.fptr).take buf.length = (bytes.drop offset.toNat).take (min buf.length (bytes.length - offset.toNat)) := by
      rw [← List.length_drop, ← List.take_eq_take_min, fptr, ← length]
      by_cases inside : offset.toNat ≤ bytes.length
      · rw [Nat.min_eq_left inside]
      · rw [Nat.min_eq_right (by omega), List.drop_length, List.drop_eq_nil_of_le (by omega)]
    have count : ((bytes.drop offset.toNat).take (min buf.length (bytes.length - offset.toNat))).length =
        min buf.length (bytes.length - offset.toNat) := by
      rw [List.length_take, List.length_drop]
      omega
    rw [delivered, count, Flm.Media.readDataFromFile, got]
    rfl
  · intro rbuff b ready
    have room : Room fs (fOpen fs (.ok dir) fp).2 := by
      rw [fOpen_file plain]
      exact Room.opened coherent dir fp.clust
    obtain ⟨b', ready', same⟩ := readDataFromFileOn_yields rbuff room offset.toNat buf.length ready
    exact ⟨b', ready', by rw [same, run, Option.map_some]⟩

set_option maxRecDepth 20000 in
/-- Four bytes are read across the end of the first cluster. -/
theorem readDataFromFile_small : ∃ data fs' fp' b',
    readDataFromFile smallDisk smallFs (.ok smallEntry) (fOpened smallFs [] 7) 4094 4 = some (0, data, fs', fp') ∧
    readDataFromFileOn (fun _ => 0xFF) smallFs (.ok smallEntry) (fOpened smallFs [] 7) 4094 4 smallBus =
      some ((0, data, fs', fp'), b') ∧
    (data.map fun b => (⟨b, some .header⟩ : Flm.Cell)) ++ (List.replicate 4 ⟨0, none⟩).drop data.length =
      [⟨4, some .header⟩, ⟨4, some .header⟩, ⟨3, some .header⟩, ⟨3, some .header⟩] := by
  obtain ⟨data, fs', fp', read, whole, -, -, bus⟩ := readDataFromFile_whole smallVolume_sound smallFs_coherent smallEntry_clusters
    (by decide) (fOpened smallFs [] 7) .header 4094 (List.replicate 4 ⟨0, none⟩)
  obtain ⟨b', -, same⟩ := bus (fun _ => 0xFF) smallBus smallBus_ready
  refine ⟨data, fs', fp', b', read, same, ?_⟩
  rw [smallEntry_content] at whole
  have cells : (Flm.Media.whole (List.replicate 4096 4#8 ++ List.replicate 904 3#8)).readDataFromFile .header 4094
      (List.replicate 4 ⟨0, none⟩) =
      (0, [⟨4, some .header⟩, ⟨4, some .header⟩, ⟨3, some .header⟩, ⟨3, some .header⟩]) := by decide +kernel
  rw [cells] at whole
  exact (Prod.mk.inj whole).2.symm

end Flm

/-! ## Files that are programmed -/

/-- The volume and the object after so many reads of `FLASH_SWD`. -/
def afterReads (m : Mem) (fs : FATFS) (fp : FIL) : Nat → Option (FATFS × FIL)
  | 0 => some (fs, fp)
  | n + 1 => do
    let s ← afterReads m fs fp n
    let r ← fRead m s.1 s.2 Target.dlSize
    some r.2.2

/-- The world in which `f_read` of the open file reads the volume. -/
def onVolume (W : Target.World) (m : Mem) (fs : FATFS) (fp : FIL) : Target.World :=
  { W with
    reads := fun n =>
      match (afterReads m fs fp n).bind fun s => fRead m s.1 s.2 Target.dlSize with
      | some r => ⟨r.2.1, r.1 ≠ .ok⟩
      | none => ⟨[], true⟩ }

/-- The volume, the object and the bus after so many reads of `FLASH_SWD`; `rbuff` is what its
buffer holds before each. -/
def afterReadsOn (rbuff : Nat → Mem) (fs : FATFS) (fp : FIL) (b : Bus) : Nat → Option ((FATFS × FIL) × Bus)
  | 0 => some ((fs, fp), b)
  | n + 1 => do
    let s ← afterReadsOn rbuff fs fp b n
    let r ← fReadOn (rbuff n) s.1.1 s.1.2 Target.dlSize s.2
    some (r.1.2.2, r.2)

/-- The world in which `f_read` of the open file reads over the bus. -/
def onBus (W : Target.World) (rbuff : Nat → Mem) (fs : FATFS) (fp : FIL) (b : Bus) : Target.World :=
  { W with
    reads := fun n =>
      ((afterReadsOn rbuff fs fp b n).bind fun s => fReadOn (rbuff n) s.1.1 s.1.2 Target.dlSize s.2).elim ⟨[], true⟩ fun r =>
        ⟨r.1.2.1, r.1.1 ≠ .ok⟩ }

section Programmed

variable {m : Mem} {vol : Volume} {start size : Nat} {clusters : List Nat} {fs : FATFS} {fp : FIL} {b : Bus} {W : Target.World}

/-- Reads one after the other move through the file. -/
theorem afterReads_held (sound : vol.Sound) (file : Clusters m vol start size clusters)
    (held : Held m vol start size clusters fs fp) (top : fp.fptr = 0) (n : Nat) :
    ∃ fs' fp', afterReads m fs fp n = some (fs', fp') ∧ Held m vol start size clusters fs' fp' ∧
      fp'.fptr = min (Target.dlSize * n) size := by
  induction n with
  | zero => exact ⟨fs, fp, rfl, held, by omega⟩
  | succ n ih =>
    obtain ⟨fs₁, fp₁, before, held₁, fptr₁⟩ := ih
    obtain ⟨fs₂, fp₂, read, held₂, fptr₂⟩ := fRead_content sound file held₁ Target.dlSize
    refine ⟨fs₂, fp₂, ?_, held₂, ?_⟩
    · simp only [afterReads, before, Option.bind_eq_bind, Option.bind_some, read]
    · rw [fptr₂, fptr₁, Nat.mul_succ]
      omega

/-- **`f_read` delivers the file in order**. -/
theorem onVolume_delivers (sound : vol.Sound) (file : Clusters m vol start size clusters)
    (held : Held m vol start size clusters fs fp) (top : fp.fptr = 0) :
    (onVolume W m fs fp).Delivers (content m vol clusters size) := by
  intro n
  have length := length_content file
  obtain ⟨fs₁, fp₁, before, held₁, fptr₁⟩ := afterReads_held sound file held top n
  obtain ⟨fs₂, fp₂, read, -, -⟩ := fRead_content sound file held₁ Target.dlSize
  have place : (content m vol clusters size).drop fp₁.fptr = (content m vol clusters size).drop (Target.dlSize * n) := by
    by_cases inside : Target.dlSize * n ≤ size
    · rw [fptr₁, Nat.min_eq_left inside]
    · rw [fptr₁, Nat.min_eq_right (by omega), List.drop_eq_nil_of_le (by omega), List.drop_eq_nil_of_le (by omega)]
  rw [place] at read
  simp only [onVolume, before, Option.bind_some, read]
  rfl

theorem afterReadsOn_ready (rbuff : Nat → Mem) (room : Room fs fp) (ready : b.Ready m) (n : Nat) :
    ∃ b', b'.Ready m ∧ afterReadsOn rbuff fs fp b n = (afterReads m fs fp n).map (·, b') ∧
      ∀ s, afterReads m fs fp n = some s → Room s.1 s.2 := by
  induction n with
  | zero => exact ⟨b, ready, rfl, fun s same => Option.some.inj same ▸ room⟩
  | succ n ih =>
    obtain ⟨b₁, ready₁, before, room₁⟩ := ih
    cases start : afterReads m fs fp n with
    | none =>
      rw [start] at before
      refine ⟨b₁, ready₁, ?_, fun s same => ?_⟩
      · rw [afterReadsOn, before, afterReads, start]
        rfl
      · rw [afterReads, start] at same
        cases same
    | some s =>
      rw [start] at before
      obtain ⟨b₂, ready₂, read, room₂⟩ := fReadOn_yields (rbuff n) (room₁ s start) Target.dlSize ready₁
      refine ⟨b₂, ready₂, ?_, fun t same => ?_⟩
      · rw [afterReadsOn, before, afterReads, start]
        change (fReadOn (rbuff n) s.1 s.2 Target.dlSize b₁).bind _ = Option.map _ ((fRead m s.1 s.2 Target.dlSize).bind _)
        rw [read]
        cases fRead m s.1 s.2 Target.dlSize with
        | none => rfl
        | some r => rfl
      · rw [afterReads, start] at same
        change (fRead m s.1 s.2 Target.dlSize).bind _ = some t at same
        obtain ⟨r, run, rest⟩ := Option.bind_eq_some_iff.mp same
        rw [← Option.some.inj rest]
        exact room₂ r run

/-- **What `FLASH_SWD` reads over the bus** is what it reads of the chip's bytes. -/
theorem onBus_onVolume (rbuff : Nat → Mem) (room : Room fs fp) (ready : b.Ready m) :
    onBus W rbuff fs fp b = onVolume W m fs fp := by
  have reads : (onBus W rbuff fs fp b).reads = (onVolume W m fs fp).reads := by
    funext n
    obtain ⟨b', ready', before, room'⟩ := afterReadsOn_ready rbuff room ready n
    simp only [onBus, onVolume, before]
    cases start : afterReads m fs fp n with
    | none => rfl
    | some s =>
      obtain ⟨b₂, -, read, -⟩ := fReadOn_yields (rbuff n) (room' s start) Target.dlSize ready'
      simp only [Option.map_some, Option.bind_some, read]
      cases fRead m s.1 s.2 Target.dlSize with
      | none => rfl
      | some r => rfl
  unfold onBus onVolume at reads ⊢
  simp only at reads ⊢
  rw [reads]

/-- **From the volume to the target**: a run of `FLASH_SWD` that returns 1 leaves every byte
of the file, as the clusters of the volume hold it, in the flash of the target. Over a bus
that is ready the run is the same. -/
theorem flashSwd_programs_volume (sound : fs.Sound) (coherent : fs.Coherent m) {dir : List Byte}
    (file : Clusters m fs.toVolume (ldClust fs dir) (ldDword dir 28) clusters) {t : Target.ProgramTarget} {fuel clust : Nat}
    {heap : Mem} {g g' : Target.Rig} (erases : W.Erases t) (programs : W.Programs t) (whole : t.pageSize ∣ Target.dlSize)
    (returned : Target.flashSwd (onVolume W m fs (fOpened fs dir clust)) t fuel heap g = some (1, g')) :
    (∀ k < ldDword dir 28,
      (content m fs.toVolume clusters (ldDword dir 28))[k]? = some (g'.chip.flash (0x8000000 + BitVec.ofNat 32 k))) ∧
    ∀ (rbuff : Nat → Mem) (b : Bus), b.Ready m →
      Target.flashSwd (onBus W rbuff fs (fOpened fs dir clust) b) t fuel heap g = some (1, g') := by
  have length := length_content file
  have small : (content m fs.toVolume clusters (ldDword dir 28)).length < 2 ^ 32 := by
    rw [length]
    exact file.small
  have delivers := onVolume_delivers (W := W) sound file (fOpened_held coherent clust) rfl
  refine ⟨fun k inside => ?_, fun rbuff b ready => ?_⟩
  · have programmed := Target.flashSwd_programs_file _ t _ fuel heap g g' small delivers erases programs whole returned k (by omega)
    rw [programmed, List.getElem?_eq_getElem]
  · rw [onBus_onVolume rbuff (Room.opened coherent dir clust) ready, returned]

/-- In a world without failures nothing is left of the volume but the content. -/
theorem onVolume_ideal (sound : vol.Sound) (file : Clusters m vol start size clusters)
    (held : Held m vol start size clusters fs fp) (top : fp.fptr = 0) (t : Target.ProgramTarget) :
    onVolume (Target.idealWorld t []) m fs fp = Target.idealWorld t (content m vol clusters size) := by
  have reads : (onVolume (Target.idealWorld t []) m fs fp).reads = (Target.idealWorld t (content m vol clusters size)).reads :=
    funext fun n => (onVolume_delivers sound file held top n).trans (Target.idealWorld_delivers n).symm
  simp only [onVolume, Target.idealWorld] at reads ⊢
  rw [reads]

set_option maxRecDepth 20000 in
/-- The file of two clusters is programmed with pages of 512 bytes. -/
theorem flashSwd_programs_small : ∃ g', Target.flashSwd
      (onVolume (Target.idealWorld (Target.sampleTarget 512) []) smallDisk smallFs (fOpened smallFs smallEntry 0))
      (Target.sampleTarget 512) 8 (fun _ => 0) Target.restingRig = some (1, g') ∧
    Target.flashSwd (onBus (Target.idealWorld (Target.sampleTarget 512) []) (fun _ _ => 0xFF) smallFs
      (fOpened smallFs smallEntry 0) smallBus) (Target.sampleTarget 512) 8 (fun _ => 0) Target.restingRig = some (1, g') ∧
    g'.chip.flash 0x8000FFF = 4 ∧ g'.chip.flash 0x8001000 = 3 := by
  have world : onVolume (Target.idealWorld (Target.sampleTarget 512) []) smallDisk smallFs (fOpened smallFs smallEntry 0) =
      Target.idealWorld (Target.sampleTarget 512) (content smallDisk smallFs.toVolume [3, 2] (ldDword smallEntry 28)) :=
    onVolume_ideal smallVolume_sound smallEntry_clusters (fOpened_held smallFs_coherent 0) rfl (Target.sampleTarget 512)
  have run : ∃ g', Target.flashSwd (Target.idealWorld (Target.sampleTarget 512)
      (List.replicate 4096 4#8 ++ List.replicate 904 3#8)) (Target.sampleTarget 512) 8 (fun _ => 0) Target.restingRig =
      some (1, g') := ⟨_, rfl⟩
  obtain ⟨g', returned⟩ := run
  rw [← smallEntry_content, ← world] at returned
  obtain ⟨programmed, bus⟩ := flashSwd_programs_volume smallVolume_sound smallFs_coherent smallEntry_clusters Target.idealWorld_erases
    (Target.idealWorld_programs (by decide)) (by decide) returned
  rw [smallEntry_content] at programmed
  have last : (List.replicate 4096 4#8 ++ List.replicate 904 3#8)[4095]? = some 4 := by decide +kernel
  have next : (List.replicate 4096 4#8 ++ List.replicate 904 3#8)[4096]? = some 3 := by decide +kernel
  exact ⟨g', returned, bus _ _ smallBus_ready, Option.some.inj ((programmed 4095 (by decide)).symm.trans last),
    Option.some.inj ((programmed 4096 (by decide)).symm.trans next)⟩

end Programmed

end OffLineProgrammer.Fatfs
