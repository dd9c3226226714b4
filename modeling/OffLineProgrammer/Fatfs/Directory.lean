import OffLineProgrammer.Fatfs.Mount
import OffLineProgrammer.Fatfs.Reading

/-!
# Directories, from ff.c

A path is followed by looking for each of its names in a directory: the root of the volume,
which has a place of its own or a chain of clusters, or another, which has a chain. `dir_find`
goes from entry to entry through the window and compares long and short names. Whatever the
directory, it is one scan of the list of its entries.
-/

namespace OffLineProgrammer.Fatfs
set_option autoImplicit false
open OffLineProgrammer.Lib OffLineProgrammer.Storage
open OffLineProgrammer.Lib.Linked (Chain)

/-- `DIR`; `dir` is the place of the entry in the window. -/
structure DIR where
  sclust : Nat
  fn : List Byte
  dptr : Nat
  clust : Nat
  sect : Nat
  dir : Nat

/-- `MAX_DIR` -/
def maxDir : Nat := 0x200000

/-! ## Walking -/

/-- The variables of the loop of `dir_sdi`. -/
structure Rewinding where
  fs : FATFS
  clst : Nat
  ofs : Nat

/-- One round of the loop of `dir_sdi`. -/
def dirSdiPass (m : Mem) (s : Rewinding) : Option (Rewinding ⊕ (FRESULT × Rewinding)) :=
  let csz := s.fs.csize * s.fs.ssize
  some <|
    if csz ≤ s.ofs then
      let r := getFat m s.clst s.fs
      let s := { s with fs := r.2, clst := r.1 }
      if r.1 = 0xFFFFFFFF then .inr (.diskErr, s)
      else if r.1 < 2 ∨ s.fs.nFatent ≤ r.1 then .inr (.intErr, s)
      else .inl { s with ofs := s.ofs - csz }
    else .inr (.ok, s)

/-- The end of `dir_sdi`. -/
def dirSdiEnd (clst sect ofs : Nat) (fs : FATFS) (dp : DIR) : FRESULT × FATFS × DIR :=
  if sect = 0 then (.intErr, fs, { dp with clust := clst, sect := 0 })
  else (.ok, fs, { dp with clust := clst, sect := u32 (sect + ofs / fs.ssize), dir := ofs % fs.ssize })

/-- The first cluster of a directory, 0 if it is a root with a place of its own. -/
def dirStart (vol : Volume) (sclust : Nat) : Nat := if sclust = 0 ∧ vol.fsType = some .fat32 then vol.dirbase else sclust

/-- `dir_sdi` -/
def dirSdi (m : Mem) (ofs : Nat) (fs : FATFS) (dp : DIR) : Option (FRESULT × FATFS × DIR) :=
  if maxDir ≤ ofs ∨ ofs % 32 ≠ 0 then some (.intErr, fs, dp)
  else
    let dp := { dp with dptr := ofs }
    let clst := dirStart fs.toVolume dp.sclust
    if clst = 0 then
      if fs.nRootdir ≤ ofs / 32 then some (.intErr, fs, dp) else some (dirSdiEnd 0 fs.dirbase ofs fs dp)
    else
      (Loop.exec (dirSdiPass m) (ofs + 1) ⟨fs, clst, ofs⟩).map fun r =>
        let s := r.2
        if r.1 ≠ .ok then (r.1, s.fs, dp) else dirSdiEnd s.clst (clst2sect s.fs.toVolume s.clst) s.ofs s.fs dp

/-- `dir_next`, for a table that is not stretched. -/
def dirNext (m : Mem) (fs : FATFS) (dp : DIR) : FRESULT × FATFS × DIR :=
  let ofs := u32 (dp.dptr + 32)
  let sect := if maxDir ≤ ofs then 0 else dp.sect
  let here := { dp with dptr := ofs, dir := ofs % fs.ssize }
  if sect = 0 then (.noFile, fs, { dp with sect := 0 })
  else if ofs % fs.ssize = 0 then
    let sect := u32 (sect + 1)
    if dp.clust = 0 then
      if fs.nRootdir ≤ ofs / 32 then (.noFile, fs, { dp with sect := 0 }) else (.ok, fs, { here with sect := sect })
    else if ofs / fs.ssize &&& (fs.csize - 1) = 0 then
      let r := getFat m dp.clust fs
      if r.1 ≤ 1 then (.intErr, r.2, { dp with sect := sect })
      else if r.1 = 0xFFFFFFFF then (.diskErr, r.2, { dp with sect := sect })
      else if r.2.nFatent ≤ r.1 then (.noFile, r.2, { dp with sect := 0 })
      else (.ok, r.2, { here with clust := r.1, sect := clst2sect r.2.toVolume r.1 })
    else (.ok, fs, { here with sect := sect })
  else (.ok, fs, here)

/-! ## Names -/

/-- `LfnOfs` -/
def lfnOfs : List Nat := [1, 3, 5, 7, 9, 14, 16, 18, 20, 22, 24, 28, 30]

/-- The loop of `cmp_lfn` over the characters of an entry: it does not match, or the last
character and the place in the name. -/
def cmpLfnLoop (wtoupper : Nat → Nat) (lfnbuf : List Nat) (dir : List Byte) : List Nat → Nat → Nat → Option (Nat × Nat)
  | [], wc, i => some (wc, i)
  | ofs :: rest, wc, i =>
    let uc := ldWord dir ofs
    if wc ≠ 0 then
      if 256 ≤ i ∨ wtoupper uc ≠ wtoupper (lfnbuf.getD i 0) then none else cmpLfnLoop wtoupper lfnbuf dir rest uc (i + 1)
    else if uc ≠ 0xFFFF then none
    else cmpLfnLoop wtoupper lfnbuf dir rest wc i

/-- `cmp_lfn`: the part of a long name in an entry; `wtoupper` is `ff_wtoupper`. -/
def cmpLfn (wtoupper : Nat → Nat) (lfnbuf : List Nat) (dir : List Byte) : Bool :=
  let ord := dir.getD 0 0
  let i := u32 (((ord &&& 0x3F).toNat + 2 ^ 32 - 1) * 13)
  ldWord dir 26 = 0 ∧
    (cmpLfnLoop wtoupper lfnbuf dir lfnOfs 1 i).elim false fun r => ¬ (ord &&& 0x40 ≠ 0 ∧ r.1 ≠ 0 ∧ lfnbuf.getD r.2 0 ≠ 0)

/-- `sum_sfn` -/
def sumSfn (dir : List Byte) : Byte := (dir.take 11).foldl (fun sum c => (sum >>> 1) + (sum <<< 7) + c) 0

/-- What `dir_find` keeps of the entries before: `obj.attr` and `blk_ofs` of the object, and
its variables `ord` and `sum`. -/
structure Scan where
  attr : Byte
  blkOfs : Nat
  ord : Byte
  sum : Byte
  deriving DecidableEq

/-- `ord = 0xFF; dp->blk_ofs = 0xFFFFFFFF` -/
def Scan.reset (s : Scan) : Scan := { s with ord := 0xFF, blkOfs := 0xFFFFFFFF }

/-- An entry with a part of a long name. -/
def Scan.long (wtoupper : Nat → Nat) (lfnbuf : List Nat) (dptr : Nat) (dir : List Byte) (s : Scan) : Scan :=
  let first := dir.getD 0 0 &&& 0x40 ≠ 0
  let c := if first then dir.getD 0 0 &&& 0xBF else dir.getD 0 0
  let s := if first then { s with sum := dir.getD 13 0, ord := c, blkOfs := dptr } else s
  { s with ord := if c = s.ord ∧ s.sum = dir.getD 13 0 ∧ cmpLfn wtoupper lfnbuf dir = true then s.ord - 1 else 0xFF }

/-- What `dir_find` does with an entry: it goes on, or leaves because it is the one or the
mark of the end. -/
def scanEntry (wtoupper : Nat → Nat) (lfnbuf : List Nat) (fn : List Byte) (dptr : Nat) (dir : List Byte) (s : Scan) :
    Scan ⊕ (FRESULT × Scan) :=
  let c := dir.getD 0 0
  let a := dir.getD 11 0 &&& 0x3F
  if c = 0 then .inr (.noFile, s)
  else
    let s := { s with attr := a }
    if c = 0xE5 ∨ (a &&& 0x08 ≠ 0 ∧ a ≠ 0x0F) then .inl s.reset
    else if a = 0x0F then
      .inl (if fn.getD 11 0 &&& 0x40 = 0 then s.long wtoupper lfnbuf dptr dir else s)
    else if s.ord = 0 ∧ s.sum = sumSfn dir then .inr (.ok, s)
    else if fn.getD 11 0 &&& 0x01 = 0 ∧ dir.take 11 = fn.take 11 then .inr (.ok, s)
    else .inl s.reset

/-! ## Finding -/

/-- The variables of the loop of `dir_find`. -/
structure Searching where
  fs : FATFS
  dp : DIR
  scan : Scan

/-- The entry that the object points to. -/
def entryAt (fs : FATFS) (dp : DIR) : List Byte := (fs.win.drop dp.dir).take 32

/-- One round of the loop of `dir_find`. -/
def dirFindPass (m : Mem) (wtoupper : Nat → Nat) (lfnbuf : List Nat) (s : Searching) :
    Option (Searching ⊕ (FRESULT × Searching)) :=
  let fs := moveWindow m s.dp.sect s.fs
  match scanEntry wtoupper lfnbuf s.dp.fn s.dp.dptr (entryAt fs s.dp) s.scan with
  | .inr r => some (.inr (r.1, ⟨fs, s.dp, r.2⟩))
  | .inl scan =>
    let r := dirNext m fs s.dp
    some (if r.1 = .ok then .inl ⟨r.2.1, r.2.2, scan⟩ else .inr (r.1, ⟨r.2.1, r.2.2, scan⟩))

/-- `dir_find`: the loop ends at `MAX_DIR` at the latest. -/
def dirFind (m : Mem) (wtoupper : Nat → Nat) (lfnbuf : List Nat) (fs : FATFS) (dp : DIR) (attr : Byte) (blkOfs : Nat) :
    Option (FRESULT × Searching) :=
  (dirSdi m 0 fs dp).bind fun r =>
    if r.1 ≠ .ok then some (r.1, ⟨r.2.1, r.2.2, ⟨attr, blkOfs, 0, 0⟩⟩)
    else Loop.exec (dirFindPass m wtoupper lfnbuf) (maxDir / 32) ⟨r.2.1, r.2.2, ⟨attr, 0xFFFFFFFF, 0xFF, 0xFF⟩⟩

/-! ## What a directory is -/

/-- The sectors of a directory: those of the root's own place, or of its clusters. -/
def dirSectors (vol : Volume) (clusters : List Nat) : List Nat :=
  if clusters = [] then (List.range (vol.nRootdir / 128)).map (vol.dirbase + ·)
  else clusters.flatMap fun c => (List.range vol.csize).map (clst2sect vol c + ·)

/-- The entries of a sector. -/
def sectorEntries (m : Mem) (sector : Nat) : List (List Byte) :=
  (List.range 128).map fun j => ((diskSector m sector).drop (32 * j)).take 32

/-- The entries of a directory. -/
def dirEntries (m : Mem) (vol : Volume) (clusters : List Nat) : List (List Byte) :=
  ((dirSectors vol clusters).flatMap (sectorEntries m)).take (maxDir / 32)

/-- The scan of a list of entries: what it ends with, and at which entry. -/
def findEntry (wtoupper : Nat → Nat) (lfnbuf : List Nat) (fn : List Byte) : List (List Byte) → Nat → Scan → FRESULT × Nat × Scan
  | [], i, s => (.noFile, i, s)
  | dir :: dirs, i, s =>
    match scanEntry wtoupper lfnbuf fn (32 * i) dir s with
    | .inr r => (r.1, i, r.2)
    | .inl s => findEntry wtoupper lfnbuf fn dirs (i + 1) s

/-- The clusters of a directory, none for a root with a place of its own. -/
structure Directory (m : Mem) (vol : Volume) (sclust : Nat) (clusters : List Nat) : Prop where
  chain : Chain (nextCluster m vol) (vol.cluster? (dirStart vol sclust)) clusters
  ends : ∀ c, clusters.getLast? = some c → vol.nFatent ≤ fatEntry m vol c
  static : clusters = [] → dirStart vol sclust = 0 ∧ vol.fsType ≠ some .fat32

/-! ## Where the object stands -/

/-- The object is at an entry of the directory. -/
structure Standing (m : Mem) (vol : Volume) (clusters : List Nat) (i : Nat) (fs : FATFS) (dp : DIR) : Prop where
  volume : fs.toVolume = vol
  coherent : fs.Coherent m
  inside : i < maxDir / 32
  dptr : dp.dptr = 32 * i
  dir : dp.dir = 32 * (i % 128)
  sect : (dirSectors vol clusters)[i / 128]? = some dp.sect
  static : clusters = [] → dp.clust = 0
  dynamic : clusters ≠ [] → clusters[i / 128 / vol.csize]? = some dp.clust

section Sectors

variable {m : Mem} {vol : Volume} {limit sclust n i j k c sect : Nat} {clusters : List Nat} {fs : FATFS} {dp : DIR}

theorem fatEntry_lt (m : Mem) (vol : Volume) (c : Nat) : fatEntry m vol c < 2 ^ 28 := by
  unfold fatEntry
  simp only
  split
  · have low := ((diskSector m (u32 (vol.fatbase + (c + c / 2) / vol.ssize))).getD ((c + c / 2) % vol.ssize) 0).isLt
    have high := ((diskSector m (u32 (vol.fatbase + (c + c / 2 + 1) / vol.ssize))).getD ((c + c / 2 + 1) % vol.ssize) 0).isLt
    split <;> omega
  · unfold ldWord
    have low := ((diskSector m (u32 (vol.fatbase + c / (vol.ssize / 2)))).getD (u32 (c * 2) % vol.ssize) 0).isLt
    have high := ((diskSector m (u32 (vol.fatbase + c / (vol.ssize / 2)))).getD (u32 (c * 2) % vol.ssize + 1) 0).isLt
    omega
  · exact Nat.mod_lt _ (by decide)
  · decide

/-- The clusters of a directory are a chain without a size. -/
theorem Directory.file (directory : Directory m vol sclust clusters) : Clusters m vol (dirStart vol sclust) 0 clusters :=
  ⟨directory.chain, Nat.zero_le _, by decide⟩

/-- A sector of the root's own place. -/
theorem dirSectors_static (less : n < vol.nRootdir / 128) : (dirSectors vol [])[n]? = some (vol.dirbase + n) := by
  rw [dirSectors, if_pos rfl, List.getElem?_map, List.getElem?_range less, Option.map_some]

/-- A sector of a cluster. -/
theorem dirSectors_dynamic (here : clusters[k]? = some c) (within : j < vol.csize) :
    (dirSectors vol clusters)[vol.csize * k + j]? = some (clst2sect vol c + j) := by
  have some : clusters ≠ [] := by
    rintro rfl
    cases here
  rw [dirSectors, if_neg some, Blocks.getElem?_blocks (fun _ _ => by rw [List.length_map, List.length_range]) here within,
    List.getElem?_map, List.getElem?_range within, Option.map_some]

/-- The first sector of a cluster. -/
theorem dirSectors_first (here : clusters[k]? = some c) (positive : 0 < vol.csize) :
    (dirSectors vol clusters)[vol.csize * k]? = some (clst2sect vol c) := by
  have first := dirSectors_dynamic here positive
  rwa [Nat.add_zero, Nat.add_zero] at first

theorem length_dirSectors (vol : Volume) (clusters : List Nat) :
    (dirSectors vol clusters).length = if clusters = [] then vol.nRootdir / 128 else vol.csize * clusters.length := by
  unfold dirSectors
  split
  · rw [List.length_map, List.length_range]
  · rw [Blocks.length_blocks fun _ _ => by rw [List.length_map, List.length_range]]

theorem Directory.place (laid : vol.Laid limit) (directory : Directory m vol sclust []) :
    0 < vol.nRootdir ∧ 0 < vol.dirbase ∧ vol.dirbase + vol.nRootdir / 128 ≤ 2 ^ 32 := by
  obtain ⟨-, type⟩ := directory.static rfl
  obtain ⟨positive, dirbase⟩ := laid.static type
  have reserved := laid.reserved
  have root := laid.root
  have fits := laid.fits
  exact ⟨positive, by omega, by omega⟩

/-- A sector of a directory has a number. -/
theorem Directory.sector (laid : vol.Laid limit) (directory : Directory m vol sclust clusters)
    (here : (dirSectors vol clusters)[n]? = some sect) : 0 < sect ∧ sect < 2 ^ 32 := by
  obtain ⟨less, -⟩ := List.getElem?_eq_some_iff.mp here
  rw [length_dirSectors] at less
  by_cases root : clusters = []
  · subst root
    rw [if_pos rfl] at less
    rw [dirSectors_static less] at here
    obtain rfl := Option.some.inj here
    obtain ⟨-, positive, small⟩ := directory.place laid
    omega
  · rw [if_neg root] at less
    have within : n % vol.csize < vol.csize := Nat.mod_lt _ laid.positive
    have known : n / vol.csize < clusters.length := Nat.div_lt_of_lt_mul less
    have cluster : clusters[n / vol.csize]? = some clusters[n / vol.csize] := List.getElem?_eq_getElem known
    have split := dirSectors_dynamic cluster within
    rw [Nat.div_add_mod, here] at split
    obtain rfl := Option.some.inj split
    obtain ⟨-, positive, room⟩ := clst2sect_cluster laid.toSound (directory.file.isCluster cluster)
    omega

/-! ## One step -/

/-- The place of an entry in its sector. -/
theorem entry_place (i : Nat) : 32 * i % 4096 = 32 * (i % 128) := by omega

theorem Standing.following (standing : Standing m vol clusters i fs dp) : u32 (dp.dptr + 32) = 32 * (i + 1) := by
  have max : maxDir = 0x200000 := rfl
  have inside := standing.inside
  rw [standing.dptr, u32_of_lt (by omega)]
  omega

/-- The next entry is not in the directory. -/
structure Ended (m : Mem) (vol : Volume) (clusters : List Nat) (i : Nat) (fs : FATFS) : Prop where
  volume : fs.toVolume = vol
  coherent : fs.Coherent m
  last : maxDir / 32 ≤ i + 1 ∨ (dirSectors vol clusters).length ≤ (i + 1) / 128

/-- On the boundary of a sector of the root's own place. -/
theorem dirNext_static (laid : vol.Laid limit) (directory : Directory m vol sclust []) (standing : Standing m vol [] i fs dp)
    (near : i + 1 < maxDir / 32) (boundary : (i + 1) % 128 = 0) :
    (∃ dp', dirNext m fs dp = (.ok, fs, dp') ∧ Standing m vol [] (i + 1) fs dp' ∧ dp'.fn = dp.fn) ∨
      ∃ dp', dirNext m fs dp = (.noFile, fs, dp') ∧ Ended m vol [] i fs := by
  have max : maxDir = 0x200000 := rfl
  have ssize := laid.mountedSize standing.volume
  have rootdir : fs.nRootdir = vol.nRootdir := congrArg Volume.nRootdir standing.volume
  obtain ⟨positive, -⟩ := directory.sector laid standing.sect
  obtain ⟨less, -⟩ := List.getElem?_eq_some_iff.mp standing.sect
  rw [length_dirSectors, if_pos rfl] at less
  have here := standing.sect
  rw [dirSectors_static less] at here
  have number := Option.some.inj here
  have index : (i + 1) / 128 = i / 128 + 1 := by omega
  have whole := laid.whole
  have step : dirNext m fs dp = if vol.nRootdir ≤ i + 1 then (.noFile, fs, { dp with sect := 0 }) else
      (.ok, fs, { dp with dptr := 32 * (i + 1), dir := 32 * (i + 1) % 4096, sect := u32 (dp.sect + 1) }) := by
    have far : ¬ maxDir ≤ 32 * (i + 1) := by omega
    simp only [dirNext, standing.following, ssize, rootdir]
    rw [if_neg far, if_neg (by omega), if_pos (by omega), if_pos (standing.static rfl), Nat.mul_div_cancel_left _ (by omega)]
  obtain ⟨-, -, room⟩ := directory.place laid
  by_cases last : vol.nRootdir ≤ i + 1
  · rw [if_pos last] at step
    refine .inr ⟨_, step, standing.volume, standing.coherent, .inr ?_⟩
    rw [length_dirSectors, if_pos rfl]
    omega
  · rw [if_neg last] at step
    refine .inl ⟨_, step, ⟨standing.volume, standing.coherent, near, rfl, ?_, ?_, fun _ => standing.static rfl,
      fun some => absurd rfl some⟩, rfl⟩
    · exact entry_place (i + 1)
    · change (dirSectors vol [])[(i + 1) / 128]? = some (u32 (dp.sect + 1))
      rw [index, dirSectors_static (by omega), ← number, u32_of_lt (by omega), Nat.add_assoc]

/-- The sector of the object is one of its cluster. -/
theorem Standing.sector (laid : vol.Laid limit) (standing : Standing m vol clusters i fs dp) (some : clusters ≠ []) :
    dp.sect = clst2sect vol dp.clust + i / 128 % vol.csize := by
  have number := dirSectors_dynamic (standing.dynamic some) (Nat.mod_lt (i / 128) laid.positive)
  rw [Nat.div_add_mod, standing.sect] at number
  exact Option.some.inj number

/-- On the boundary of a sector within a cluster. -/
theorem dirNext_within (laid : vol.Laid limit) (directory : Directory m vol sclust clusters) (some : clusters ≠ [])
    (standing : Standing m vol clusters i fs dp) (near : i + 1 < maxDir / 32) (boundary : (i + 1) % 128 = 0)
    (inner : (i / 128 + 1) % vol.csize ≠ 0) :
    ∃ dp', dirNext m fs dp = (.ok, fs, dp') ∧ Standing m vol clusters (i + 1) fs dp' ∧ dp'.fn = dp.fn := by
  have max : maxDir = 0x200000 := rfl
  have ssize := laid.mountedSize standing.volume
  have csize : fs.csize = vol.csize := congrArg Volume.csize standing.volume
  have here := standing.dynamic some
  have number := standing.sector laid some
  have is := directory.file.isCluster here
  obtain ⟨-, positive, room⟩ := clst2sect_cluster laid.toSound is
  obtain ⟨low, -⟩ := is
  have next : (i + 1) / 128 = i / 128 + 1 := by omega
  have index : 32 * (i + 1) / 4096 = i / 128 + 1 := by omega
  have step : dirNext m fs dp =
      (.ok, fs, { dp with dptr := 32 * (i + 1), dir := 32 * (i + 1) % 4096, sect := u32 (dp.sect + 1) }) := by
    have far : ¬ maxDir ≤ 32 * (i + 1) := by omega
    simp only [dirNext, standing.following, ssize, csize, laid.csect, index]
    rw [if_neg far, if_neg (by omega), if_pos (by omega), if_neg (by omega), if_neg inner]
  have same : (i / 128 + 1) / vol.csize = i / 128 / vol.csize := by
    rw [Nat.succ_div, if_neg fun divides => inner (Nat.mod_eq_zero_of_dvd divides), Nat.add_zero]
  have split := Nat.div_add_mod (i / 128) vol.csize
  have after : i / 128 % vol.csize + 1 < vol.csize := by
    have split' := Nat.div_add_mod (i / 128 + 1) vol.csize
    have below := Nat.mod_lt (i / 128 + 1) laid.positive
    rw [same] at split'
    omega
  refine ⟨_, step, ⟨standing.volume, standing.coherent, near, rfl, ?_, ?_, fun none => absurd none some, fun _ => ?_⟩, rfl⟩
  · exact entry_place (i + 1)
  · have second := dirSectors_dynamic here after
    rw [← Nat.add_assoc, split] at second
    change (dirSectors vol clusters)[(i + 1) / 128]? = Option.some (u32 (dp.sect + 1))
    rw [next, second, number, u32_of_lt (by omega), Nat.add_assoc]
  · rw [next, same]
    exact here

/-- On the boundary of a cluster: the next one of the chain, or its end. -/
theorem dirNext_linked (laid : vol.Laid limit) (directory : Directory m vol sclust clusters) (some : clusters ≠ [])
    (standing : Standing m vol clusters i fs dp) (near : i + 1 < maxDir / 32) (boundary : (i + 1) % 128 = 0)
    (last : (i / 128 + 1) % vol.csize = 0) :
    (∃ fs' dp', dirNext m fs dp = (.ok, fs', dp') ∧ Standing m vol clusters (i + 1) fs' dp' ∧ dp'.fn = dp.fn) ∨
      ∃ fs' dp', dirNext m fs dp = (.noFile, fs', dp') ∧ Ended m vol clusters i fs' := by
  have max : maxDir = 0x200000 := rfl
  have ssize := laid.mountedSize standing.volume
  have csize : fs.csize = vol.csize := congrArg Volume.csize standing.volume
  obtain ⟨positive, -⟩ := directory.sector laid standing.sect
  have here := standing.dynamic some
  have is := directory.file.isCluster here
  obtain ⟨value, coherent, volume⟩ := getFat_entry standing.coherent (standing.volume ▸ is)
  obtain ⟨low, -⟩ := is
  rw [standing.volume] at value volume
  have bound := fatEntry_lt m vol dp.clust
  have next : (i + 1) / 128 = i / 128 + 1 := by omega
  have index : 32 * (i + 1) / 4096 = i / 128 + 1 := by omega
  have quotient : (i / 128 + 1) / vol.csize = i / 128 / vol.csize + 1 := by
    rw [Nat.succ_div, if_pos (Nat.dvd_of_mod_eq_zero last)]
  have product : i / 128 + 1 = vol.csize * (i / 128 / vol.csize + 1) := by
    rw [← quotient, Nat.mul_div_cancel' (Nat.dvd_of_mod_eq_zero last)]
  have step : dirNext m fs dp =
      if fatEntry m vol dp.clust ≤ 1 then (.intErr, (getFat m dp.clust fs).2, { dp with sect := u32 (dp.sect + 1) })
      else if vol.nFatent ≤ fatEntry m vol dp.clust then (.noFile, (getFat m dp.clust fs).2, { dp with sect := 0 })
      else (.ok, (getFat m dp.clust fs).2, { dp with
        dptr := 32 * (i + 1), dir := 32 * (i + 1) % 4096, clust := fatEntry m vol dp.clust,
        sect := clst2sect vol (fatEntry m vol dp.clust) }) := by
    have far : ¬ maxDir ≤ 32 * (i + 1) := by omega
    have fine : ¬ fatEntry m vol dp.clust = 0xFFFFFFFF := by omega
    simp only [dirNext, standing.following, ssize, csize, laid.csect, index, value, volume]
    rw [if_neg far, if_neg (by omega), if_pos (by omega), if_neg (by omega), if_pos last, if_neg fine]
  cases there : clusters[i / 128 / vol.csize + 1]? with
  | none =>
    have length : clusters.length = i / 128 / vol.csize + 1 := by
      have upper := List.getElem?_eq_none_iff.mp there
      obtain ⟨lower, -⟩ := List.getElem?_eq_some_iff.mp here
      omega
    have final : clusters.getLast? = Option.some dp.clust := by
      rw [List.getLast?_eq_getElem?, length, Nat.add_sub_cancel, here]
    have laidOut := laid.nFatent
    have beyond := directory.ends _ final
    rw [if_neg (by omega), if_pos beyond] at step
    refine .inr ⟨_, _, step, volume, coherent, .inr ?_⟩
    rw [length_dirSectors, if_neg some, length, next, product]
  | some c =>
    obtain ⟨value', low', high'⟩ := directory.file.next here there
    rw [value', if_neg (by omega), if_neg (by omega)] at step
    refine .inl ⟨_, _, step, ⟨volume, coherent, near, rfl, ?_, ?_, fun none => absurd none some, fun _ => ?_⟩, rfl⟩
    · exact entry_place (i + 1)
    · dsimp only
      rw [next, product, dirSectors_first there laid.positive]
    · rw [next, quotient]
      exact there

/-- **`dir_next`** goes to the next entry of the directory, or says that there is none. -/
theorem dirNext_standing (laid : vol.Laid limit) (directory : Directory m vol sclust clusters)
    (standing : Standing m vol clusters i fs dp) :
    (∃ fs' dp', dirNext m fs dp = (.ok, fs', dp') ∧ Standing m vol clusters (i + 1) fs' dp' ∧ dp'.fn = dp.fn) ∨
      ∃ fs' dp', dirNext m fs dp = (.noFile, fs', dp') ∧ Ended m vol clusters i fs' := by
  have max : maxDir = 0x200000 := rfl
  have ssize := laid.mountedSize standing.volume
  obtain ⟨positive, -⟩ := directory.sector laid standing.sect
  by_cases near : i + 1 < maxDir / 32
  · by_cases boundary : (i + 1) % 128 = 0
    · by_cases root : clusters = []
      · subst root
        rcases dirNext_static laid directory standing near boundary with ⟨dp', step, standing'⟩ | ⟨dp', step, ended⟩
        · exact .inl ⟨fs, dp', step, standing'⟩
        · exact .inr ⟨fs, dp', step, ended⟩
      · by_cases last : (i / 128 + 1) % vol.csize = 0
        · exact dirNext_linked laid directory root standing near boundary last
        · exact .inl ⟨fs, dirNext_within laid directory root standing near boundary last⟩
    · have step : dirNext m fs dp = (.ok, fs, { dp with dptr := 32 * (i + 1), dir := 32 * (i + 1) % 4096 }) := by
        have far : ¬ maxDir ≤ 32 * (i + 1) := by omega
        simp only [dirNext, standing.following, ssize]
        rw [if_neg far, if_neg (by omega), if_neg (by omega)]
      have same : (i + 1) / 128 = i / 128 := by omega
      refine .inl ⟨_, _, step, ⟨standing.volume, standing.coherent, near, rfl, ?_, ?_, standing.static, ?_⟩, rfl⟩
      · exact entry_place (i + 1)
      · rw [same]
        exact standing.sect
      · rw [same]
        exact standing.dynamic
  · refine .inr ⟨fs, { dp with sect := 0 }, ?_, standing.volume, standing.coherent, .inl (by omega)⟩
    have far : maxDir ≤ 32 * (i + 1) := by omega
    simp only [dirNext, standing.following]
    rw [if_pos far, if_pos rfl]

end Sectors

/-! ## The scan -/

section Finds

variable {m : Mem} {vol : Volume} {limit i : Nat} {clusters : List Nat} {fs : FATFS} {dp : DIR} {s : Searching}
  {wtoupper : Nat → Nat} {lfnbuf : List Nat}

theorem length_dirEntries (m : Mem) (vol : Volume) (clusters : List Nat) :
    (dirEntries m vol clusters).length = min (maxDir / 32) (128 * (dirSectors vol clusters).length) := by
  rw [dirEntries, List.length_take, Blocks.length_blocks fun _ _ => by rw [sectorEntries, List.length_map, List.length_range]]

/-- The entry where the object stands. -/
theorem Standing.entry (standing : Standing m vol clusters i fs dp) :
    (dirEntries m vol clusters)[i]? = some (((diskSector m dp.sect).drop dp.dir).take 32) := by
  have within : i % 128 < 128 := Nat.mod_lt _ (by decide)
  have block : ((dirSectors vol clusters).flatMap (sectorEntries m))[128 * (i / 128) + i % 128]? =
      (sectorEntries m dp.sect)[i % 128]? :=
    Blocks.getElem?_blocks (fun _ _ => by rw [sectorEntries, List.length_map, List.length_range]) standing.sect within
  rw [Nat.div_add_mod] at block
  rw [dirEntries, List.getElem?_take_of_lt standing.inside, block, sectorEntries, List.getElem?_map, List.getElem?_range within,
    Option.map_some, standing.dir]

/-- The window on the entry. -/
theorem Standing.window (laid : vol.Laid limit) {sclust : Nat} (directory : Directory m vol sclust clusters)
    (standing : Standing m vol clusters i fs dp) :
    Standing m vol clusters i (moveWindow m dp.sect fs) dp ∧
      (dirEntries m vol clusters)[i]? = some (entryAt (moveWindow m dp.sect fs) dp) := by
  obtain ⟨-, small⟩ := directory.sector laid standing.sect
  obtain ⟨coherent, win⟩ := moveWindow_coherent standing.coherent small
  refine ⟨{ standing with volume := ?_, coherent := coherent }, ?_⟩
  · rw [moveWindow_volume, standing.volume]
  · rw [entryAt, win, standing.entry]

/-- What `dir_find` leaves behind when the scan of the entries has ended with `r`. -/
structure Found (m : Mem) (vol : Volume) (clusters : List Nat) (r : FRESULT × Nat × Scan) (s : Searching) : Prop where
  volume : s.fs.toVolume = vol
  coherent : s.fs.Coherent m
  scan : s.scan = r.2.2
  entry : r.1 = .ok → s.dp.dptr = 32 * r.2.1 ∧ (dirEntries m vol clusters)[r.2.1]? = some (entryAt s.fs s.dp)

/-- **The loop of `dir_find`** scans the entries that are left. -/
theorem dirFindLoop (laid : vol.Laid limit) {sclust : Nat} (directory : Directory m vol sclust clusters)
    (standing : Standing m vol clusters i s.fs s.dp) {fuel : Nat} (enough : maxDir / 32 ≤ i + fuel) :
    ∃ s', Loop.exec (dirFindPass m wtoupper lfnbuf) fuel s =
        some ((findEntry wtoupper lfnbuf s.dp.fn ((dirEntries m vol clusters).drop i) i s.scan).1, s') ∧
      Found m vol clusters (findEntry wtoupper lfnbuf s.dp.fn ((dirEntries m vol clusters).drop i) i s.scan) s' := by
  induction fuel generalizing i s with
  | zero => exact absurd standing.inside (by omega)
  | succ fuel ih =>
    obtain ⟨moved, here⟩ := standing.window laid directory
    obtain ⟨fs, window⟩ : ∃ fs, fs = moveWindow m s.dp.sect s.fs := ⟨_, rfl⟩
    rw [← window] at moved here
    obtain ⟨less, same⟩ := List.getElem?_eq_some_iff.mp here
    have rest : (dirEntries m vol clusters).drop i = entryAt fs s.dp :: (dirEntries m vol clusters).drop (i + 1) := by
      rw [List.drop_eq_getElem_cons less, same]
    rw [rest, findEntry, ← standing.dptr]
    cases scanned : scanEntry wtoupper lfnbuf s.dp.fn s.dp.dptr (entryAt fs s.dp) s.scan with
    | inr r =>
      have pass : dirFindPass m wtoupper lfnbuf s = some (.inr (r.1, ⟨fs, s.dp, r.2⟩)) := by
        simp only [dirFindPass, ← window, scanned]
      exact ⟨_, Loop.exec_leave pass, moved.volume, moved.coherent, rfl, fun _ => ⟨standing.dptr, here⟩⟩
    | inl scan =>
      rcases dirNext_standing laid directory moved with ⟨fs', dp', step, standing', fn⟩ | ⟨fs', dp', step, ended⟩
      · have pass : dirFindPass m wtoupper lfnbuf s = some (.inl ⟨fs', dp', scan⟩) := by
          simp only [dirFindPass, ← window, scanned, step, if_true]
        rw [Loop.exec_again pass]
        obtain ⟨s', run, found⟩ := ih (s := ⟨fs', dp', scan⟩) standing' (by omega)
        rw [fn] at run found
        exact ⟨s', run, found⟩
      · have pass : dirFindPass m wtoupper lfnbuf s = some (.inr (.noFile, ⟨fs', dp', scan⟩)) := by
          simp only [dirFindPass, ← window, scanned, step]
          rw [if_neg (by decide)]
        have none : (dirEntries m vol clusters).drop (i + 1) = [] := by
          have last := ended.last
          rw [List.drop_eq_nil_iff, length_dirEntries]
          omega
        rw [none, Loop.exec_leave pass]
        exact ⟨_, rfl, ended.volume, ended.coherent, rfl, fun fine => FRESULT.noConfusion fine⟩

/-- `dir_sdi` goes to the first entry. -/
theorem dirSdi_first (laid : vol.Laid limit) (directory : Directory m vol dp.sclust clusters) (volume : fs.toVolume = vol)
    (coherent : fs.Coherent m) :
    ∃ dp', dirSdi m 0 fs dp = some (.ok, fs, dp') ∧ Standing m vol clusters 0 fs dp' ∧ dp'.fn = dp.fn := by
  have max : maxDir = 0x200000 := rfl
  have ssize := laid.mountedSize volume
  have csize : fs.csize = vol.csize := congrArg Volume.csize volume
  have first : ¬ (maxDir ≤ 0 ∨ 0 % 32 ≠ 0) := by omega
  by_cases root : clusters = []
  · subst root
    obtain ⟨start, -⟩ := directory.static rfl
    obtain ⟨entries, place, room⟩ := directory.place laid
    have whole := laid.whole
    have sector : (dirSectors vol [])[0]? = some vol.dirbase := by
      have first : (dirSectors vol [])[0]? = some (vol.dirbase + 0) := dirSectors_static (by omega)
      rwa [Nat.add_zero] at first
    have step : dirSdi m 0 fs dp = some (.ok, fs, { dp with dptr := 0, clust := 0, sect := vol.dirbase, dir := 0 }) := by
      simp only [dirSdi, volume, start, dirSdiEnd]
      rw [if_neg first, if_pos trivial, if_neg (by omega), if_neg (by omega), Nat.zero_div, Nat.add_zero, Nat.zero_mod,
        u32_of_lt (by omega)]
    exact ⟨_, step, ⟨volume, coherent, by decide, rfl, rfl, sector, fun _ => rfl, fun some => absurd rfl some⟩, rfl⟩
  · obtain ⟨c, here⟩ : ∃ c, clusters[0]? = some c := by
      have length := List.length_pos_of_ne_nil root
      exact ⟨_, List.getElem?_eq_getElem length⟩
    obtain ⟨start, is⟩ := directory.file.first here
    obtain ⟨-, positive, room⟩ := clst2sect_cluster laid.toSound is
    obtain ⟨low, -⟩ := is
    have csizePos := laid.positive
    have pass : dirSdiPass m ⟨fs, c, 0⟩ = some (.inr (.ok, ⟨fs, c, 0⟩)) := by
      simp only [dirSdiPass, csize, ssize]
      rw [if_neg (by omega)]
    have sector : (dirSectors vol clusters)[0]? = some (clst2sect vol c) := by
      have first := dirSectors_first here csizePos
      rwa [Nat.mul_zero] at first
    have step : dirSdi m 0 fs dp = some (.ok, fs, { dp with dptr := 0, clust := c, sect := clst2sect vol c, dir := 0 }) := by
      simp only [dirSdi, volume, start, Loop.exec_leave pass, Option.map_some, dirSdiEnd]
      rw [if_neg first, if_neg (by omega), if_neg (by decide), if_neg (by omega), Nat.zero_div, Nat.add_zero, Nat.zero_mod,
        u32_of_lt (by omega)]
    refine ⟨_, step, ⟨volume, coherent, by decide, rfl, rfl, ?_, fun none => absurd none root, fun _ => ?_⟩, rfl⟩
    · dsimp only
      rw [Nat.zero_div, sector]
    · rw [Nat.zero_div]
      exact here

/-- An entry of a file or a directory. -/
structure IsObject (dir : List Byte) : Prop where
  used : dir.getD 0 0 ≠ 0
  kept : dir.getD 0 0 ≠ 0xE5
  volume : dir.getD 11 0 &&& 0x3F &&& 0x08 = 0

/-- The entry that is taken has the short name, or the checksum that the long name was stored with. -/
theorem scanEntry_ok {fn dir : List Byte} {dptr : Nat} {s s' : Scan}
    (taken : scanEntry wtoupper lfnbuf fn dptr dir s = .inr (.ok, s')) :
    IsObject dir ∧ (dir.take 11 = fn.take 11 ∨ (s'.ord = 0 ∧ s'.sum = sumSfn dir)) := by
  unfold scanEntry at taken
  simp only at taken
  split at taken
  · cases taken
  rename_i used
  split at taken
  · cases taken
  rename_i kept
  rw [not_or] at kept
  obtain ⟨alive, label⟩ := kept
  split at taken
  · cases taken
  rename_i short
  have volume : dir.getD 11 0 &&& 0x3F &&& 0x08 = 0 := by
    by_contra set
    exact label ⟨set, short⟩
  split at taken
  · rename_i long
    cases taken
    exact ⟨⟨used, alive, volume⟩, .inr long⟩
  split at taken
  · rename_i same
    cases taken
    exact ⟨⟨used, alive, volume⟩, .inl same.2⟩
  · cases taken

/-- The scan goes on only past an entry that is not the mark of the end. -/
theorem scanEntry_next {fn dir : List Byte} {dptr : Nat} {s s' : Scan}
    (next : scanEntry wtoupper lfnbuf fn dptr dir s = .inl s') : dir.getD 0 0 ≠ 0 := by
  intro empty
  rw [scanEntry, if_pos empty] at next
  cases next

/-- **What a scan finds** is an object, and the mark of the end is not before it. -/
theorem findEntry_ok {fn : List Byte} {dirs : List (List Byte)} {s s' : Scan} {j : Nat}
    (found : findEntry wtoupper lfnbuf fn dirs i s = (.ok, j, s')) :
    ∃ k dir, j = i + k ∧ dirs[k]? = some dir ∧ IsObject dir ∧
      (dir.take 11 = fn.take 11 ∨ (s'.ord = 0 ∧ s'.sum = sumSfn dir)) ∧
      ∀ dir' ∈ dirs.take k, dir'.getD 0 0 ≠ 0 := by
  induction dirs generalizing i s with
  | nil => cases found
  | cons dir dirs ih =>
    rw [findEntry] at found
    cases scanned : scanEntry wtoupper lfnbuf fn (32 * i) dir s with
    | inr r =>
      obtain ⟨res, scan⟩ := r
      simp only [scanned, Prod.mk.injEq] at found
      obtain ⟨rfl, rfl, rfl⟩ := found
      obtain ⟨object, name⟩ := scanEntry_ok scanned
      exact ⟨0, dir, rfl, rfl, object, name, fun _ mem => absurd mem List.not_mem_nil⟩
    | inl scan =>
      simp only [scanned] at found
      obtain ⟨k, dir', place, here, object, name, before⟩ := ih found
      refine ⟨k + 1, dir', by omega, here, object, name, fun other mem => ?_⟩
      rw [List.take_succ_cons] at mem
      rcases List.mem_cons.mp mem with rfl | mem
      · exact scanEntry_next scanned
      · exact before other mem

/-- **`dir_find` is one scan of the entries of the directory**: it returns with the result of
the scan. The entry that it has found is the one of the list, in the window; it is an object
with the name, and the mark of the end is not before it. -/
theorem dirFind_scans (wtoupper : Nat → Nat) (lfnbuf : List Nat) (fs : FATFS) (dp : DIR) (attr : Byte) (blkOfs : Nat)
    (laid : vol.Laid limit) (directory : Directory m vol dp.sclust clusters) (volume : fs.toVolume = vol) (coherent : fs.Coherent m) :
    ∃ r s, r = findEntry wtoupper lfnbuf dp.fn (dirEntries m vol clusters) 0 ⟨attr, 0xFFFFFFFF, 0xFF, 0xFF⟩ ∧
      dirFind m wtoupper lfnbuf fs dp attr blkOfs = some (r.1, s) ∧ Found m vol clusters r s ∧
      (r.1 = .ok → IsObject (entryAt s.fs s.dp) ∧
        ((entryAt s.fs s.dp).take 11 = dp.fn.take 11 ∨ (s.scan.ord = 0 ∧ s.scan.sum = sumSfn (entryAt s.fs s.dp))) ∧
        ∀ dir ∈ (dirEntries m vol clusters).take r.2.1, dir.getD 0 0 ≠ 0) := by
  obtain ⟨dp', rewound, standing, fn⟩ := dirSdi_first laid directory volume coherent
  obtain ⟨r, scanned⟩ : ∃ r, r = findEntry wtoupper lfnbuf dp.fn (dirEntries m vol clusters) 0 ⟨attr, 0xFFFFFFFF, 0xFF, 0xFF⟩ :=
    ⟨_, rfl⟩
  have loop : ∃ s, Loop.exec (dirFindPass m wtoupper lfnbuf) (maxDir / 32) ⟨fs, dp', ⟨attr, 0xFFFFFFFF, 0xFF, 0xFF⟩⟩ =
      some (r.1, s) ∧ Found m vol clusters r s := by
    have all : (dirEntries m vol clusters).drop 0 = dirEntries m vol clusters := List.drop_zero
    rw [scanned, ← fn, ← all]
    refine dirFindLoop laid directory standing ?_
    omega
  obtain ⟨s, run, found⟩ := loop
  refine ⟨r, s, scanned, ?_, found, fun ok => ?_⟩
  · rw [dirFind, rewound, Option.bind_some, if_neg (not_not.mpr rfl)]
    exact run
  · have result : findEntry wtoupper lfnbuf dp.fn (dirEntries m vol clusters) 0 ⟨attr, 0xFFFFFFFF, 0xFF, 0xFF⟩ =
        (.ok, r.2.1, r.2.2) := by
      rw [← scanned, ← ok]
    obtain ⟨k, dir, place, here, object, name, before⟩ := findEntry_ok result
    obtain ⟨-, entry⟩ := found.entry ok
    rw [Nat.zero_add] at place
    rw [place, here] at entry
    obtain rfl := Option.some.inj entry
    rw [found.scan, place]
    exact ⟨object, name, before⟩

/-- A disk on whose root are a label and the file `LED.BIN`. -/
def namedDisk : Mem := fun a =>
  if 2 * 4096 ≤ a ∧ a < 3 * 4096 then (List.replicate 11 0x4F ++ [0x08] ++ List.replicate 20 0 ++ smallEntry).getD (a - 8192) 0
  else smallDisk a

/-- The file is found as the second entry. -/
theorem dirFind_small : ∃ s, dirFind namedDisk id [] { smallVolume with winsect := 0, win := diskSector namedDisk 0 }
      ⟨0, smallEntry.take 11 ++ [0], 0, 0, 0, 0⟩ 0 0 = some (.ok, s) ∧ s.dp.dptr = 32 ∧ entryAt s.fs s.dp = smallEntry := by
  have directory : Directory namedDisk smallVolume 0 [] := by
    refine ⟨?_, fun c last => absurd last (by simp), fun _ => ⟨by decide, by decide⟩⟩
    have root : smallVolume.cluster? (dirStart smallVolume 0) = none := by decide
    rw [root]
    exact .done
  have coherent : (FATFS.mk smallVolume 0 (diskSector namedDisk 0)).Coherent namedDisk := by
    simp only [FATFS.Coherent, and_true]
    decide
  obtain ⟨r, s, scanned, run, found, -⟩ := dirFind_scans id [] { smallVolume with winsect := 0, win := diskSector namedDisk 0 }
    ⟨0, smallEntry.take 11 ++ [0], 0, 0, 0, 0⟩ 0 0 smallVolume_laid directory rfl coherent
  have label : (dirEntries namedDisk smallVolume [])[0]? = some (List.replicate 11 0x4F ++ [0x08] ++ List.replicate 20 0) := by
    decide +kernel
  have file : (dirEntries namedDisk smallVolume [])[1]? = some smallEntry := by decide +kernel
  have entry := found.entry
  obtain ⟨dirs, list⟩ : ∃ dirs, dirs = dirEntries namedDisk smallVolume [] := ⟨_, rfl⟩
  rw [← list] at label file entry scanned
  obtain ⟨rest, two⟩ : ∃ rest, dirs = (List.replicate 11 0x4F ++ [0x08] ++ List.replicate 20 0) :: smallEntry :: rest := by
    obtain _ | ⟨first, _ | ⟨second, rest⟩⟩ := dirs
    · cases label
    · cases file
    · cases label
      cases file
      exact ⟨rest, rfl⟩
  have first : scanEntry id [] (smallEntry.take 11 ++ [0]) (32 * 0) (List.replicate 11 0x4F ++ [0x08] ++ List.replicate 20 0)
      ⟨0, 0xFFFFFFFF, 0xFF, 0xFF⟩ = .inl ⟨0x08, 0xFFFFFFFF, 0xFF, 0xFF⟩ := by decide +kernel
  have second : scanEntry id [] (smallEntry.take 11 ++ [0]) (32 * (0 + 1)) smallEntry
      ⟨0x08, 0xFFFFFFFF, 0xFF, 0xFF⟩ = .inr (.ok, ⟨0x20, 0xFFFFFFFF, 0xFF, 0xFF⟩) := by decide +kernel
  have result : r = (.ok, 1, ⟨0x20, 0xFFFFFFFF, 0xFF, 0xFF⟩) := by
    rw [scanned, two, findEntry, first]
    simp only [findEntry, second]
  rw [result] at run entry
  obtain ⟨dptr, here⟩ := entry rfl
  rw [file] at here
  exact ⟨s, run, dptr, (Option.some.inj here).symm⟩

end Finds

end OffLineProgrammer.Fatfs
