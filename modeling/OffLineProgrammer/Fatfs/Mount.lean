import OffLineProgrammer.Fatfs.Chains

/-!
# Mounting, from ff.c

The first file function after `f_mount` looks for a boot sector with a FAT volume, at the
start of the disk or of one of its four partitions, and computes from it where the parts of
the volume lie. A volume that is accepted is laid out without overlap, if the numbers of the
boot sector do not wrap around.
-/

namespace OffLineProgrammer.Fatfs
set_option autoImplicit false
open OffLineProgrammer.Lib OffLineProgrammer.Storage

/-! ## Boot sectors -/

/-- The fields of a boot sector that are used. -/
structure Bpb where
  bytsPerSec : Nat
  secPerClus : Nat
  rsvdSecCnt : Nat
  numFATs : Nat
  rootEntCnt : Nat
  totSec16 : Nat
  fATSz16 : Nat
  totSec32 : Nat
  fATSz32 : Nat
  fSVer32 : Nat
  rootClus32 : Nat
  fSInfo32 : Nat
  deriving DecidableEq

def readBpb (win : List Byte) : Bpb where
  bytsPerSec := ldWord win 11
  secPerClus := (win.getD 13 0).toNat
  rsvdSecCnt := ldWord win 14
  numFATs := (win.getD 16 0).toNat
  rootEntCnt := ldWord win 17
  totSec16 := ldWord win 19
  fATSz16 := ldWord win 22
  totSec32 := ldDword win 32
  fATSz32 := ldDword win 36
  fSVer32 := ldWord win 42
  rootClus32 := ldDword win 44
  fSInfo32 := ldWord win 48

/-- The sectors of one table. -/
def Bpb.fasize (bpb : Bpb) : Nat := if bpb.fATSz16 = 0 then bpb.fATSz32 else bpb.fATSz16

/-- The sectors of the volume. -/
def Bpb.tsect (bpb : Bpb) : Nat := if bpb.totSec16 = 0 then bpb.totSec32 else bpb.totSec16

/-- What `check_fs` says of the sector in the window: 0 for the boot sector of a FAT volume,
2 for another boot sector, 3 for anything else. -/
def vbrStatus (win : List Byte) : Nat :=
  let sign := ldWord win 510
  let b := win.getD 0 0
  let bpb := readBpb win
  let jump := b = 0xEB ∨ b = 0xE9 ∨ b = 0xE8
  let fat32 := sign = 0xAA55 ∧ (win.drop 82).take 8 = [0x46, 0x41, 0x54, 0x33, 0x32, 0x20, 0x20, 0x20]
  let presumed := bpb.bytsPerSec &&& (bpb.bytsPerSec - 1) = 0 ∧ 512 ≤ bpb.bytsPerSec ∧ bpb.bytsPerSec ≤ 4096 ∧
    bpb.secPerClus ≠ 0 ∧ bpb.secPerClus &&& (bpb.secPerClus - 1) = 0 ∧ bpb.rsvdSecCnt ≠ 0 ∧
    (bpb.numFATs = 1 ∨ bpb.numFATs = 2) ∧ bpb.rootEntCnt ≠ 0 ∧ (128 ≤ bpb.totSec16 ∨ 0x10000 ≤ bpb.totSec32) ∧ bpb.fATSz16 ≠ 0
  if jump ∧ (fat32 ∨ presumed) then 0 else if sign = 0xAA55 then 2 else 3

/-- `check_fs` -/
def checkFs (m : Mem) (sect : Nat) (fs : FATFS) : Nat × FATFS :=
  let fs := moveWindow m sect { fs with winsect := 2 ^ 32 - 1 }
  (vbrStatus fs.win, fs)

/-- The loop of `find_volume`: the partitions that are left. -/
def findPartition (m : Mem) : List Nat → FATFS → Nat × FATFS
  | [], fs => (3, fs)
  | pt :: pts, fs =>
    let r := if pt ≠ 0 then checkFs m pt fs else (3, fs)
    if 2 ≤ r.1 ∧ pts ≠ [] then findPartition m pts r.2 else r

/-- The four entries of the table of partitions. -/
def mbrPt (win : List Byte) : List Nat := (List.range 4).map fun i => ldDword win (446 + i * 16 + 8)

/-- `find_volume`, where no partition is forced. -/
def findVolume (m : Mem) (fs : FATFS) : Nat × FATFS :=
  let r := checkFs m 0 fs
  if r.1 ≠ 2 then r else findPartition m (mbrPt r.2.win) r.2

/-! ## Mounting -/

/-- The type of a volume with so many clusters. -/
def subType (nclst : Nat) : Option FsType :=
  if nclst ≤ 0xFF5 then some .fat12
  else if nclst ≤ 0xFFF5 then some .fat16
  else if nclst ≤ 0x0FFFFFF5 then some .fat32
  else none

/-- The bytes that the table of clusters needs. -/
def szbfat (fmt : FsType) (nFatent : Nat) : Nat :=
  match fmt with
  | .fat32 => u32 (nFatent * 4)
  | .fat16 => nFatent * 2
  | .fat12 => nFatent * 3 / 2 + nFatent % 2

/-- The end of `mount_volume`: the table is large enough, and the volume gets valid. -/
def mountEnd (m : Mem) (fsid : Nat) (bpb : Bpb) (fmt : FsType) (fs : FATFS) : FRESULT × FATFS × Nat :=
  if fs.fsize < (szbfat fmt fs.nFatent + (fs.ssize - 1)) / fs.ssize then (.noFilesystem, fs, fsid)
  else
    -- of the information sector only the window is modelled
    let fs := if fmt = .fat32 ∧ bpb.fSInfo32 = 1 then moveWindow m (u32 (fs.volbase + 1)) fs else fs
    let fsid := (fsid + 1) % 2 ^ 16
    (.ok, { fs with fsType := some fmt, id := fsid }, fsid)

/-- `mount_volume` when a volume has been found: its boot sector is in the window. -/
def mountBpb (m : Mem) (fsid : Nat) (fs : FATFS) : FRESULT × FATFS × Nat :=
  let bsect := fs.winsect
  let bpb := readBpb fs.win
  if bpb.bytsPerSec ≠ fs.ssize then (.noFilesystem, fs, fsid)
  else
    let fs := { fs with fsize := bpb.fasize, nFats := bpb.numFATs }
    if fs.nFats ≠ 1 ∧ fs.nFats ≠ 2 then (.noFilesystem, fs, fsid)
    else
      let fasize := u32 (bpb.fasize * fs.nFats)
      let fs := { fs with csize := bpb.secPerClus }
      if fs.csize = 0 ∨ fs.csize &&& (fs.csize - 1) ≠ 0 then (.noFilesystem, fs, fsid)
      else
        let fs := { fs with nRootdir := bpb.rootEntCnt }
        let nrsv := bpb.rsvdSecCnt
        let sysect := u32 (nrsv + fasize + fs.nRootdir / (fs.ssize / 32))
        let nclst := (bpb.tsect - sysect) / fs.csize
        if fs.nRootdir % (fs.ssize / 32) ≠ 0 ∨ nrsv = 0 ∨ bpb.tsect < sysect ∨ nclst = 0 then (.noFilesystem, fs, fsid)
        else
          match subType nclst with
          | none => (.noFilesystem, fs, fsid)
          | some fmt =>
            let fs := { fs with
              nFatent := nclst + 2, volbase := bsect, fatbase := u32 (bsect + nrsv), database := u32 (bsect + sysect) }
            if fmt = .fat32 then
              if bpb.fSVer32 ≠ 0 ∨ fs.nRootdir ≠ 0 then (.noFilesystem, fs, fsid)
              else mountEnd m fsid bpb fmt { fs with dirbase := bpb.rootClus32 }
            else if fs.nRootdir = 0 then (.noFilesystem, fs, fsid)
            else mountEnd m fsid bpb fmt { fs with dirbase := u32 (fs.fatbase + fasize) }

/-- `mount_volume`, from the object of the volume on; `fsid` is the number of the last mount. -/
def mountVolume (m : Mem) (fsid : Nat) (fs : FATFS) : FRESULT × FATFS × Nat :=
  if fs.fsType ≠ none then (.ok, fs, fsid)
  else
    let r := findVolume m { fs with ssize := spiFlashSectorSize }
    if 2 ≤ r.1 then (.noFilesystem, r.2, fsid) else mountBpb m fsid r.2

/-! ## Where the volume is -/

/-- A partition that is taken: the number `check_fs` puts in the window to say that it shows
nothing is never read. -/
def takesPartition (m : Mem) (pt : Nat) : Bool := pt ≠ 0 ∧ pt ≠ 2 ^ 32 - 1 ∧ vbrStatus (diskSector m pt) = 0

/-- Where a volume begins. -/
def volumeAt (m : Mem) : Option Nat :=
  if vbrStatus (diskSector m 0) = 0 then some 0
  else if vbrStatus (diskSector m 0) = 2 then (mbrPt (diskSector m 0)).find? (takesPartition m)
  else none

section Found

variable {m : Mem} {fs : FATFS} {pts : List Nat} {p : Nat}

theorem ldDword_lt (win : List Byte) (i : Nat) : ldDword win i < 2 ^ 32 := by
  have b₀ := (win.getD i 0).isLt
  have b₁ := (win.getD (i + 1) 0).isLt
  have b₂ := (win.getD (i + 2) 0).isLt
  have b₃ := (win.getD (i + 2 + 1) 0).isLt
  unfold ldDword ldWord
  omega

theorem vbrStatus_cases (win : List Byte) : vbrStatus win = 0 ∨ vbrStatus win = 2 ∨ vbrStatus win = 3 := by
  unfold vbrStatus
  simp only
  split
  · exact .inl rfl
  · split
    · exact .inr (.inl rfl)
    · exact .inr (.inr rfl)

/-- A sector that has another number than the mark is loaded. -/
theorem checkFs_loads (small : p < 2 ^ 32) (other : p ≠ 2 ^ 32 - 1) :
    checkFs m p fs = (vbrStatus (diskSector m p), { fs with winsect := p, win := diskSector m p }) := by
  have loaded : moveWindow m p { fs with winsect := 2 ^ 32 - 1 } = { fs with winsect := p, win := diskSector m p } := by
    rw [moveWindow, if_pos other, diskRead_one small]
  rw [checkFs, loaded]

/-- What is not loaded is what was there before. -/
theorem checkFs_stale : checkFs m (2 ^ 32 - 1) fs = (vbrStatus fs.win, { fs with winsect := 2 ^ 32 - 1 }) := by
  have kept : moveWindow m (2 ^ 32 - 1) { fs with winsect := 2 ^ 32 - 1 } = { fs with winsect := 2 ^ 32 - 1 } :=
    if_neg (not_not.mpr rfl)
  rw [checkFs, kept]

/-- One partition: it is taken, or the loop goes on with a window that shows no volume. -/
theorem findPartition_step (small : p < 2 ^ 32) (none : 2 ≤ vbrStatus fs.win) {r : Nat × FATFS}
    (step : r = if p ≠ 0 then checkFs m p fs else (3, fs)) :
    (takesPartition m p = true ∧ r = (0, { fs with winsect := p, win := diskSector m p })) ∨
      (takesPartition m p = false ∧ 2 ≤ r.1 ∧ 2 ≤ vbrStatus r.2.win ∧ ∃ n w, r.2 = { fs with winsect := n, win := w }) := by
  by_cases empty : p = 0
  · rw [if_neg (not_not.mpr empty)] at step
    refine .inr ⟨?_, ?_, ?_, fs.winsect, fs.win, ?_⟩
    · simp [takesPartition, empty]
    · rw [step]
      exact Nat.le_succ 2
    · rw [step]
      exact none
    · rw [step]
  · rw [if_pos empty] at step
    by_cases mark : p = 2 ^ 32 - 1
    · rw [mark, checkFs_stale] at step
      refine .inr ⟨?_, ?_, ?_, 2 ^ 32 - 1, fs.win, ?_⟩
      · simp [takesPartition, mark]
      · rw [step]
        exact none
      · rw [step]
        exact none
      · rw [step]
    · rw [checkFs_loads small mark] at step
      by_cases fat : vbrStatus (diskSector m p) = 0
      · refine .inl ⟨?_, ?_⟩
        · simp only [takesPartition, decide_eq_true_eq]
          exact ⟨empty, mark, fat⟩
        · rw [step, fat]
      · have status := vbrStatus_cases (diskSector m p)
        refine .inr ⟨?_, ?_, ?_, p, diskSector m p, ?_⟩
        · simp only [takesPartition, decide_eq_false_iff_not]
          exact fun taken => fat taken.2.2
        · rw [step]
          simp only
          omega
        · rw [step]
          simp only
          omega
        · rw [step]

/-- **The first partition with a volume is taken.** -/
theorem findPartition_first (small : ∀ p ∈ pts, p < 2 ^ 32) (none : 2 ≤ vbrStatus fs.win) :
    (∀ p, pts.find? (takesPartition m) = some p →
        findPartition m pts fs = (0, { fs with winsect := p, win := diskSector m p })) ∧
      (pts.find? (takesPartition m) = Option.none → 2 ≤ (findPartition m pts fs).1) := by
  induction pts generalizing fs with
  | nil => exact ⟨fun p found => (nomatch found), fun _ => by simp [findPartition]⟩
  | cons q qs ih =>
    obtain ⟨r, step⟩ : ∃ r, r = if q ≠ 0 then checkFs m q fs else (3, fs) := ⟨_, rfl⟩
    have unfolded : findPartition m (q :: qs) fs = if 2 ≤ r.1 ∧ qs ≠ [] then findPartition m qs r.2 else r := by
      rw [findPartition, step]
    rw [unfolded]
    rcases findPartition_step (small q List.mem_cons_self) none step with ⟨takes, found⟩ | ⟨passes, high, none', n, w, same⟩
    · rw [List.find?_cons_of_pos takes, found, if_neg (by omega)]
      refine ⟨fun p first => ?_, fun absent => (nomatch absent)⟩
      cases first
      rfl
    · rw [List.find?_cons_of_neg (by simp [passes])]
      obtain ⟨here, absent⟩ := ih (fun p mem => small p (List.mem_cons_of_mem _ mem)) none'
      by_cases last : qs = []
      · rw [if_neg (fun both => both.2 last)]
        subst last
        exact ⟨fun p found => (nomatch found), fun _ => high⟩
      · rw [if_pos ⟨high, last⟩]
        refine ⟨fun p first => ?_, absent⟩
        rw [here p first, same]

/-- **Where `find_volume` looks.** -/
theorem findVolume_at (m : Mem) (fs : FATFS) :
    (∀ p, volumeAt m = some p → findVolume m fs = (0, { fs with winsect := p, win := diskSector m p })) ∧
      (volumeAt m = none → 2 ≤ (findVolume m fs).1) := by
  have first : checkFs m 0 fs = (vbrStatus (diskSector m 0), { fs with winsect := 0, win := diskSector m 0 }) :=
    checkFs_loads (by decide) (by decide)
  have status := vbrStatus_cases (diskSector m 0)
  unfold volumeAt findVolume
  rw [first]
  by_cases fat : vbrStatus (diskSector m 0) = 0
  · rw [if_pos fat]
    simp only
    rw [if_pos (by omega), fat]
    refine ⟨fun p found => ?_, fun absent => (nomatch absent)⟩
    cases found
    rfl
  · rw [if_neg fat]
    by_cases boot : vbrStatus (diskSector m 0) = 2
    · rw [if_pos boot]
      simp only
      rw [if_neg (not_not.mpr boot)]
      have small : ∀ p ∈ mbrPt (diskSector m 0), p < 2 ^ 32 := by
        intro p mem
        obtain ⟨i, -, rfl⟩ := List.mem_map.mp mem
        exact ldDword_lt _ _
      have stale : 2 ≤ vbrStatus (diskSector m 0) := by omega
      obtain ⟨sector, read⟩ : ∃ sector, sector = diskSector m 0 := ⟨_, rfl⟩
      rw [← read] at small stale ⊢
      have partitions : (∀ p, (mbrPt sector).find? (takesPartition m) = some p →
            findPartition m (mbrPt sector) { fs with winsect := 0, win := sector } =
              (0, { fs with winsect := p, win := diskSector m p })) ∧
          ((mbrPt sector).find? (takesPartition m) = none →
            2 ≤ (findPartition m (mbrPt sector) { fs with winsect := 0, win := sector }).1) :=
        findPartition_first small stale
      exact partitions
    · rw [if_neg boot]
      simp only
      rw [if_pos boot]
      exact ⟨fun p found => (nomatch found), fun _ => by
        simp only
        omega⟩

theorem volumeAt_lt (place : volumeAt m = some p) : p < 2 ^ 32 := by
  unfold volumeAt at place
  split at place
  · cases place
    decide
  · split at place
    · obtain ⟨i, -, rfl⟩ := List.mem_map.mp (List.mem_of_find?_eq_some place)
      exact ldDword_lt _ _
    · cases place

end Found

/-! ## How the volume is laid out -/

/-- The numbers of a boot sector do not wrap around. -/
structure Bpb.NoWrap (bpb : Bpb) (bsect : Nat) : Prop where
  system : bpb.rsvdSecCnt + bpb.fasize * bpb.numFATs + bpb.rootEntCnt / 128 < 2 ^ 32
  volume : bsect + bpb.tsect ≤ 2 ^ 32

/-- The parts of a volume lie one after the other: the reserved sectors, the tables, the root
directory unless it is made of clusters, and the clusters. The table has all entries. -/
structure Volume.Laid (vol : Volume) (limit : Nat) : Prop extends vol.Sound where
  reserved : vol.volbase < vol.fatbase
  tables : vol.nFats = 1 ∨ vol.nFats = 2
  root : vol.fatbase + vol.nFats * vol.fsize + vol.nRootdir / 128 = vol.database
  whole : 128 ∣ vol.nRootdir
  static : vol.fsType ≠ some .fat32 → 0 < vol.nRootdir ∧ vol.dirbase = vol.fatbase + vol.nFats * vol.fsize
  dynamic : vol.fsType = some .fat32 → vol.nRootdir = 0
  type : vol.fsType = subType (vol.nFatent - 2)
  entries : ∀ fmt, vol.fsType = some fmt → szbfat fmt vol.nFatent ≤ vol.fsize * 4096
  ends : vol.database + vol.csize * (vol.nFatent - 2) ≤ limit

section Layout

variable {m : Mem} {fs fs' : FATFS} {fsid id : Nat} {fmt : FsType} {bpb : Bpb}

/-- What the end of `mount_volume` has accepted. -/
theorem mountEnd_ok (ok : mountEnd m fsid bpb fmt fs = (.ok, fs', id)) :
    (szbfat fmt fs.nFatent + (fs.ssize - 1)) / fs.ssize ≤ fs.fsize ∧
      fs'.toVolume = { fs.toVolume with fsType := some fmt, id := id } ∧
      (fs.Coherent m → fs'.Coherent m) := by
  unfold mountEnd at ok
  split at ok
  · cases ok
  · rename_i large
    refine ⟨by omega, ?_⟩
    simp only [Prod.mk.injEq, true_and] at ok
    obtain ⟨rfl, rfl⟩ := ok
    split
    · refine ⟨?_, fun coherent => (moveWindow_coherent coherent (u32_lt _)).1⟩
      rw [moveWindow_volume]
    · exact ⟨rfl, fun coherent => coherent⟩

/-- What `mount_volume` has accepted. -/
theorem mountBpb_ok (ok : mountBpb m fsid fs = (.ok, fs', id)) : ∃ fmt bpb sysect dirbase,
    bpb = readBpb fs.win ∧ sysect = u32 (bpb.rsvdSecCnt + u32 (bpb.fasize * bpb.numFATs) + bpb.rootEntCnt / (fs.ssize / 32)) ∧
      bpb.bytsPerSec = fs.ssize ∧ (bpb.numFATs = 1 ∨ bpb.numFATs = 2) ∧
      bpb.secPerClus ≠ 0 ∧ bpb.secPerClus &&& (bpb.secPerClus - 1) = 0 ∧ bpb.rootEntCnt % (fs.ssize / 32) = 0 ∧
      bpb.rsvdSecCnt ≠ 0 ∧ sysect ≤ bpb.tsect ∧ (bpb.tsect - sysect) / bpb.secPerClus ≠ 0 ∧
      subType ((bpb.tsect - sysect) / bpb.secPerClus) = some fmt ∧
      (fmt = .fat32 → bpb.rootEntCnt = 0) ∧
      (fmt ≠ .fat32 → bpb.rootEntCnt ≠ 0 ∧ dirbase = u32 (u32 (fs.winsect + bpb.rsvdSecCnt) + u32 (bpb.fasize * bpb.numFATs))) ∧
      mountEnd m fsid bpb fmt { fs with
        fsize := bpb.fasize, nFats := bpb.numFATs, csize := bpb.secPerClus, nRootdir := bpb.rootEntCnt,
        nFatent := (bpb.tsect - sysect) / bpb.secPerClus + 2, volbase := fs.winsect,
        fatbase := u32 (fs.winsect + bpb.rsvdSecCnt), database := u32 (fs.winsect + sysect), dirbase := dirbase } =
        (.ok, fs', id) := by
  obtain ⟨bpb, read⟩ : ∃ bpb, bpb = readBpb fs.win := ⟨_, rfl⟩
  simp only [mountBpb, ← read] at ok
  split at ok
  · cases ok
  rename_i size
  split at ok
  · cases ok
  rename_i tables
  split at ok
  · cases ok
  rename_i cluster
  split at ok
  · cases ok
  rename_i sectors
  split at ok
  · cases ok
  rename_i fmt type
  simp only [not_or] at sectors
  obtain ⟨root, reserved, fits, some⟩ := sectors
  have both : bpb.numFATs = 1 ∨ bpb.numFATs = 2 := by omega
  split at ok
  · rename_i fat32
    split at ok
    · cases ok
    rename_i version
    refine ⟨fmt, bpb, _, bpb.rootClus32, read, rfl, not_not.mp size, both, by omega, by omega, by omega, reserved, by omega, some, type,
      fun _ => by omega, fun other => absurd fat32 other, ok⟩
  · rename_i other
    split at ok
    · cases ok
    rename_i directory
    exact ⟨fmt, bpb, _, _, read, rfl, not_not.mp size, both, by omega, by omega, by omega, reserved, by omega, some, type,
      fun fat32 => absurd fat32 other, fun _ => ⟨directory, rfl⟩, ok⟩

theorem secPerClus_pow {n : Nat} (byte : n < 256) (some : n ≠ 0) (single : n &&& (n - 1) = 0) : ∃ k, k ≤ 7 ∧ n = 2 ^ k := by
  have all : ∀ n < 256, n ≠ 0 → n &&& (n - 1) = 0 → ∃ k < 8, n = 2 ^ k := by decide +kernel
  obtain ⟨k, less, power⟩ := all n byte some single
  exact ⟨k, by omega, power⟩

theorem subType_few {n : Nat} (type : subType n = some fmt) : n ≤ 0x0FFFFFF5 := by
  unfold subType at type
  split at type
  · omega
  · split at type
    · omega
    · split at type
      · assumption
      · cases type

/-- A volume that is accepted begins at the sector of the window. -/
theorem mountBpb_volbase (ok : mountBpb m fsid fs = (.ok, fs', id)) :
    fs'.volbase = fs.winsect ∧ (fs.Coherent m → fs'.Coherent m) := by
  obtain ⟨fmt, bpb, sysect, dirbase, -, -, -, -, -, -, -, -, -, -, -, -, -, end_⟩ := mountBpb_ok ok
  obtain ⟨-, volume, coherent⟩ := mountEnd_ok end_
  exact ⟨congrArg Volume.volbase volume, coherent⟩

/-- **A volume that is accepted is laid out without overlap.** -/
theorem mountBpb_laid (ssize : fs.ssize = 4096) (ok : mountBpb m fsid fs = (.ok, fs', id))
    (noWrap : (readBpb fs.win).NoWrap fs.winsect) :
    fs'.volbase = fs.winsect ∧ fs'.toVolume.Laid (fs.winsect + (readBpb fs.win).tsect) := by
  obtain ⟨fmt, bpb, sysect, dirbase, read, system, -, tables, cluster, single, root, reserved, fits, some, type, dynamic, static,
    end_⟩ := mountBpb_ok ok
  obtain ⟨large, volume, -⟩ := mountEnd_ok end_
  rw [← read] at noWrap ⊢
  have wrapped := noWrap.system
  have limit := noWrap.volume
  have few := subType_few type
  have byte : bpb.secPerClus < 256 := by
    rw [read]
    exact (List.getD fs.win 13 0).isLt
  obtain ⟨k, short, power⟩ := secPerClus_pow byte cluster single
  -- nothing wraps around
  have fasize : u32 (bpb.fasize * bpb.numFATs) = bpb.fasize * bpb.numFATs := u32_of_lt (by omega)
  have whole : sysect = bpb.rsvdSecCnt + bpb.fasize * bpb.numFATs + bpb.rootEntCnt / 128 := by
    rw [system, ssize, fasize, u32_of_lt wrapped]
  have data : bpb.secPerClus * ((bpb.tsect - sysect) / bpb.secPerClus) ≤ bpb.tsect - sysect := Nat.mul_div_le _ _
  have positive : 0 < bpb.secPerClus * ((bpb.tsect - sysect) / bpb.secPerClus) :=
    Nat.mul_pos (Nat.pos_of_ne_zero cluster) (Nat.pos_of_ne_zero some)
  have fatbase : u32 (fs.winsect + bpb.rsvdSecCnt) = fs.winsect + bpb.rsvdSecCnt := u32_of_lt (by omega)
  have database : u32 (fs.winsect + sysect) = fs.winsect + sysect := u32_of_lt (by omega)
  have before : u32 (fs.winsect + bpb.rsvdSecCnt + bpb.fasize * bpb.numFATs) = fs.winsect + bpb.rsvdSecCnt + bpb.fasize * bpb.numFATs :=
    u32_of_lt (by omega)
  have commuted : bpb.numFATs * bpb.fasize = bpb.fasize * bpb.numFATs := Nat.mul_comm _ _
  rw [ssize] at large root
  simp only [fatbase, database] at volume large
  rw [volume]
  refine ⟨rfl, ⟨⟨nofun, ssize, ⟨k, short, power⟩, ?_, ?_, ?_⟩, ?_, tables, ?_, ?_, ?_, ?_, ?_, ?_, ?_⟩⟩
  · exact ⟨Nat.le_add_left _ _, by
      change _ + 2 ≤ _
      omega⟩
  · change 0 < fs.winsect + sysect
    omega
  · change fs.winsect + sysect + bpb.secPerClus * ((bpb.tsect - sysect) / bpb.secPerClus + 2 - 2) ≤ 2 ^ 32
    rw [Nat.add_sub_cancel]
    omega
  · change fs.winsect < fs.winsect + bpb.rsvdSecCnt
    omega
  · change fs.winsect + bpb.rsvdSecCnt + bpb.numFATs * bpb.fasize + bpb.rootEntCnt / 128 = fs.winsect + sysect
    omega
  · change 128 ∣ bpb.rootEntCnt
    exact Nat.dvd_of_mod_eq_zero root
  · intro other
    have other' : fmt ≠ .fat32 := fun same => other (congrArg _ same)
    obtain ⟨directory, place⟩ := static other'
    rw [fatbase, fasize, before] at place
    refine ⟨Nat.pos_of_ne_zero directory, ?_⟩
    change dirbase = fs.winsect + bpb.rsvdSecCnt + bpb.numFATs * bpb.fasize
    omega
  · intro fat32
    exact dynamic (Option.some.inj fat32)
  · change Option.some fmt = subType ((bpb.tsect - sysect) / bpb.secPerClus + 2 - 2)
    rw [Nat.add_sub_cancel, type]
  · intro fmt' same
    obtain rfl := Option.some.inj same
    change szbfat fmt ((bpb.tsect - sysect) / bpb.secPerClus + 2) ≤ bpb.fasize * 4096
    change (szbfat fmt ((bpb.tsect - sysect) / bpb.secPerClus + 2) + (4096 - 1)) / 4096 ≤ bpb.fasize at large
    omega
  · change fs.winsect + sysect + bpb.secPerClus * ((bpb.tsect - sysect) / bpb.secPerClus + 2 - 2) ≤ fs.winsect + bpb.tsect
    rw [Nat.add_sub_cancel]
    omega

/-- **A mounted volume**: it begins at the first place that has one, the window shows the
disk, and the parts of the volume do not overlap if the numbers of its boot sector do not
wrap around. -/
theorem mountVolume_laid (unmounted : fs.fsType = none) (ok : mountVolume m fsid fs = (.ok, fs', id)) :
    volumeAt m = some fs'.volbase ∧ fs'.Coherent m ∧
      ((readBpb (diskSector m fs'.volbase)).NoWrap fs'.volbase →
        fs'.toVolume.Laid (fs'.volbase + (readBpb (diskSector m fs'.volbase)).tsect)) := by
  obtain ⟨found, absent⟩ := findVolume_at m { fs with ssize := spiFlashSectorSize }
  rw [mountVolume, if_neg (not_not.mpr unmounted)] at ok
  cases place : volumeAt m with
  | none =>
    simp only [if_pos (absent place)] at ok
    cases ok
  | some p =>
    have small := volumeAt_lt place
    obtain ⟨sector, read⟩ : ∃ sector, sector = diskSector m p := ⟨_, rfl⟩
    rw [found p place, ← read] at ok
    simp only [show ¬ 2 ≤ 0 by decide, if_false] at ok
    obtain ⟨volbase, coherent⟩ := mountBpb_volbase ok
    change fs'.volbase = p at volbase
    refine ⟨congrArg some volbase.symm, coherent ⟨small, read⟩, fun noWrap => ?_⟩
    rw [volbase, ← read] at noWrap ⊢
    obtain ⟨-, laid⟩ := mountBpb_laid rfl ok noWrap
    exact laid

/-- An object of a volume that has not been mounted. -/
def blankFs : FATFS where
  fsType := none
  nFats := 0
  id := 0
  nRootdir := 0
  csize := 0
  ssize := 0
  nFatent := 0
  fsize := 0
  volbase := 0
  fatbase := 0
  dirbase := 0
  database := 0
  winsect := 0
  win := []

/-- The disk with a volume of 125 clusters is mounted. -/
theorem mountVolume_small : mountVolume smallDisk 0 blankFs = (.ok, smallFs, 1) := by
  obtain ⟨found, -⟩ := findVolume_at smallDisk { blankFs with ssize := spiFlashSectorSize }
  have place : volumeAt smallDisk = some 0 := by decide +kernel
  have fields : readBpb (diskSector smallDisk 0) = ⟨4096, 1, 1, 1, 128, 128, 1, 0, 0, 0, 0, 0⟩ := by decide +kernel
  rw [mountVolume, if_neg (by decide), found 0 place]
  unfold smallFs
  generalize diskSector smallDisk 0 = sector at fields ⊢
  simp [mountBpb, mountEnd, fields, Bpb.fasize, Bpb.tsect, subType, szbfat, u32, blankFs, smallVolume, spiFlashSectorSize]

/-- Its parts do not overlap. -/
theorem mountVolume_small_laid : volumeAt smallDisk = some 0 ∧ smallVolume.Laid 128 := by
  have fields : readBpb (diskSector smallDisk 0) = ⟨4096, 1, 1, 1, 128, 128, 1, 0, 0, 0, 0, 0⟩ := by decide +kernel
  obtain ⟨place, -, laid⟩ := mountVolume_laid rfl mountVolume_small
  have volbase : smallFs.volbase = 0 := rfl
  rw [volbase] at place laid
  rw [fields] at laid
  exact ⟨place, laid ⟨by decide, by decide⟩⟩

/-- The layout of the small volume. -/
theorem smallVolume_laid : smallVolume.Laid 128 where
  toSound := smallVolume_sound
  reserved := by decide
  tables := .inl rfl
  root := by decide
  whole := by decide
  static := fun _ => by decide
  dynamic := fun fat32 => absurd fat32 (by decide)
  type := by decide
  entries := by
    intro fmt same
    cases same
    decide
  ends := by decide

end Layout

end OffLineProgrammer.Fatfs
