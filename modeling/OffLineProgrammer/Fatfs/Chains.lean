import OffLineProgrammer.Fatfs.File
import OffLineProgrammer.Lib.Linked
import Mathlib.Data.Nat.Bitwise

/-!
# Chains of clusters

What the table of clusters says without the window, and the content of a file: the data of
the clusters of its chain, as far as its size goes.
-/

namespace OffLineProgrammer.Fatfs
set_option autoImplicit false
open OffLineProgrammer.Lib OffLineProgrammer.Storage
open OffLineProgrammer.Lib.Linked (Chain)

/-! ## The table -/

/-- The entry of a cluster. -/
def fatEntry (m : Mem) (vol : Volume) (clst : Nat) : Nat :=
  let sector := fun i => diskSector m (u32 (vol.fatbase + i))
  match vol.fsType with
  | some .fat12 =>
    let bc := clst + clst / 2
    let wc := ((sector (bc / vol.ssize)).getD (bc % vol.ssize) 0).toNat +
      256 * ((sector ((bc + 1) / vol.ssize)).getD ((bc + 1) % vol.ssize) 0).toNat
    if clst % 2 = 1 then wc / 16 else wc % 4096
  | some .fat16 => ldWord (sector (clst / (vol.ssize / 2))) (u32 (clst * 2) % vol.ssize)
  | some .fat32 => ldDword (sector (clst / (vol.ssize / 4))) (u32 (clst * 4) % vol.ssize) % 2 ^ 28
  | none => 1

/-- A cluster of the data area. -/
def Volume.IsCluster (vol : Volume) (clst : Nat) : Prop := 2 ≤ clst ∧ clst < vol.nFatent

instance Volume.decidableIsCluster (vol : Volume) (clst : Nat) : Decidable (vol.IsCluster clst) :=
  inferInstanceAs (Decidable (2 ≤ clst ∧ clst < vol.nFatent))

/-- The number of a cluster, if it is one. -/
def Volume.cluster? (vol : Volume) (clst : Nat) : Option Nat := if vol.IsCluster clst then some clst else none

/-- The cluster after another. -/
def nextCluster (m : Mem) (vol : Volume) (clst : Nat) : Option Nat := vol.cluster? (fatEntry m vol clst)

/-- The bytes of a cluster. -/
def clusterData (m : Mem) (vol : Volume) (clst : Nat) : List Byte := diskRead m (clst2sect vol clst) vol.csize

/-- The content of a file. -/
def content (m : Mem) (vol : Volume) (clusters : List Nat) (objsize : Nat) : List Byte :=
  (clusters.flatMap (clusterData m vol)).take objsize

/-- The window shows the sector it says. -/
def FATFS.Coherent (m : Mem) (fs : FATFS) : Prop := fs.winsect < 2 ^ 32 ∧ fs.win = diskSector m fs.winsect

/-- A mounted volume whose data area lies within the numbers of sectors. -/
structure Volume.Sound (vol : Volume) : Prop where
  mounted : vol.fsType ≠ none
  ssize : vol.ssize = 4096
  csize : ∃ k, k ≤ 7 ∧ vol.csize = 2 ^ k
  nFatent : 2 ≤ vol.nFatent ∧ vol.nFatent ≤ 0x0FFFFFF7
  database : 0 < vol.database
  fits : vol.database + vol.csize * (vol.nFatent - 2) ≤ 2 ^ 32

/-- The clusters of a file, enough of them for its size. -/
structure Clusters (m : Mem) (vol : Volume) (sclust objsize : Nat) (clusters : List Nat) : Prop where
  chain : Chain (nextCluster m vol) (vol.cluster? sclust) clusters
  enough : objsize ≤ vol.csize * 4096 * clusters.length
  small : objsize < 2 ^ 32

section Window

variable {m : Mem} {fs : FATFS} {clst sect : Nat}

@[simp] theorem moveWindow_volume (m : Mem) (sect : Nat) (fs : FATFS) : (moveWindow m sect fs).toVolume = fs.toVolume := by
  unfold moveWindow
  split <;> rfl

/-- The window after it has been moved. -/
theorem moveWindow_coherent (coherent : fs.Coherent m) (small : sect < 2 ^ 32) :
    (moveWindow m sect fs).Coherent m ∧ (moveWindow m sect fs).win = diskSector m sect := by
  unfold moveWindow
  split
  · have read : diskRead m sect 1 = diskSector m sect := diskRead_one small
    simp only [FATFS.Coherent, read]
    exact ⟨⟨small, trivial⟩, trivial⟩
  · rename_i here
    obtain rfl : sect = fs.winsect := not_not.mp here
    exact ⟨coherent, coherent.2⟩

@[simp] theorem moveWindow_fatbase (m : Mem) (sect : Nat) (fs : FATFS) : (moveWindow m sect fs).fatbase = fs.fatbase :=
  congrArg Volume.fatbase (moveWindow_volume m sect fs)

@[simp] theorem moveWindow_ssize (m : Mem) (sect : Nat) (fs : FATFS) : (moveWindow m sect fs).ssize = fs.ssize :=
  congrArg Volume.ssize (moveWindow_volume m sect fs)

theorem u32_lt (n : Nat) : u32 n < 2 ^ 32 := by
  unfold u32
  omega

/-- **`get_fat` reads the entry**, whatever the window shows. -/
theorem getFat_entry (coherent : fs.Coherent m) (is : fs.IsCluster clst) :
    (getFat m clst fs).1 = fatEntry m fs.toVolume clst ∧ (getFat m clst fs).2.Coherent m ∧
      (getFat m clst fs).2.toVolume = fs.toVolume := by
  have inside : ¬ (clst < 2 ∨ fs.nFatent ≤ clst) := by
    obtain ⟨low, high⟩ := is
    omega
  unfold getFat fatEntry
  rw [if_neg inside]
  cases type : fs.fsType with
  | none => exact ⟨rfl, coherent, rfl⟩
  | some type' =>
    cases type' with
    | fat12 =>
      obtain ⟨coherent₁, win₁⟩ := moveWindow_coherent coherent (u32_lt (fs.fatbase + (clst + clst / 2) / fs.ssize))
      obtain ⟨coherent₂, win₂⟩ := moveWindow_coherent coherent₁ (u32_lt (fs.fatbase + (clst + clst / 2 + 1) / fs.ssize))
      simp only [moveWindow_fatbase, moveWindow_ssize, win₁, win₂]
      refine ⟨trivial, coherent₂, ?_⟩
      rw [moveWindow_volume, moveWindow_volume]
    | fat16 =>
      obtain ⟨coherent', win⟩ := moveWindow_coherent coherent (u32_lt (fs.fatbase + clst / (fs.ssize / 2)))
      simp only [moveWindow_ssize, win]
      exact ⟨trivial, coherent', moveWindow_volume ..⟩
    | fat32 =>
      obtain ⟨coherent', win⟩ := moveWindow_coherent coherent (u32_lt (fs.fatbase + clst / (fs.ssize / 4)))
      simp only [moveWindow_ssize, win]
      exact ⟨trivial, coherent', moveWindow_volume ..⟩

end Window

/-! ## Clusters and sectors -/

section Sectors

variable {m : Mem} {vol : Volume} {sclust objsize c d i k j n r cc : Nat} {clusters : List Nat}

/-- The sector size that a mounted volume has. -/
theorem Volume.Sound.mountedSize {fs : FATFS} (sound : vol.Sound) (volume : fs.toVolume = vol) : fs.ssize = 4096 :=
  (congrArg Volume.ssize volume).trans sound.ssize

theorem cluster_some (some : vol.cluster? c = some d) : c = d ∧ vol.IsCluster d := by
  unfold Volume.cluster? at some
  split at some
  · cases some
    exact ⟨rfl, ‹_›⟩
  · cases some

/-- Where a cluster lies. -/
theorem clst2sect_cluster (sound : vol.Sound) (is : vol.IsCluster c) :
    clst2sect vol c = vol.database + vol.csize * (c - 2) ∧ 0 < clst2sect vol c ∧ clst2sect vol c + vol.csize ≤ 2 ^ 32 := by
  obtain ⟨low, high⟩ := is
  obtain ⟨few, many⟩ := sound.nFatent
  obtain ⟨e, -, csize⟩ := sound.csize
  have positive : 0 < vol.csize := csize ▸ Nat.two_pow_pos e
  have number : u32 (c + 2 ^ 32 - 2) = c - 2 := by
    unfold u32
    omega
  have bound : u32 (vol.nFatent + 2 ^ 32 - 2) = vol.nFatent - 2 := by
    unfold u32
    omega
  have room : vol.csize * (c - 2) + vol.csize ≤ vol.csize * (vol.nFatent - 2) := by
    rw [← Nat.mul_succ]
    exact Nat.mul_le_mul_left _ (by omega)
  have fits := sound.fits
  have database := sound.database
  have place : clst2sect vol c = vol.database + vol.csize * (c - 2) := by
    rw [clst2sect, number, bound, if_neg (by omega)]
    exact u32_of_lt (by omega)
  rw [place]
  omega

@[simp] theorem length_clusterData (m : Mem) (vol : Volume) (c : Nat) : (clusterData m vol c).length = vol.csize * 4096 := by
  rw [clusterData, length_diskRead, Nat.mul_comm]

theorem Clusters.first (file : Clusters m vol sclust objsize clusters) (here : clusters[0]? = some c) :
    sclust = c ∧ vol.IsCluster c := by
  have head := file.chain.head
  rw [List.head?_eq_getElem?, here] at head
  exact cluster_some head

theorem Clusters.next (file : Clusters m vol sclust objsize clusters) (here : clusters[i]? = some c)
    (there : clusters[i + 1]? = some d) : fatEntry m vol c = d ∧ vol.IsCluster d := by
  have succ := file.chain.succ here
  rw [there] at succ
  exact cluster_some succ.symm

theorem Clusters.isCluster (file : Clusters m vol sclust objsize clusters) (here : clusters[i]? = some c) : vol.IsCluster c := by
  cases i with
  | zero => exact (file.first here).2
  | succ i =>
    obtain ⟨less, -⟩ := List.getElem?_eq_some_iff.mp here
    exact (file.next (List.getElem?_eq_getElem (by omega)) here).2

/-- A place in the file lies in one of its clusters. -/
theorem Clusters.has (file : Clusters m vol sclust objsize clusters) (inside : i < objsize) :
    ∃ c, clusters[i / (vol.csize * 4096)]? = some c := by
  have enough := file.enough
  have less : i / (vol.csize * 4096) < clusters.length := by
    apply Nat.div_lt_of_lt_mul
    omega
  exact ⟨_, List.getElem?_eq_getElem less⟩

theorem length_content (file : Clusters m vol sclust objsize clusters) : (content m vol clusters objsize).length = objsize := by
  have enough := file.enough
  rw [content, List.length_take, Blocks.length_blocks fun _ _ => length_clusterData ..]
  omega

/-- Some of the content within one cluster. -/
theorem content_cluster (here : clusters[k]? = some c) {x : Nat} (within : x + n ≤ vol.csize * 4096)
    (inside : vol.csize * 4096 * k + x + n ≤ objsize) :
    ((content m vol clusters objsize).drop (vol.csize * 4096 * k + x)).take n = ((clusterData m vol c).drop x).take n := by
  rw [content, List.drop_take, List.take_take, Nat.min_eq_left (by omega)]
  exact Blocks.slice_block (fun _ _ => length_clusterData ..) here within

/-- **Whole sectors of the content** are sectors of the disk. -/
theorem content_sectors (here : clusters[k]? = some c) (within : j + cc ≤ vol.csize)
    (inside : vol.csize * 4096 * k + 4096 * j + 4096 * cc ≤ objsize) :
    ((content m vol clusters objsize).drop (vol.csize * 4096 * k + 4096 * j)).take (4096 * cc) =
      diskRead m (clst2sect vol c + j) cc := by
  rw [content_cluster here (by omega) inside, clusterData, diskRead_slice m _ within]

/-- **Part of a sector of the content**. -/
theorem content_part (sound : vol.Sound) (is : vol.IsCluster c) (here : clusters[k]? = some c) (within : j < vol.csize)
    (short : r + n ≤ 4096) (inside : vol.csize * 4096 * k + 4096 * j + r + n ≤ objsize) :
    ((content m vol clusters objsize).drop (vol.csize * 4096 * k + 4096 * j + r)).take n =
      ((diskSector m (clst2sect vol c + j)).drop r).take n := by
  obtain ⟨-, -, room⟩ := clst2sect_cluster sound is
  have sector : diskSector m (clst2sect vol c + j) = ((clusterData m vol c).drop (4096 * j)).take 4096 := by
    have one := diskRead_slice m (clst2sect vol c) (n := vol.csize) (j := j) (c := 1) (by omega)
    rw [diskRead_one (by omega)] at one
    exact one.symm
  rw [Nat.add_assoc, content_cluster here (by omega) (by omega), sector, List.drop_take, List.take_take, List.drop_drop,
    Nat.min_eq_left (by omega)]

end Sectors

/-! ## A volume -/

/-- A volume with clusters of one sector. -/
def smallVolume : Volume where
  fsType := some .fat12
  nFats := 1
  id := 1
  nRootdir := 128
  csize := 1
  ssize := 4096
  nFatent := 127
  fsize := 1
  volbase := 0
  fatbase := 1
  dirbase := 2
  database := 3

/-- A disk with this volume, on which cluster 3 is followed by cluster 2. -/
def smallDisk : Mem := fun a =>
  if a < 4096 then [0xEB, 0, 0, 0, 0, 0, 0, 0, 0, 0, 0, 0x00, 0x10, 1, 1, 0, 1, 0x80, 0, 0x80, 0, 0, 1, 0].getD a 0
  else if a < 8192 then [0xF8, 0xFF, 0xFF, 0xFF, 0x2F, 0x00].getD (a - 4096) 0
  else BitVec.ofNat 8 (a / 4096)

theorem smallVolume_sound : smallVolume.Sound :=
  ⟨by decide, rfl, ⟨0, by decide, rfl⟩, by decide, by decide, by decide⟩

/-- A file of 5000 bytes. -/
theorem smallDisk_clusters : Clusters smallDisk smallVolume 3 5000 [3, 2] := by
  have first : nextCluster smallDisk smallVolume 3 = some 2 := by decide +kernel
  have second : nextCluster smallDisk smallVolume 2 = none := by decide +kernel
  refine ⟨?_, by decide, by decide⟩
  have head : smallVolume.cluster? 3 = some 3 := by decide
  rw [head]
  refine .link (first ▸ .link ?_)
  rw [second]
  exact .done

/-- The volume with the window on its first sector. -/
def smallFs : FATFS := { smallVolume with winsect := 0, win := diskSector smallDisk 0 }

theorem smallFs_coherent : smallFs.Coherent smallDisk := by
  simp only [FATFS.Coherent, smallFs, and_true]
  decide

/-- The entry of this file, `LED.BIN`. -/
def smallEntry : List Byte :=
  [0x4C, 0x45, 0x44, 0x20, 0x20, 0x20, 0x20, 0x20, 0x42, 0x49, 0x4E, 0x20] ++ List.replicate 14 0 ++ [3, 0, 0x88, 0x13, 0, 0]

theorem smallEntry_first : ldClust smallFs smallEntry = 3 := by decide

theorem smallEntry_size : ldDword smallEntry 28 = 5000 := by decide

theorem smallEntry_clusters :
    Clusters smallDisk smallFs.toVolume (ldClust smallFs smallEntry) (ldDword smallEntry 28) [3, 2] := by
  rw [smallEntry_first, smallEntry_size]
  exact smallDisk_clusters

/-- The sectors of the clusters hold their own numbers. -/
theorem smallDisk_sector {sector : Nat} (data : 2 ≤ sector) (small : sector < 4096) :
    diskSector smallDisk sector = List.replicate 4096 (BitVec.ofNat 8 sector) := by
  have chip : (chipSize : Nat) = 16777216 := rfl
  have size : (spiFlashSectorSize : Nat) = 4096 := rfl
  refine List.eq_replicate_iff.mpr ⟨length_diskSector .., fun b mem => ?_⟩
  obtain ⟨i, here, rfl⟩ := List.mem_map.mp mem
  have less : i < 4096 := List.mem_range.mp here
  have addr : (u32 (sector * spiFlashSectorSize) % chipSize + i) % chipSize = sector * 4096 + i := by
    rw [u32, size, chip]
    omega
  have number : (sector * 4096 + i) / 4096 = sector := by omega
  rw [addr, smallDisk, if_neg (by omega), if_neg (by omega), number]

/-- What the file holds. -/
theorem smallEntry_content : content smallDisk smallFs.toVolume [3, 2] (ldDword smallEntry 28) =
    List.replicate 4096 4#8 ++ List.replicate 904 3#8 := by
  have four : clst2sect smallFs.toVolume 3 = 4 := by decide
  have three : clst2sect smallFs.toVolume 2 = 3 := by decide
  have one : smallFs.csize = 1 := rfl
  have first : clusterData smallDisk smallFs.toVolume 3 = List.replicate 4096 4#8 := by
    rw [clusterData, four, one, diskRead_one (by decide), smallDisk_sector (by decide) (by decide)]
  have second : clusterData smallDisk smallFs.toVolume 2 = List.replicate 4096 3#8 := by
    rw [clusterData, three, one, diskRead_one (by decide), smallDisk_sector (by decide) (by decide)]
  rw [content, smallEntry_size, List.flatMap_cons, List.flatMap_cons, List.flatMap_nil, List.append_nil, first, second, List.take_append,
    List.take_replicate, List.take_replicate, List.length_replicate, Nat.min_eq_right (by decide), Nat.min_eq_left (by decide)]

end OffLineProgrammer.Fatfs
