import OffLineProgrammer.Storage.DriverSpec
import OffLineProgrammer.Lib.Blocks

/-!
# Volumes, from diskio.c and ff.c

FatFs reads the flash in sectors of 4096 bytes. It keeps one sector of the volume in a
window and decodes the table of clusters from there.
-/

namespace OffLineProgrammer.Fatfs
set_option autoImplicit false
open OffLineProgrammer.Lib OffLineProgrammer.Storage

/-- `FRESULT` -/
inductive FRESULT where
  | ok
  | diskErr
  | intErr
  | noFile
  | noPath
  | invalidName
  | denied
  | invalidObject
  | notEnabled
  | noFilesystem
  deriving DecidableEq

/-- `FS_FAT12`, `FS_FAT16` and `FS_FAT32` -/
inductive FsType where
  | fat12
  | fat16
  | fat32
  deriving DecidableEq

/-- What `mount_volume` finds out; `fsType` is null until the volume is mounted. -/
structure Volume where
  fsType : Option FsType
  nFats : Nat
  id : Nat
  nRootdir : Nat
  csize : Nat
  ssize : Nat
  nFatent : Nat
  fsize : Nat
  volbase : Nat
  fatbase : Nat
  dirbase : Nat
  database : Nat

/-- `FATFS`: the volume and its window. -/
structure FATFS extends Volume where
  winsect : Nat
  win : List Byte

/-! ## The disk -/

/-- What the chip sends for a read of `n` bytes: of the address it takes 24 bits. -/
def chipRead (m : Mem) (addr n : Nat) : List Byte := (List.range n).map fun i => m ((addr % chipSize + i) % chipSize)

/-- One sector of the flash. -/
def diskSector (m : Mem) (sector : Nat) : List Byte := chipRead m (u32 (sector * spiFlashSectorSize)) spiFlashSectorSize

/-- `disk_read`: what it puts in the buffer; it never fails. -/
def diskRead (m : Mem) (sector count : Nat) : List Byte :=
  (List.range count).flatMap fun i => diskSector m (u32 (sector + i))

/-- `disk_read` on the bus, into a buffer of whole sectors. -/
def diskReadBus (sector : Nat) : Nat → Nat → List Byte → Bus → Bus × List Byte
  | 0, _, _, b => (b, [])
  | count + 1, i, buff, b =>
    let r := flashReadData (u32 (u32 (sector + i) * spiFlashSectorSize)) (buff.take spiFlashSectorSize) b
    let rest := diskReadBus sector count (i + 1) (buff.drop spiFlashSectorSize) r.1
    (rest.1, r.2 ++ rest.2)

/-! ## The window -/

/-- `ld_word` -/
def ldWord (win : List Byte) (i : Nat) : Nat := (win.getD i 0).toNat + 256 * (win.getD (i + 1) 0).toNat

/-- `ld_dword` -/
def ldDword (win : List Byte) (i : Nat) : Nat := ldWord win i + 65536 * ldWord win (i + 2)

/-- `move_window`, for a window that has not been written to. -/
def moveWindow (m : Mem) (sect : Nat) (fs : FATFS) : FATFS :=
  if sect ≠ fs.winsect then { fs with win := diskRead m sect 1, winsect := sect } else fs

/-- `clst2sect`: 0 for a number that is not a cluster's. -/
def clst2sect (vol : Volume) (clst : Nat) : Nat :=
  let clst := u32 (clst + 2 ^ 32 - 2)
  if u32 (vol.nFatent + 2 ^ 32 - 2) ≤ clst then 0 else u32 (vol.database + vol.csize * clst)

/-- `get_fat`: the entry, and the window moved. -/
def getFat (m : Mem) (clst : Nat) (fs : FATFS) : Nat × FATFS :=
  if clst < 2 ∨ fs.nFatent ≤ clst then (1, fs)
  else match fs.fsType with
    | some .fat12 =>
      let bc := clst + clst / 2
      let fs := moveWindow m (u32 (fs.fatbase + bc / fs.ssize)) fs
      let wc := (fs.win.getD (bc % fs.ssize) 0).toNat
      let fs := moveWindow m (u32 (fs.fatbase + (bc + 1) / fs.ssize)) fs
      let wc := wc + 256 * (fs.win.getD ((bc + 1) % fs.ssize) 0).toNat
      (if clst % 2 = 1 then wc / 16 else wc % 4096, fs)
    | some .fat16 =>
      let fs := moveWindow m (u32 (fs.fatbase + clst / (fs.ssize / 2))) fs
      (ldWord fs.win (u32 (clst * 2) % fs.ssize), fs)
    | some .fat32 =>
      let fs := moveWindow m (u32 (fs.fatbase + clst / (fs.ssize / 4))) fs
      (ldDword fs.win (u32 (clst * 4) % fs.ssize) % 2 ^ 28, fs)
    | none => (1, fs)

/-! ## What the disk holds -/

section Disk

variable {m : Mem}

@[simp] theorem length_diskSector (m : Mem) (sector : Nat) : (diskSector m sector).length = 4096 := by
  rw [diskSector, chipRead, List.length_map, List.length_range]

theorem length_diskRead (m : Mem) (sector count : Nat) : (diskRead m sector count).length = 4096 * count := by
  rw [diskRead, Blocks.length_blocks fun _ _ => length_diskSector .., List.length_range]

theorem diskRead_one {m : Mem} {sector : Nat} (small : sector < 2 ^ 32) : diskRead m sector 1 = diskSector m sector := by
  have same : u32 sector = sector := u32_of_lt small
  simp only [diskRead, List.range_one, List.flatMap_cons, List.flatMap_nil, List.append_nil, Nat.add_zero, same]

/-- Some of the sectors of a read. -/
theorem diskRead_slice (m : Mem) (sector : Nat) {n j c : Nat} (inside : j + c ≤ n) :
    ((diskRead m sector n).drop (4096 * j)).take (4096 * c) = diskRead m (sector + j) c := by
  have cut : ((List.range n).drop j).take c = (List.range c).map (j + ·) := by
    apply List.ext_getElem
    · rw [List.length_take, List.length_drop, List.length_range, List.length_map, List.length_range]
      omega
    · intro i _ _
      rw [List.getElem_take, List.getElem_drop, List.getElem_range, List.getElem_map, List.getElem_range]
  rw [diskRead, Blocks.slice_blocks fun _ _ => length_diskSector .., cut, List.flatMap_map, diskRead]
  simp only [Nat.add_assoc]

/-- What a read puts in its buffer, wherever it starts. -/
theorem flashReadData_chip {b : Bus} (ready : b.Ready m) (addr : Nat) (data : List Byte) :
    (flashReadData addr data b).2 = chipRead m addr data.length := by
  have selected : (spiCs 0 b).selected = true := by simp [spiCs, ready.released]
  have sent := spiRw_bus (command CMD_FLASH_READ addr) selected
  have header : (spiRw (command CMD_FLASH_READ addr) (spiCs 0 b)).1.shifted = command CMD_FLASH_READ addr := by
    rw [sent]
    simp [spiCs, ready.released]
  have chip : (spiRw (command CMD_FLASH_READ addr) (spiCs 0 b)).1.chip = b.chip := by
    rw [sent]
    simp [spiCs, ready.released]
  have cells := spiRw_read data (by rw [sent]; exact selected) (by rw [chip]; exact ready.idle) header
  change (spiRw data (spiRw (command CMD_FLASH_READ addr) (spiCs 0 b)).1).2 = _
  rw [cells, chip, ready.stored, addr24_bytes, chipRead]
  rfl

/-- **`disk_read` reads what the chip holds**, sector after sector. -/
theorem diskReadBus_ready {b : Bus} (ready : b.Ready m) (sector count i : Nat) (buff : List Byte)
    (room : 4096 * count ≤ buff.length) :
    (diskReadBus sector count i buff b).1.Ready m ∧ (diskReadBus sector count i buff b).2 = diskRead m (sector + i) count := by
  induction count generalizing i buff b with
  | zero => exact ⟨ready, rfl⟩
  | succ count ih =>
    have size : spiFlashSectorSize = 4096 := rfl
    have length : (buff.take spiFlashSectorSize).length = 4096 := by
      rw [List.length_take]
      omega
    have first := flashReadData_chip ready (u32 (u32 (sector + i) * spiFlashSectorSize)) (buff.take spiFlashSectorSize)
    rw [length] at first
    have ready' := flashReadData_keeps ready (u32 (u32 (sector + i) * spiFlashSectorSize)) (buff.take spiFlashSectorSize)
    obtain ⟨ready'', rest⟩ := ih ready' (i + 1) (buff.drop spiFlashSectorSize) (by
      rw [List.length_drop]
      omega)
    refine ⟨ready'', ?_⟩
    have next : ∀ k, sector + (i + 1) + k = sector + i + (k + 1) := fun k => by omega
    rw [diskReadBus, rest, first, diskRead, diskRead, List.range_succ_eq_map, List.flatMap_cons, List.flatMap_map]
    simp only [Nat.add_zero, next]
    rfl

end Disk

end OffLineProgrammer.Fatfs
