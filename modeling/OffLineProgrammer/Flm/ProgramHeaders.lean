import OffLineProgrammer.Flm.Complete
import OffLineProgrammer.Flm.Entries

/-!
# What the program headers say

`FLM_Program_Header` takes the algorithm from one entry of the table and the device from
another, wherever they stand, and passes over the others. The block for the algorithm is
as large as `p_filesz` and the stub together, in 32 bits, and nothing looks whether the
sum wraps.
-/

namespace OffLineProgrammer.Flm
set_option autoImplicit false
open OffLineProgrammer.Lib OffLineProgrammer.Target

/-! ## Any table -/

section Table

variable (m : Media) (mem : Memory) (ehdr : Cells)

/-- `*target` after the pass for entry `a`. -/
def withAlgo (a : Nat) (t : ProgramTarget) : ProgramTarget :=
  { t with
    algoBlob := fun i => (irqHalt ++ (segmentAt m mem ehdr a).map Cell.val).getD i 0
    algoSize := pFilesz (phdrAt m mem ehdr a) + 32 }

/-- `*info` after the pass for entry `b`. -/
def withDevice (b : Nat) (info : ChipInformation) : ChipInformation where
  name := devName (flmDevVar m mem ehdr (b + 1)) ++ info.name.drop 128
  flashStart := devAdr (flmDevVar m mem ehdr (b + 1))
  flashSize := szDev (flmDevVar m mem ehdr (b + 1))
  pageSize := szPage (flmDevVar m mem ehdr (b + 1))
  sectorSize := szSector (flmDevVar m mem ehdr (b + 1))

variable {m mem ehdr} {a b : Nat}

/-- **One entry of each kind** decides what the table leaves, at whatever place. -/
theorem flmProgramHeader_foldl (algo : ∀ i < ePhnum ehdr, IsAlgo (phdrAt m mem ehdr i) ↔ i = a)
    (device : ∀ i < ePhnum ehdr, IsDevice (phdrAt m mem ehdr i) ↔ i = b) (other : a ≠ b) (ina : a < ePhnum ehdr)
    (inb : b < ePhnum ehdr) (target : ProgramTarget) (info : ChipInformation) :
    (flmProgramHeader m mem ehdr).foldl Assign.apply (target, info) =
      (withAlgo m mem ehdr a target, withDevice m mem ehdr b info) := by
  have run := @Passes.foldl_passes _ _ _ (programHeaderPass m mem ehdr)
    ⟨mem.fresh .phdr sizeofPhdr, mem.fresh .flmDev sizeofFlmDev⟩ Assign.apply
    (fun i => (if a < i then withAlgo m mem ehdr a target else target,
      if b < i then withDevice m mem ehdr b info else info)) (ePhnum ehdr) ?_
  · rw [if_neg (Nat.not_lt_zero a), if_neg (Nat.not_lt_zero b), if_pos ina, if_pos inb] at run
    exact run
  · intro i inside
    have kinds := algo i inside
    have kinds' := device i inside
    rw [header_yielded, headerAssigns]
    rcases Decidable.em (i = a) with rfl | notAlgo
    · rw [if_pos (kinds.mpr rfl), if_neg (Nat.lt_irrefl i), if_pos (Nat.lt_succ_self i)]
      have same : b < i + 1 ↔ b < i := by omega
      simp only [same]
      rfl
    · have same : a < i + 1 ↔ a < i := by omega
      rw [if_neg (mt kinds.mp notAlgo)]
      rcases Decidable.em (i = b) with rfl | notDevice
      · rw [if_pos (kinds'.mpr rfl), if_neg (Nat.lt_irrefl i), if_pos (Nat.lt_succ_self i)]
        simp only [same]
        rfl
      · have same' : b < i + 1 ↔ b < i := by omega
        rw [if_neg (mt kinds'.mp notDevice)]
        simp only [same, same']
        rfl

end Table

/-! ## The two entries of a file -/

section File

variable (file : List Byte)

/-- Segment `i` is loadable and can be read, but is no code. -/
def Descriptor (i : Nat) : Prop := ¬ Code file i ∧ segmentType file i = PT_LOAD ∧ segmentFlags file i &&& PF_R = PF_R

instance (i : Nat) : Decidable (Descriptor file i) := by unfold Descriptor; infer_instance

/-- Segment `a` is the one segment of code, and segment `b` the one that describes the device. -/
structure Described (a b : Nat) : Prop extends Loadable file a where
  device : b < segmentCount file ∧ Descriptor file b
  onlyDevice : ∀ i < segmentCount file, Descriptor file i → i = b
  descriptor : segmentOffset file b + sizeofFlmDev ≤ file.length

/-- The fields of `struct FLM_DEV` in segment `b`. -/
def described (b : Nat) (info : ChipInformation) : ChipInformation where
  name := (file.drop (segmentOffset file b + 2)).take 128 ++ info.name.drop 128
  flashStart := fileWord file (segmentOffset file b + 132)
  flashSize := fileWord file (segmentOffset file b + 136)
  pageSize := fileWord file (segmentOffset file b + 140)
  sectorSize := fileWord file (segmentOffset file b + 160)

end File

section Parser

variable {m : Media} {mem : Memory} {a b : Nat}

theorem isAlgo_iff (ok : m.Succeeds) (load : Loadable m.file a) {i : Nat} (inside : i < segmentCount m.file) :
    IsAlgo (phdrAt m mem (fileHeader m mem) i) ↔ Code m.file i := by
  rw [IsAlgo, pType, pFlags, phdrAt_word ok load inside (by decide), phdrAt_word ok load inside (by decide)]
  rfl

theorem isDevice_iff (ok : m.Succeeds) (load : Loadable m.file a) {i : Nat} (inside : i < segmentCount m.file) :
    IsDevice (phdrAt m mem (fileHeader m mem) i) ↔ Descriptor m.file i := by
  rw [IsDevice, isAlgo_iff ok load inside, pType, pFlags, phdrAt_word ok load inside (by decide),
    phdrAt_word ok load inside (by decide)]
  rfl

/-- The descriptor as it is read. -/
theorem flmDevVar_byte (ok : m.Succeeds) (file : Described m.file a b) {c : Nat} (less : c < sizeofFlmDev) :
    byteAt (flmDevVar m mem (fileHeader m mem) (b + 1)) c = fileByte m.file (segmentOffset m.file b + c) := by
  have offset : (pOffset (phdrAt m mem (fileHeader m mem) b)).toNat = segmentOffset m.file b :=
    congrArg BitVec.toNat (phdrAt_word ok file.toLoadable file.device.1 (by decide))
  have length := length_flmDevVar m mem (fileHeader m mem) b
  rw [flmDevVar, if_pos ((isDevice_iff ok file.toLoadable file.device.1).mpr file.device.2),
    byteAt_read ok (by rw [offset, length]; exact file.descriptor) (by rw [length]; exact less), offset]

theorem flmDevVar_word (ok : m.Succeeds) (file : Described m.file a b) {c : Nat} (less : c + 4 ≤ sizeofFlmDev) :
    wordAt (flmDevVar m mem (fileHeader m mem) (b + 1)) c = fileWord m.file (segmentOffset m.file b + c) := by
  rw [wordAt, flmDevVar_byte ok file (by omega), flmDevVar_byte ok file (by omega), flmDevVar_byte ok file (by omega),
    flmDevVar_byte ok file (by omega)]
  rfl

theorem devName_eq (ok : m.Succeeds) (file : Described m.file a b) :
    devName (flmDevVar m mem (fileHeader m mem) (b + 1)) = (m.file.drop (segmentOffset m.file b + 2)).take 128 := by
  have descriptor := file.descriptor
  have size : sizeofFlmDev = 176 := rfl
  apply List.ext_getElem
  · rw [devName, List.length_map, List.length_range, List.length_take, List.length_drop]
    omega
  · intro i hi hj
    rw [devName, List.length_map, List.length_range] at hi
    have inside : segmentOffset m.file b + (2 + i) < m.file.length := by omega
    have place : segmentOffset m.file b + 2 + i = segmentOffset m.file b + (2 + i) := by omega
    simp only [devName, List.getElem_map, List.getElem_range, List.getElem_take, List.getElem_drop, place]
    rw [flmDevVar_byte ok file (by omega), fileByte, List.getD_eq_getElem _ _ inside]

theorem withDevice_eq (ok : m.Succeeds) (file : Described m.file a b) (info : ChipInformation) :
    withDevice m mem (fileHeader m mem) b info = described m.file b info := by
  rw [withDevice, described, devName_eq ok file, devAdr, szDev, szPage, szSector, flmDevVar_word ok file (by decide),
    flmDevVar_word ok file (by decide), flmDevVar_word ok file (by decide), flmDevVar_word ok file (by decide)]

/-- **The program headers are decoded in any order**: `*target` gets the algorithm of the
entry for code and `*info` the fields of the descriptor, and no other entry has a say. -/
theorem programHeaders_decoded (ok : m.Succeeds) (file : Described m.file a b) (target : ProgramTarget)
    (info : ChipInformation) :
    ∃ t, (flmProgramHeader m mem (fileHeader m mem)).foldl Assign.apply (target, info) = (t, described m.file b info) ∧
      t.image = irqHalt ++ segmentBytes m.file a ∧ t.algoSize.toNat = segmentSize m.file a + 32 ∧
      t = { target with algoBlob := t.algoBlob, algoSize := t.algoSize } := by
  have count := @ePhnum_eq m mem ok file.header
  have algo : ∀ i < ePhnum (fileHeader m mem), IsAlgo (phdrAt m mem (fileHeader m mem) i) ↔ i = a := by
    intro i inside
    rw [count] at inside
    rw [isAlgo_iff ok file.toLoadable inside]
    exact ⟨file.only i inside, fun same => same ▸ file.code.2⟩
  have device : ∀ i < ePhnum (fileHeader m mem), IsDevice (phdrAt m mem (fileHeader m mem) i) ↔ i = b := by
    intro i inside
    rw [count] at inside
    rw [isDevice_iff ok file.toLoadable inside]
    exact ⟨file.onlyDevice i inside, fun same => same ▸ file.device.2⟩
  have other : a ≠ b := fun same => file.device.2.1 (same ▸ file.code.2)
  have size : (pFilesz (phdrAt m mem (fileHeader m mem) a)).toNat = segmentSize m.file a :=
    congrArg BitVec.toNat (phdrAt_word ok file.toLoadable file.code.1 (by decide))
  have whole : (pFilesz (phdrAt m mem (fileHeader m mem) a) + 32).toNat = segmentSize m.file a + 32 := by
    have block := file.block
    have stub : irqHalt.length = 32 := rfl
    have small : (32 : Word).toNat = 32 := rfl
    rw [BitVec.toNat_add, small, size]
    omega
  refine ⟨withAlgo m mem (fileHeader m mem) a target, ?_, ?_, whole, rfl⟩
  · rw [flmProgramHeader_foldl algo device other (by rw [count]; exact file.code.1) (by rw [count]; exact file.device.1),
      withDevice_eq ok file]
  · have segment : (segmentAt m mem (fileHeader m mem) a).map Cell.val = segmentBytes m.file a :=
      bytes_segmentAt ok file.toLoadable
    have length : (irqHalt ++ segmentBytes m.file a).length = segmentSize m.file a + 32 := by
      rw [List.length_append, file.length_segment, Nat.add_comm]
      rfl
    rw [ProgramTarget.image, withAlgo, whole, segment, ← length]
    exact read_getD _

end Parser

/-- A descriptor, an entry that is not loadable, and eight bytes of code. -/
def orderedFile : List Byte :=
  elf32Ehdr 52 0 3 0 ++ elf32Phdr PT_LOAD 156 176 PF_R ++ elf32Phdr 2 0 64 pfXWR ++ elf32Phdr PT_LOAD 148 8 pfXWR ++
    [0x00, 0xBF, 0x00, 0x20, 0x70, 0x47, 0x00, 0x00] ++ flmDev 0x1000 0x100 0x400

theorem orderedFile_described : Described orderedFile 2 0 where
  small := by decide +kernel
  header := by decide +kernel
  headers := by decide +kernel
  code := by decide +kernel
  only := by decide +kernel
  inside := by decide +kernel
  block := by decide +kernel
  device := by decide +kernel
  onlyDevice := by decide +kernel
  descriptor := by decide +kernel

theorem programHeaders_decoded_ordered : ∃ r : ProgramTarget × ChipInformation,
    (flmProgramHeader (Media.whole orderedFile) zeroMemory (fileHeader (Media.whole orderedFile) zeroMemory)).foldl
      Assign.apply (flashAlgo, noInformation) = r ∧
    r.1.image = irqHalt ++ [0x00, 0xBF, 0x00, 0x20, 0x70, 0x47, 0x00, 0x00] ∧ r.1.algoSize.toNat = 40 ∧
    r.2.flashStart = 0x08000000 ∧ r.2.flashSize = 0x1000 ∧ r.2.pageSize = 0x100 ∧ r.2.sectorSize = 0x400 := by
  obtain ⟨t, decoded, image, size, -⟩ := @programHeaders_decoded (Media.whole orderedFile) zeroMemory 2 0
    (Media.whole_succeeds orderedFile) orderedFile_described flashAlgo noInformation
  have fields : (described orderedFile 0 noInformation).flashStart = 0x08000000 ∧
      (described orderedFile 0 noInformation).flashSize = 0x1000 ∧
      (described orderedFile 0 noInformation).pageSize = 0x100 ∧
      (described orderedFile 0 noInformation).sectorSize = 0x400 := by
    decide +kernel
  refine ⟨(t, described orderedFile 0 noInformation), decoded, ?_, ?_, fields⟩
  · rw [image]
    exact congrArg (irqHalt ++ ·) (by decide +kernel)
  · rw [size]
    decide +kernel

/-! ## The block for the algorithm -/

section Block

variable (m : Media) (mem : Memory) (ehdr : Cells)

/-- The bytes of the block that `malloc` is asked for. -/
def blockBytes (phdr : Cells) : Nat := (pFilesz phdr + 32).toNat

/-- Pass `i` stores byte `x` of its block: a byte of the stub, or one that the read of the
segment delivers behind it. -/
def StoredAt (i x : Nat) : Prop :=
  x < irqHalt.length ∨ ∃ k, x = irqHalt.length + k ∧ siteAt (segmentAt m mem ehdr i) k = some (.segment i)

/-- Every byte that is stored is inside its block, and so is what `algo_size` covers. -/
def BlockKept (target : ProgramTarget) (info : ChipInformation) : Prop :=
  (∀ i < ePhnum ehdr, IsAlgo (phdrAt m mem ehdr i) → ∀ x, StoredAt m mem ehdr i x → x < blockBytes (phdrAt m mem ehdr i)) ∧
  ∀ a, lastHeader m mem ehdr IsAlgo = some a →
    ((flmProgramHeader m mem ehdr).foldl Assign.apply (target, info)).1.algoSize.toNat ≤ blockBytes (phdrAt m mem ehdr a)

variable {m mem ehdr}

/-- The read of a segment delivers no more than its size. -/
theorem segmentAt_delivered {i k : Nat} (delivered : siteAt (segmentAt m mem ehdr i) k = some (.segment i)) :
    k < (pFilesz (phdrAt m mem ehdr i)).toNat := by
  rw [segmentAt, siteAt_readDataFromFile, Memory.length_fresh, siteAt_fresh] at delivered
  split at delivered
  · rename_i got
    exact Nat.lt_of_lt_of_le got (m.got_le ..).1
  · cases delivered

/-- A sum that does not wrap makes room for both. -/
theorem storedAt_inside {i x : Nat} (whole : (pFilesz (phdrAt m mem ehdr i)).toNat + irqHalt.length < 2 ^ 32)
    (stored : StoredAt m mem ehdr i x) : x < blockBytes (phdrAt m mem ehdr i) := by
  have stub : irqHalt.length = 32 := rfl
  have block : blockBytes (phdrAt m mem ehdr i) = (pFilesz (phdrAt m mem ehdr i)).toNat + 32 := by
    have small : (32 : Word).toNat = 32 := rfl
    rw [blockBytes, BitVec.toNat_add, small]
    omega
  rw [block]
  rcases stored with front | ⟨k, rfl, delivered⟩
  · omega
  · have less := segmentAt_delivered delivered
    omega

/-- A sum that wraps does not even make room for the stub. -/
theorem blockBytes_wraps {i : Nat} (wraps : 2 ^ 32 ≤ (pFilesz (phdrAt m mem ehdr i)).toNat + irqHalt.length) :
    blockBytes (phdrAt m mem ehdr i) < irqHalt.length := by
  have stub : irqHalt.length = 32 := rfl
  have bound := (pFilesz (phdrAt m mem ehdr i)).isLt
  have small : (32 : Word).toNat = 32 := rfl
  rw [blockBytes, BitVec.toNat_add, small]
  omega

/-- `algo_size` is what `malloc` was asked for. -/
theorem algoSize_block {a : Nat} (last : lastHeader m mem ehdr IsAlgo = some a) (target : ProgramTarget)
    (info : ChipInformation) : ((flmProgramHeader m mem ehdr).foldl Assign.apply (target, info)).1.algoSize.toNat =
      blockBytes (phdrAt m mem ehdr a) := by
  rw [algoSize_last, programHeader_algo, last]
  rfl

/-- **The block is large enough** exactly where no entry for code has a size that wraps
around with the stub. -/
theorem blockKept_iff (m : Media) (mem : Memory) (ehdr : Cells) (target : ProgramTarget) (info : ChipInformation) :
    BlockKept m mem ehdr target info ↔
      ∀ i < ePhnum ehdr, IsAlgo (phdrAt m mem ehdr i) →
        (pFilesz (phdrAt m mem ehdr i)).toNat + irqHalt.length < 2 ^ 32 := by
  constructor
  · rintro ⟨inside, -⟩ i less algo
    apply Nat.lt_of_not_le
    intro wraps
    exact Nat.lt_irrefl _ (inside i less algo _ (Or.inl (blockBytes_wraps wraps)))
  · intro whole
    exact ⟨fun i less algo x stored => storedAt_inside (whole i less algo) stored, fun a last =>
      Nat.le_of_eq (algoSize_block last target info)⟩

end Block

/-- One entry for code whose size leaves 16 bytes up to the top. -/
def wrappingFile : List Byte := elf32Ehdr 52 0 1 0 ++ elf32Phdr PT_LOAD 84 0xFFFFFFF0 pfXWR

/-- The block has 16 bytes, and the stub 32. -/
theorem blockKept_not : ¬ BlockKept (Media.whole wrappingFile) zeroMemory
    (fileHeader (Media.whole wrappingFile) zeroMemory) flashAlgo noInformation := by
  rintro ⟨inside, -⟩
  have algo : IsAlgo (phdrAt (Media.whole wrappingFile) zeroMemory (fileHeader (Media.whole wrappingFile) zeroMemory) 0) := by
    decide +kernel
  have block : blockBytes (phdrAt (Media.whole wrappingFile) zeroMemory
      (fileHeader (Media.whole wrappingFile) zeroMemory) 0) = 16 := by
    decide +kernel
  have room := inside 0 (by decide +kernel) algo 16 (Or.inl (by decide))
  rw [block] at room
  exact Nat.lt_irrefl 16 room

end OffLineProgrammer.Flm
