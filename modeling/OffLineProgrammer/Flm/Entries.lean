import OffLineProgrammer.Flm.Image
import OffLineProgrammer.Target.ResetProgram
import OffLineProgrammer.Target.Session
import OffLineProgrammer.Target.SyscallExec

/-!
# Entry points in the downloaded algorithm

`FLM_Prase` puts the 32 bytes of `irq_halt` in front of the segment, adds
`ARM_DRIFT_RAM` to the value of a symbol and has the algorithm downloaded to the
start of RAM. The three agree: after the download an entry point addresses the
byte of the segment that its symbol names.
-/

namespace OffLineProgrammer.Flm
set_option autoImplicit false
open OffLineProgrammer.Lib OffLineProgrammer.Target

/-! ## Segments of a file -/

section File

variable (file : List Byte)

/-- The offset and the number of the program headers. -/
def segmentsOffset : Nat := (fileWord file 28).toNat
def segmentCount : Nat := (fileHalf file 44).toNat

/-- The word at byte `f` of program header `i`. -/
def segmentWord (i f : Nat) : Word := fileWord file (segmentsOffset file + i * sizeofPhdr + f)

def segmentType (i : Nat) : Word := segmentWord file i 0
def segmentOffset (i : Nat) : Nat := (segmentWord file i 4).toNat
def segmentSize (i : Nat) : Nat := (segmentWord file i 16).toNat
def segmentFlags (i : Nat) : Word := segmentWord file i 24

/-- The bytes of segment `i`. -/
def segmentBytes (i : Nat) : List Byte := (file.drop (segmentOffset file i)).take (segmentSize file i)

/-- Segment `i` is loadable, and can be read, written and executed. -/
def Code (i : Nat) : Prop := segmentType file i = PT_LOAD ∧ segmentFlags file i &&& pfXWR = pfXWR

instance (i : Nat) : Decidable (Code file i) := by unfold Code; infer_instance

/-- Segment `a` is the one segment of code. -/
structure Loadable (a : Nat) : Prop where
  /-- A file of a FAT volume. -/
  small : file.length < 2 ^ 32
  header : sizeofEhdr ≤ file.length
  headers : segmentsOffset file + segmentCount file * sizeofPhdr ≤ file.length
  code : a < segmentCount file ∧ Code file a
  only : ∀ i < segmentCount file, Code file i → i = a
  inside : segmentOffset file a + segmentSize file a ≤ file.length
  /-- A block of memory can hold it behind `irq_halt`. -/
  block : irqHalt.length + segmentSize file a < 2 ^ 32

end File

/-! ## What the parser reads of them -/

section Parser

variable {m : Media} {mem : Memory} {a : Nat}

theorem Loadable.length_segment (load : Loadable m.file a) : (segmentBytes m.file a).length = segmentSize m.file a := by
  have inside := load.inside
  rw [segmentBytes, List.length_take, List.length_drop]
  omega

theorem ePhnum_eq (ok : m.Succeeds) (header : sizeofEhdr ≤ m.file.length) :
    ePhnum (fileHeader m mem) = segmentCount m.file := by
  have length := mem.length_fresh .ehdr sizeofEhdr
  have half := @halfAt_read m .header 0 (mem.fresh .ehdr sizeofEhdr) ok (by rw [length]; exact header) 44
    (by rw [length]; decide)
  have zero : (0 : Word).toNat = 0 := rfl
  rw [zero, Nat.zero_add] at half
  rw [ePhnum, fileHeader, half]
  rfl

theorem phdrAt_word (ok : m.Succeeds) (load : Loadable m.file a) {i f : Nat} (inside : i < segmentCount m.file)
    (less : f + 4 ≤ sizeofPhdr) : wordAt (phdrAt m mem (fileHeader m mem) i) f = segmentWord m.file i f := by
  have small := load.small
  have headers := load.headers
  have length := length_phdrVar m mem (fileHeader m mem) i
  have start : (ePhoff (fileHeader m mem)).toNat = segmentsOffset m.file := by
    rw [ePhoff, fileHeader_word ok load.header (by decide)]
    rfl
  have room : i * sizeofPhdr + sizeofPhdr ≤ segmentCount m.file * sizeofPhdr := by
    rw [← Nat.succ_mul]
    exact Nat.mul_le_mul_right _ inside
  have offset : (ePhoff (fileHeader m mem) + BitVec.ofNat 32 (i * sizeofPhdr)).toNat =
      segmentsOffset m.file + i * sizeofPhdr := by
    rw [BitVec.toNat_add, BitVec.toNat_ofNat, start]
    omega
  rw [phdrAt, phdrVar, wordAt_read ok (by rw [length, offset]; omega) (by rw [length]; exact less), offset, segmentWord]

/-- The last program header of the algorithm is the one segment of code. -/
theorem Loadable.lastHeader_eq (ok : m.Succeeds) (load : Loadable m.file a) :
    lastHeader m mem (fileHeader m mem) IsAlgo = some a := by
  have algo : ∀ i < segmentCount m.file, IsAlgo (phdrAt m mem (fileHeader m mem) i) ↔ Code m.file i := by
    intro i inside
    rw [IsAlgo, pType, pFlags, phdrAt_word ok load inside (by decide), phdrAt_word ok load inside (by decide)]
    rfl
  rw [lastHeader, Passes.lastIndex_eq_some, ePhnum_eq ok load.header]
  refine ⟨load.code.1, (algo a load.code.1).mpr load.code.2, fun i above inside code => ?_⟩
  have same := load.only i inside ((algo i inside).mp code)
  omega

/-- The segment as it is read. -/
theorem bytes_segmentAt (ok : m.Succeeds) (load : Loadable m.file a) :
    bytes (segmentAt m mem (fileHeader m mem) a) = segmentBytes m.file a := by
  have size : (pFilesz (phdrAt m mem (fileHeader m mem) a)).toNat = segmentSize m.file a :=
    congrArg BitVec.toNat (phdrAt_word ok load load.code.1 (by decide))
  have offset : (pOffset (phdrAt m mem (fileHeader m mem) a)).toNat = segmentOffset m.file a :=
    congrArg BitVec.toNat (phdrAt_word ok load load.code.1 (by decide))
  have length : (mem.fresh (.algoBlob a) (pFilesz (phdrAt m mem (fileHeader m mem) a)).toNat).length =
      segmentSize m.file a := by
    rw [Memory.length_fresh, size]
  rw [segmentAt, bytes_read ok (by rw [offset, length]; exact load.inside), offset, length, segmentBytes]

/-- A list read from a memory that holds it. -/
theorem read_getD (l : List Byte) : Mem.read (fun i => l.getD i 0) 0 l.length = l := by
  apply List.ext_getElem
  · rw [Mem.length_read]
  · intro i hi hj
    rw [Mem.getElem_read, Nat.zero_add, List.getD_eq_getElem _ _ hj]

/-- **The bytes to download** are `irq_halt` and the segment. -/
theorem flmPrase_image (ok : m.Succeeds) (load : Loadable m.file a) {target : ProgramTarget} {info : ChipInformation}
    (accepted : (flmPrase m mem target info).ret = 0) :
    (flmPrase m mem target info).target.image = irqHalt ++ segmentBytes m.file a := by
  have last : Passes.last Assign.algo? (assignments m mem) =
      some (phdrAt m mem (fileHeader m mem) a, segmentAt m mem (fileHeader m mem) a) := by
    rw [assignments_algo, programHeader_algo, load.lastHeader_eq ok]
    rfl
  have size : pFilesz (phdrAt m mem (fileHeader m mem) a) = segmentWord m.file a 16 :=
    phdrAt_word ok load load.code.1 (by decide)
  have block := load.block
  have stub : irqHalt.length = 32 := rfl
  have length : (irqHalt ++ segmentBytes m.file a).length = 32 + segmentSize m.file a := by
    rw [List.length_append, load.length_segment, stub]
  have whole : (segmentWord m.file a 16 + 32).toNat = 32 + segmentSize m.file a := by
    have small : (32 : Word).toNat = 32 := rfl
    have same : (segmentWord m.file a 16).toNat = segmentSize m.file a := rfl
    rw [BitVec.toNat_add, small, same]
    omega
  unfold flmPrase at accepted ⊢
  split at accepted
  · rename_i elf
    have algo := algoSize_last (assignments m mem) (target, info)
    have blob := algoBlob_last (assignments m mem) (target, info)
    rw [last, Option.map_some, Option.getD_some] at algo blob
    rw [if_pos elf]
    show Mem.read (List.foldl Assign.apply (target, info) (assignments m mem)).1.algoBlob 0
      (List.foldl Assign.apply (target, info) (assignments m mem)).1.algoSize.toNat = _
    rw [algo, blob, size, whole, ← length]
    have seg : (segmentAt m mem (fileHeader m mem) a).map Cell.val = segmentBytes m.file a := bytes_segmentAt ok load
    rw [seg]
    exact read_getD _
  · cases accepted

end Parser

/-! ## Addresses of code -/

/-- A code address without the bit that selects Thumb. -/
def clearBit0 (v : Word) : Word := v &&& ~~~1

theorem clearBit0_add (v : Word) : v &&& 1 = v - clearBit0 v := by
  have apart : (v &&& 1) &&& clearBit0 v = 0 := by
    rw [clearBit0, BitVec.and_comm v (~~~1), ← BitVec.and_assoc, BitVec.and_assoc v 1 (~~~1), BitVec.and_not_self]
    simp
  have whole : (v &&& 1) ||| clearBit0 v = v := by
    rw [clearBit0, ← BitVec.and_or_distrib_left, BitVec.or_not_self, BitVec.and_allOnes]
  have sum : (v &&& 1) + clearBit0 v = v := (BitVec.add_eq_or_of_and_eq_zero _ _ apart).trans whole
  bv_omega

theorem bit0_toNat (v : Word) : (v &&& 1).toNat = v.toNat % 2 := by
  rw [BitVec.toNat_and]
  exact Nat.and_two_pow_sub_one_eq_mod v.toNat 1

theorem clearBit0_toNat (v : Word) : (clearBit0 v).toNat = v.toNat - v.toNat % 2 := by
  have bit := bit0_toNat v
  rw [clearBit0_add] at bit
  bv_omega

/-- `ARM_DRIFT_RAM` is even. -/
theorem drift_bit0 (v : Word) : (v + ARM_DRIFT_RAM) &&& 1 = v &&& 1 := by
  apply BitVec.eq_of_toNat_eq
  have drift : ARM_DRIFT_RAM.toNat = 0x20000020 := rfl
  rw [bit0_toNat, bit0_toNat, BitVec.toNat_add, drift]
  omega

/-- An entry point is the address of its symbol behind `irq_halt`. -/
theorem drift_clearBit0 (v : Word) (k : Nat) : clearBit0 (v + ARM_DRIFT_RAM) + BitVec.ofNat 32 k =
    ARM_ADDR_RAM_SRAET + BitVec.ofNat 32 (irqHalt.length + ((clearBit0 v).toNat + k)) := by
  have stub : irqHalt.length = 32 := rfl
  have drift : ARM_DRIFT_RAM.toNat = 0x20000020 := rfl
  have base : ARM_ADDR_RAM_SRAET.toNat = 0x20000000 := rfl
  have bound := v.isLt
  apply BitVec.eq_of_toNat_eq
  rw [BitVec.toNat_add, BitVec.toNat_add, clearBit0_toNat, clearBit0_toNat, BitVec.toNat_add, BitVec.toNat_ofNat,
    BitVec.toNat_ofNat, stub, drift, base]
  omega

/-! ## The downloaded algorithm -/

/-- Segment `a` of the file is where the entry points and the breakpoint of `t` address. -/
structure Addressed (m : Media) (mem : Memory) (a : Nat) (t : ProgramTarget) (ram : WordMem) : Prop where
  /-- The field for `j`, if `FLM_Sections_Value` left the value of a symbol in it. -/
  entries : ∀ j v name sym,
    Passes.last (Assign.entry? j) (flmSectionsHeader m mem (fileHeader m mem)) = some (v, name, sym) →
    entryOf t j &&& 1 = stValue sym &&& 1 ∧
    ∀ k, (clearBit0 (stValue sym)).toNat + k < segmentSize m.file a →
      (segmentBytes m.file a)[(clearBit0 (stValue sym)).toNat + k]? =
        some (ram (clearBit0 (entryOf t j) + BitVec.ofNat 32 k))
  breakpoint : ram.read (clearBit0 t.sysCallS.breakpoint) 4 = irqHalt.take 4

/-- The target's code leaves the algorithm alone. -/
def KeepsImage (exec : ProgramSyscall → (entry r0 r1 r2 r3 : Word) → Op Probe Unit) (t : ProgramTarget) : Prop :=
  ∀ (entry r0 r1 r2 r3 : Word) (p : Probe) (x : Word), t.imageArea.Contains x →
    (exec t.sysCallS entry r0 r1 r2 r3 p).2.ap.mem x = p.ap.mem x

section Download

variable {m : Media} {mem : Memory} {a : Nat} {target : ProgramTarget} {info : ChipInformation} {ram : WordMem}

/-- The fields of an accepted file. -/
theorem flmPrase_fields (accepted : (flmPrase m mem target info).ret = 0) :
    (flmPrase m mem target info).target.algoStart = ARM_ADDR_RAM_SRAET ∧
    (flmPrase m mem target info).target.sysCallS.breakpoint = ARM_ADDR_RAM_SRAET + 1 ∧
    ∀ j, entryOf (flmPrase m mem target info).target j =
      entryOf ((assignments m mem).foldl Assign.apply (target, info)).1 j := by
  unfold flmPrase at accepted ⊢
  split at accepted
  · rename_i elf
    rw [if_pos elf]
    exact ⟨rfl, rfl, fun j => by cases j <;> rfl⟩
  · cases accepted

/-- Memory that holds `irq_halt` and the segment is addressed. -/
theorem addressed_of (load : Loadable m.file a) (accepted : (flmPrase m mem target info).ret = 0)
    (holds : ∀ i (hi : i < (irqHalt ++ segmentBytes m.file a).length),
      ram (ARM_ADDR_RAM_SRAET + BitVec.ofNat 32 i) = (irqHalt ++ segmentBytes m.file a)[i]) :
    Addressed m mem a (flmPrase m mem target info).target ram := by
  obtain ⟨-, breakpoint, entries⟩ := @flmPrase_fields m mem target info accepted
  have length : (irqHalt ++ segmentBytes m.file a).length = irqHalt.length + segmentSize m.file a := by
    rw [List.length_append, load.length_segment]
  have stub : irqHalt.length = 32 := rfl
  refine ⟨fun j v name sym last => ?_, ?_⟩
  · have field : entryOf (flmPrase m mem target info).target j = stValue sym + ARM_DRIFT_RAM := by
      rw [entries, entryOf_last, assignments_entry, last]
      rfl
    rw [field]
    refine ⟨drift_bit0 _, fun k inside => ?_⟩
    have here : irqHalt.length + ((clearBit0 (stValue sym)).toNat + k) < (irqHalt ++ segmentBytes m.file a).length := by
      rw [length]
      omega
    rw [drift_clearBit0, holds _ here, ← List.getElem?_eq_getElem here, List.getElem?_append_right (Nat.le_add_right ..),
      Nat.add_sub_cancel_left]
  · have start : clearBit0 (ARM_ADDR_RAM_SRAET + 1) = ARM_ADDR_RAM_SRAET := by decide
    rw [breakpoint, start]
    apply List.ext_getElem
    · rw [WordMem.length_read]
      rfl
    · intro i hi hj
      rw [WordMem.length_read] at hi
      rw [WordMem.getElem_read, holds i (by rw [length]; omega), List.getElem_take, List.getElem_append_left]

/-- **Entry points address the downloaded code**: Init is run with `irq_halt` at the
breakpoint and, from each entry point on, the bytes of the segment from the value of
its symbol on; and they stay there if the target's code leaves the algorithm alone. -/
theorem entries_addressed (ok : m.Succeeds) (load : Loadable m.file a)
    (accepted : (flmPrase m mem target info).ret = 0) {h : Host}
    {exec : ProgramSyscall → (entry r0 r1 r2 r3 : Word) → Op Probe Unit} {fuel : Nat} {flashStart : Word} {p q : Probe}
    (acts : h.wire.ActsUntil (swdSetTargetStateHw h fuel p).2.transfers)
    (run : Probe.targetFlashInit h exec fuel (flmPrase m mem target info).target flashStart p = (.ok .success, q)) :
    (∃ loaded : Probe, Addressed m mem a (flmPrase m mem target info).target loaded.ap.mem ∧
      exec (flmPrase m mem target info).target.sysCallS (flmPrase m mem target info).target.init flashStart 0 0 0 loaded =
        (.ok (), q)) ∧
    (KeepsImage exec (flmPrase m mem target info).target →
      Addressed m mem a (flmPrase m mem target info).target q.ap.mem) := by
  obtain ⟨ready, loaded, stored, ran⟩ := targetFlashInit_download acts run
  obtain ⟨start, -, -⟩ := @flmPrase_fields m mem target info accepted
  have image := @flmPrase_image m mem a ok load target info accepted
  have size : (irqHalt ++ segmentBytes m.file a).length = (flmPrase m mem target info).target.algoSize.toNat := by
    rw [← image, ProgramTarget.length_image]
  have fits : (irqHalt ++ segmentBytes m.file a).length ≤ 2 ^ 32 := by
    rw [size]
    exact Nat.le_of_lt (flmPrase m mem target info).target.algoSize.isLt
  have holds : ∀ i (hi : i < (irqHalt ++ segmentBytes m.file a).length),
      loaded.ap.mem (ARM_ADDR_RAM_SRAET + BitVec.ofNat 32 i) = (irqHalt ++ segmentBytes m.file a)[i] := by
    intro i hi
    rw [stored.mem, start, image]
    exact WordMem.store_in i hi fits
  refine ⟨⟨loaded, addressed_of load accepted holds, ran⟩, fun keeps => addressed_of load accepted fun i hi => ?_⟩
  have inside : (flmPrase m mem target info).target.imageArea.Contains (ARM_ADDR_RAM_SRAET + BitVec.ofNat 32 i) := by
    rw [Region.Contains, ProgramTarget.imageArea]
    rw [start, distance _ (Nat.lt_of_lt_of_le hi fits), ← size]
    exact hi
  have same := keeps (flmPrase m mem target info).target.init flashStart 0 0 0 loaded _ inside
  rw [ran] at same
  exact same.trans (holds i hi)

end Download

/-! ## A file with one function -/

/-- A segment of eight bytes, and the symbol `Init` at its second half-word. -/
def codeFile : List Byte :=
  elf32Ehdr 52 92 1 3 ++ elf32Phdr PT_LOAD 84 8 pfXWR ++ [0x00, 0xBF, 0x00, 0x20, 0x70, 0x47, 0x00, 0x00] ++
    elf32Shdr 0 0 0 0 ++ elf32Shdr SHT_SYMTAB 212 32 2 ++ elf32Shdr SHT_STRTAB 244 6 0 ++
    elf32Sym 0 0 ++ elf32Sym 1 3 ++ (0 :: FunName.init.text ++ [0])

theorem codeFile_loadable : Loadable codeFile 0 where
  small := by decide +kernel
  header := by decide +kernel
  headers := by decide +kernel
  code := by decide +kernel
  only := by decide +kernel
  inside := by decide +kernel
  block := by decide +kernel

def codeTarget : ProgramTarget := (flmPrase (Media.whole codeFile) zeroMemory flashAlgo noInformation).target

/-- Every transfer is carried out at once: the port is powered and without errors, the core
is halted and ready, and its registers read as zero. -/
def haltedHost : Host :=
  ⟨⟨fun _ => .ok, fun _ a r => if r = .dpRead DP_CTRL_STAT then powerUpAck else if a.tar = DCRDR + 4 then 0 else 0x00030000⟩, 0⟩

/-- Memory of zero bytes behind a port that has just been powered. -/
def freshProbe : Probe := ⟨⟨0, 0⟩, ⟨0, 0, 0, .nothing, fun _ => 0⟩, 0, []⟩

/-- `swd_flash_syscall_exec` over this wire, for a function that returns 0. -/
def haltedExec (sys : ProgramSyscall) (entry r0 r1 r2 r3 : Word) : Op Probe Unit :=
  swdFlashSyscallExec haltedHost.wire sys entry r0 r1 r2 r3 .bool

def codeInit : Outcome ErrorT × Probe := Probe.targetFlashInit haltedHost haltedExec 1 codeTarget 0x08000000 freshProbe

/-- Init is run at its place in the downloaded segment. -/
theorem entries_addressed_code : entryOf codeTarget .init = 0x20000023 ∧
    ∃ loaded : Probe, Addressed (Media.whole codeFile) zeroMemory 0 codeTarget loaded.ap.mem ∧
      haltedExec codeTarget.sysCallS codeTarget.init 0x08000000 0 0 0 loaded = (.ok (), codeInit.2) := by
  refine ⟨by decide +kernel, ?_⟩
  have accepted : (flmPrase (Media.whole codeFile) zeroMemory flashAlgo noInformation).ret = 0 := by decide +kernel
  have acts : ∀ n, haltedHost.wire.ActsUntil n := fun n i _ => ⟨0, by decide, rfl, fun j before => by cases before⟩
  have success : codeInit.1 = .ok .success := by decide +kernel
  have pair : ∀ x : Outcome ErrorT × Probe, x.1 = .ok .success → x = (.ok .success, x.2) := by
    rintro ⟨_, q⟩ rfl
    rfl
  have run : codeInit = (.ok .success, codeInit.2) := pair codeInit success
  have done := @entries_addressed (Media.whole codeFile) zeroMemory 0 flashAlgo noInformation
    (Media.whole_succeeds codeFile) codeFile_loadable accepted haltedHost haltedExec 1 0x08000000
    freshProbe codeInit.2 (acts _) run
  unfold codeTarget
  exact done.1

end OffLineProgrammer.Flm
