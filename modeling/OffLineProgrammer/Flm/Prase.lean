import OffLineProgrammer.Flm.Elf
import OffLineProgrammer.Target.Swd
import Mathlib.Data.List.Infix

/-!
# Parsing of an FLM file, from flashalgo.c

`FLM_Prase` goes through the program headers, then through the section headers
and the strings of the symbol table, and never looks at what `ReadDataFromFile`
returns. The passes of its loops yield the assignments they make to `*target`
and `*info`, with the variables they are made from.
-/

namespace OffLineProgrammer.Flm
set_option autoImplicit false
open OffLineProgrammer.Lib OffLineProgrammer.Target

/-! ## Variables -/

/-- The variables and blocks that start with whatever the memory holds. -/
inductive Var where
  | ehdr
  | phdr
  | flmDev
  | shdr
  | shdrSym
  | sym (i : Nat)
  | algoBlob (i : Nat)
  | shdrStr

/-- What the memory holds, and the bytes behind `ehdr` on the stack. -/
structure Memory where
  init : Var → Nat → Byte
  behind : List Byte

/-- A variable of `n` bytes before anything is read into it. -/
def Memory.fresh (mem : Memory) (v : Var) (n : Nat) : Cells := (List.range n).map fun k => ⟨mem.init v k, none⟩

@[simp] theorem Memory.length_fresh (mem : Memory) (v : Var) (n : Nat) : (mem.fresh v n).length = n := by
  simp [fresh]

/-- `chip_information` -/
structure ChipInformation where
  name : List Byte
  flashStart : Word
  flashSize : Word
  pageSize : Word
  sectorSize : Word

/-- `StrFunNameTable` -/
inductive FunName where
  | init
  | unInit
  | eraseChip
  | eraseSector
  | programPage
  deriving DecidableEq

def FunName.text : FunName → List Byte
  | .init => [0x49, 0x6E, 0x69, 0x74]
  | .unInit => [0x55, 0x6E, 0x49, 0x6E, 0x69, 0x74]
  | .eraseChip => [0x45, 0x72, 0x61, 0x73, 0x65, 0x43, 0x68, 0x69, 0x70]
  | .eraseSector => [0x45, 0x72, 0x61, 0x73, 0x65, 0x53, 0x65, 0x63, 0x74, 0x6F, 0x72]
  | .programPage => [0x50, 0x72, 0x6F, 0x67, 0x72, 0x61, 0x6D, 0x50, 0x61, 0x67, 0x65]

def strFunNameTable : List FunName := [.init, .unInit, .eraseChip, .eraseSector, .programPage]

/-- `irq_halt`, in bytes. -/
def irqHalt : List Byte :=
  [0x00, 0xBE, 0x0A, 0xE0, 0x0D, 0x78, 0x2D, 0x06, 0x68, 0x40, 0x08, 0x24, 0x40, 0x00, 0x00, 0xD3,
    0x58, 0x40, 0x64, 0x1E, 0xFA, 0xD1, 0x49, 0x1C, 0x52, 0x1E, 0x00, 0x2A, 0xF2, 0xD1, 0x70, 0x47]

/-! ## Assignments -/

/-- The section headers in use, and whether the search ended at a symbol table
with its string table. -/
structure Tables where
  shdr : Cells
  shdrSym : Cells
  found : Bool

/-- An assignment to the fields of `*target` or `*info`. -/
inductive Assign where
  /-- `algo_blob` and `algo_size`: from a program header and the bytes of its segment. -/
  | algo (phdr blob : Cells)
  /-- The fields of `*info`: from a program header and the device descriptor. -/
  | dev (phdr flmDev : Cells)
  /-- An entry point: from a string of the string table and a symbol. -/
  | entry (j : FunName) (tables : Tables) (name sym : Cells)

/-- The field of `*target` for a name. -/
def entryOf (t : ProgramTarget) : FunName → Word
  | .init => t.init
  | .unInit => t.uninit
  | .eraseChip => t.eraseChip
  | .eraseSector => t.eraseSector
  | .programPage => t.programPage

def setEntry (t : ProgramTarget) (v : Word) : FunName → ProgramTarget
  | .init => { t with init := v }
  | .unInit => { t with uninit := v }
  | .eraseChip => { t with eraseChip := v }
  | .eraseSector => { t with eraseSector := v }
  | .programPage => { t with programPage := v }

def Assign.apply : ProgramTarget × ChipInformation → Assign → ProgramTarget × ChipInformation
  | (t, info), .algo phdr blob =>
    ({ t with
        algoBlob := fun i => (irqHalt ++ blob.map Cell.val).getD i 0
        algoSize := pFilesz phdr + 32 }, info)
  | (t, info), .dev _ flmDev =>
    (t, { info with
        name := devName flmDev ++ info.name.drop 128
        flashStart := devAdr flmDev
        flashSize := szDev flmDev
        pageSize := szPage flmDev
        sectorSize := szSector flmDev })
  | (t, info), .entry j _ _ sym => (setEntry t (stValue sym + ARM_DRIFT_RAM) j, info)

section Parse

variable (m : Media) (mem : Memory)

/-! ## Program headers -/

/-- The variables `Phdr` and `FLM_DEV`. -/
structure HeaderVars where
  phdr : Cells
  flmDev : Cells

/-- `PT_LOAD` with all of `PF_X | PF_W | PF_R` -/
def IsAlgo (phdr : Cells) : Prop := pType phdr = PT_LOAD ∧ pFlags phdr &&& pfXWR = pfXWR

/-- The `else if` of the loop. -/
def IsDevice (phdr : Cells) : Prop := ¬ IsAlgo phdr ∧ pType phdr = PT_LOAD ∧ pFlags phdr &&& PF_R = PF_R

instance (phdr : Cells) : Decidable (IsAlgo phdr) := by unfold IsAlgo; infer_instance

instance (phdr : Cells) : Decidable (IsDevice phdr) := by unfold IsDevice; infer_instance

/-- One pass of the loop of `FLM_Program_Header`. -/
def programHeaderPass (ehdr : Cells) (i : Nat) (v : HeaderVars) : HeaderVars × List Assign :=
  let phdr := (m.readDataFromFile (.phdr i) (ePhoff ehdr + BitVec.ofNat 32 (i * sizeofPhdr)) v.phdr).2
  if IsAlgo phdr then
    let blob := (m.readDataFromFile (.segment i) (pOffset phdr)
      (mem.fresh (.algoBlob i) (pFilesz phdr).toNat)).2
    (⟨phdr, v.flmDev⟩, [.algo phdr blob])
  else if IsDevice phdr then
    let flmDev := (m.readDataFromFile (.device i) (pOffset phdr) v.flmDev).2
    (⟨phdr, flmDev⟩, [.dev phdr flmDev])
  else (⟨phdr, v.flmDev⟩, [])

/-- `FLM_Program_Header` -/
def flmProgramHeader (ehdr : Cells) : List Assign :=
  (Passes.passes (programHeaderPass m mem ehdr)
    ⟨mem.fresh .phdr sizeofPhdr, mem.fresh .flmDev sizeofFlmDev⟩ (ePhnum ehdr)).2

/-! ## Section headers -/

/-- One pass of the search for the tables. -/
def tablesPass (ehdr : Cells) (i : Nat) (v : Tables) : Tables :=
  let shdr := (m.readDataFromFile (.shdr i) (eShoff ehdr + BitVec.ofNat 32 (i * sizeofShdr)) v.shdr).2
  if shType shdr = SHT_SYMTAB then
    let link := (m.readDataFromFile (.link i) (eShoff ehdr + shLink shdr * BitVec.ofNat 32 sizeofShdr) shdr).2
    ⟨link, shdr, decide (shType link = SHT_STRTAB)⟩
  else ⟨shdr, v.shdrSym, false⟩

/-- The search from section header `i` on, with `left` headers to go. -/
def findTables (ehdr : Cells) : Nat → Nat → Tables → Tables
  | _, 0, v => v
  | i, left + 1, v =>
    let v := tablesPass m ehdr i v
    if v.found then v else findTables ehdr (i + 1) left v

/-- The section headers after the search. -/
def tables (ehdr : Cells) : Tables :=
  findTables m ehdr 0 (eShnum ehdr) ⟨mem.fresh .shdr sizeofShdr, mem.fresh .shdrSym sizeofShdr, false⟩

/-! ## Symbols -/

/-- `strlen` -/
def strlen (str : List Byte) : Nat := (str.takeWhile (· ≠ 0)).length

/-- `strncmp( s, t, n ) == 0` -/
def strncmpEq : List Byte → List Byte → Nat → Bool
  | _, _, 0 => true
  | s, t, n + 1 =>
    if s.headD 0 ≠ t.headD 0 then false
    else if s.headD 0 = 0 then true
    else strncmpEq s.tail t.tail n

/-- `sizeof( StrFunNameTable[j] )`: a pointer. -/
abbrev sizeofName : Nat := 4

/-- The test of a string against a name. -/
def matchesName (str : List Byte) (j : FunName) : Bool :=
  strlen j.text == strlen str && strncmpEq j.text str sizeofName

/-- One pass of the loop of `FLM_Sections_Value`, with `len` its last argument. -/
def sectionsValuePass (v : Tables) (i : Nat) (j : FunName) (len : Word) (name : Cells) (k : Nat) (sym : Cells) :
    Cells × List Assign :=
  let sym := (m.readDataFromFile (.sym i k) (shOffset v.shdrSym + BitVec.ofNat 32 (k * sizeofSym)) sym).2
  (sym, if len = stName sym then [.entry j v name sym] else [])

/-- `FLM_Sections_Value`, called for the string that ends at byte `i`. -/
def flmSectionsValue (v : Tables) (i : Nat) (j : FunName) (len : Word) (name : Cells) : List Assign :=
  (Passes.passes (sectionsValuePass m v i j len name) (mem.fresh (.sym i) sizeofSym)
    (shSize v.shdrSym / sizeofSym)).2

/-- One pass over the string table; `str` is the offset of `Str`. -/
def stringPass (v : Tables) (shdrStr : Cells) (i : Nat) (str : Nat) : Nat × List Assign :=
  if byteAt shdrStr i = 0 then
    let s := (shdrStr.drop str).map Cell.val
    (str + strlen s + 1,
      match strFunNameTable.find? (matchesName s) with
      | some j => flmSectionsValue m mem v i j (BitVec.ofNat 32 (i - strlen s)) ((shdrStr.drop str).take (strlen s + 1))
      | none => [])
  else (str, [])

/-- The string table as it is read. -/
def stringTable (v : Tables) : Cells :=
  (m.readDataFromFile .strtab (shOffset v.shdr) (mem.fresh .shdrStr (shSize v.shdr))).2

/-- `FLM_Sections_Header` -/
def flmSectionsHeader (ehdr : Cells) : List Assign :=
  let v := tables m mem ehdr
  (Passes.passes (stringPass m mem v (stringTable m mem v)) 0 (shSize v.shdr)).2

/-! ## The parser -/

/-- `ehdr` as it is read. -/
def fileHeader : Cells := (m.readDataFromFile .header 0 (mem.fresh .ehdr sizeofEhdr)).2

/-- `strstr( ehdr.e_ident, "ELF" ) != NULL` -/
def HasElf : Prop :=
  [0x45, 0x4C, 0x46] <:+: ((fileHeader m mem).map Cell.val ++ mem.behind).takeWhile (· ≠ 0)

instance : Decidable (HasElf m mem) := by unfold HasElf; infer_instance

/-- What a call of `FLM_Prase` returns, leaves and assigns, and `ehdr`. -/
structure Parsed where
  ret : Int
  target : ProgramTarget
  info : ChipInformation
  header : Cells
  assigned : List Assign

/-- The assignments of the two passes over the headers. -/
def assignments : List Assign :=
  flmProgramHeader m mem (fileHeader m mem) ++ flmSectionsHeader m mem (fileHeader m mem)

/-- The fields that do not come from the file. -/
def finish (t : ProgramTarget) (info : ChipInformation) : ProgramTarget :=
  { t with
    sysCallS := ⟨ARM_ADDR_RAM_SRAET + 1, ARM_ADDR_RAM_SRAET + 0xC00, ARM_ADDR_RAM_SRAET + 0x1000⟩
    programBuffer := ARM_ADDR_RAM_SRAET + 400
    algoStart := ARM_ADDR_RAM_SRAET
    programBufferSize := info.pageSize }

/-- `FLM_Prase` -/
def flmPrase (target : ProgramTarget) (info : ChipInformation) : Parsed :=
  if HasElf m mem then
    let r := (assignments m mem).foldl Assign.apply (target, info)
    ⟨0, finish r.1 r.2, r.2, fileHeader m mem, assignments m mem⟩
  else ⟨-1, target, info, fileHeader m mem, []⟩

end Parse

/-- `flash_algo` before the first parse. -/
def flashAlgo : ProgramTarget := ⟨0, 0, 0, 0, 0, ⟨0, 0, 0⟩, 0, 0, 0, fun _ => 0, 0⟩

def noInformation : ChipInformation := ⟨List.replicate 128 0, 0, 0, 0, 0⟩

/-- A memory of zero bytes. -/
def zeroMemory : Memory := ⟨fun _ _ => 0, []⟩

end OffLineProgrammer.Flm
