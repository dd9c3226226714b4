import OffLineProgrammer.Lib.Passes
import OffLineProgrammer.Lib.WordMem

/-!
# Reads of an FLM file

An FLM file is an ELF image, read piece by piece into variables that hold
whatever was there before. A cell is a byte of a variable with the call of
`ReadDataFromFile` that put it there, if one did. Every such call may fail or
read short, each on its own.
-/

namespace OffLineProgrammer.Flm
set_option autoImplicit false
open OffLineProgrammer.Lib

/-! ## Cells -/

/-- The places that call `ReadDataFromFile`; a place inside a loop with its indices. -/
inductive Site where
  | header
  | phdr (i : Nat)
  | segment (i : Nat)
  | device (i : Nat)
  | shdr (i : Nat)
  | link (i : Nat)
  | strtab
  | sym (i k : Nat)
  deriving DecidableEq

structure Cell where
  val : Byte
  /-- The call that delivered the byte; `none` for a byte that was there before. -/
  site : Option Site
  deriving DecidableEq

abbrev Cells := List Cell

/-- Byte `i` of a variable. -/
def byteAt (c : Cells) (i : Nat) : Byte := (c.getD i ⟨0, none⟩).val

/-- The call that delivered byte `i` of a variable. -/
def siteAt (c : Cells) (i : Nat) : Option Site := (c.getD i ⟨0, none⟩).site

/-- The two bytes at `i`, least significant first. -/
def halfAt (c : Cells) (i : Nat) : BitVec 16 := byteAt c (i + 1) ++ byteAt c i

/-- The four bytes at `i`, least significant first. -/
def wordAt (c : Cells) (i : Nat) : Word := byteAt c (i + 3) ++ byteAt c (i + 2) ++ byteAt c (i + 1) ++ byteAt c i

/-- One call delivered the `n` bytes at `i`. -/
def ReadAt (c : Cells) (i n : Nat) : Prop := ∃ s, ∀ k < n, siteAt c (i + k) = some s

/-! ## The file -/

/-- The outcomes of `f_open`, `f_lseek` and `f_read`, and the most that is read. -/
structure Access where
  fOpen : Bool
  fLseek : Bool
  fRead : Bool
  count : Nat

/-- A file, and the outcome of each access. -/
structure Media where
  file : List Byte
  access : Site → Access

namespace Media

/-- The number of bytes a call delivers; a seek past the end stops at the end. -/
def got (m : Media) (s : Site) (offset : Word) (size : Nat) : Nat :=
  if (m.access s).fOpen && (m.access s).fLseek then
    min (m.access s).count (min size (m.file.length - offset.toNat))
  else 0

/-- `ReadDataFromFile` into the variable `buf`: the return value, and the variable. -/
def readDataFromFile (m : Media) (s : Site) (offset : Word) (buf : Cells) : Int × Cells :=
  (if (m.access s).fOpen = false then -1
    else if (m.access s).fLseek = false then -2
    else if (m.access s).fRead = false then -3
    else 0,
   ((m.file.drop offset.toNat).take (m.got s offset buf.length)).map (fun b => ⟨b, some s⟩) ++
     buf.drop (m.got s offset buf.length))

/-- Every access succeeds and reads all there is. -/
def whole (file : List Byte) : Media := ⟨file, fun _ => ⟨true, true, true, file.length⟩⟩

end Media

/-! ## Fields, from FLM.h and flashalgo.h -/

abbrev sizeofEhdr : Nat := 52
abbrev sizeofPhdr : Nat := 32
abbrev sizeofShdr : Nat := 40
abbrev sizeofSym : Nat := 16
abbrev sizeofFlmDev : Nat := 176

abbrev PT_LOAD : Word := 1
/-- `PF_X | PF_W | PF_R` -/
abbrev pfXWR : Word := 7
abbrev PF_R : Word := 4
abbrev SHT_SYMTAB : Word := 2
abbrev SHT_STRTAB : Word := 3

abbrev ARM_DRIFT_RAM : Word := 0x20000020
abbrev ARM_ADDR_RAM_SRAET : Word := 0x20000000

def ePhoff (ehdr : Cells) : Word := wordAt ehdr 28
def eShoff (ehdr : Cells) : Word := wordAt ehdr 32
def ePhnum (ehdr : Cells) : Nat := (halfAt ehdr 44).toNat
def eShnum (ehdr : Cells) : Nat := (halfAt ehdr 48).toNat

def pType (phdr : Cells) : Word := wordAt phdr 0
def pOffset (phdr : Cells) : Word := wordAt phdr 4
def pFilesz (phdr : Cells) : Word := wordAt phdr 16
def pFlags (phdr : Cells) : Word := wordAt phdr 24

def shType (shdr : Cells) : Word := wordAt shdr 4
def shOffset (shdr : Cells) : Word := wordAt shdr 16
def shSize (shdr : Cells) : Nat := (wordAt shdr 20).toNat
def shLink (shdr : Cells) : Word := wordAt shdr 24

def stName (sym : Cells) : Word := wordAt sym 0
def stValue (sym : Cells) : Word := wordAt sym 4

def devName (dev : Cells) : List Byte := (List.range 128).map fun i => byteAt dev (2 + i)
def devAdr (dev : Cells) : Word := wordAt dev 132
def szDev (dev : Cells) : Word := wordAt dev 136
def szPage (dev : Cells) : Word := wordAt dev 140
def szSector (dev : Cells) : Word := wordAt dev 160

/-! ## Writing a file -/

def half (x : BitVec 16) : List Byte := [x.extractLsb' 0 8, x.extractLsb' 8 8]

def word (x : Word) : List Byte := [x.extractLsb' 0 8, x.extractLsb' 8 8, x.extractLsb' 16 8, x.extractLsb' 24 8]

/-- `Elf32_Ehdr` -/
def elf32Ehdr (phoff shoff : Word) (phnum shnum : BitVec 16) : List Byte :=
  [0x7F, 0x45, 0x4C, 0x46, 1, 1, 1, 0] ++ List.replicate 20 0 ++ word phoff ++ word shoff ++ List.replicate 8 0 ++
    half phnum ++ half 40 ++ half shnum ++ half 0

/-- `Elf32_Phdr` -/
def elf32Phdr (type offset filesz flags : Word) : List Byte :=
  word type ++ word offset ++ word 0 ++ word 0 ++ word filesz ++ word filesz ++ word flags ++ word 4

/-- `Elf32_Shdr` -/
def elf32Shdr (type offset size link : Word) : List Byte :=
  word 0 ++ word type ++ word 0 ++ word 0 ++ word offset ++ word size ++ word link ++ word 0 ++ word 1 ++ word 0

/-- `Elf32_Sym` -/
def elf32Sym (name value : Word) : List Byte := word name ++ word value ++ word 0 ++ word 0

/-- `struct FLM_DEV` of a device at 0x08000000 -/
def flmDev (size page sector : Word) : List Byte :=
  List.replicate 132 0 ++ word 0x08000000 ++ word size ++ word page ++ List.replicate 16 0 ++ word sector ++
    List.replicate 12 0

/-! ## What a read leaves in a variable -/

section Reads

variable {m : Media} {s : Site} {offset : Word} {buf : Cells}

theorem Media.got_le (m : Media) (s : Site) (offset : Word) (size : Nat) :
    m.got s offset size ≤ size ∧ m.got s offset size ≤ m.file.length - offset.toNat := by
  unfold got
  split <;> omega

theorem length_delivered : (((m.file.drop offset.toNat).take (m.got s offset buf.length)).map
    fun b => (⟨b, some s⟩ : Cell)).length = m.got s offset buf.length := by
  have le := m.got_le s offset buf.length
  rw [List.length_map, List.length_take, List.length_drop]
  omega

@[simp] theorem length_readDataFromFile : (m.readDataFromFile s offset buf).2.length = buf.length := by
  have le := m.got_le s offset buf.length
  rw [Media.readDataFromFile, List.length_append, length_delivered, List.length_drop]
  omega

/-- A cell that was delivered is a byte of the file. -/
theorem readDataFromFile_in {i : Nat} (got : i < m.got s offset buf.length) (d : Cell) :
    (m.readDataFromFile s offset buf).2.getD i d = ⟨m.file.getD (offset.toNat + i) 0, some s⟩ := by
  have le := m.got_le s offset buf.length
  have inside : i < (((m.file.drop offset.toNat).take (m.got s offset buf.length)).map
      fun b => (⟨b, some s⟩ : Cell)).length := by
    rw [length_delivered]
    exact got
  have present : offset.toNat + i < m.file.length := by omega
  rw [Media.readDataFromFile, List.getD_eq_getElem?_getD, List.getElem?_append_left inside,
    List.getElem?_eq_getElem inside, Option.getD_some, List.getElem_map, List.getElem_take, List.getElem_drop,
    List.getD_eq_getElem _ _ present]

/-- Any other cell is as it was. -/
theorem readDataFromFile_out {i : Nat} (past : m.got s offset buf.length ≤ i) (d : Cell) :
    (m.readDataFromFile s offset buf).2.getD i d = buf.getD i d := by
  rw [Media.readDataFromFile, List.getD_eq_getElem?_getD, List.getElem?_append_right]
  · rw [length_delivered, List.getElem?_drop, List.getD_eq_getElem?_getD]
    congr 2
    omega
  · rw [length_delivered]
    exact past

/-- The call that delivered a cell. -/
theorem siteAt_readDataFromFile (i : Nat) : siteAt (m.readDataFromFile s offset buf).2 i =
    if i < m.got s offset buf.length then some s else siteAt buf i := by
  unfold siteAt
  split
  · rename_i got
    rw [readDataFromFile_in got]
  · rename_i past
    rw [readDataFromFile_out (Nat.not_lt.mp past)]

end Reads

/-! ## One variable read again and again -/

section Sequence

/-- Read `r` puts the first `got r` bytes at the front of the variable. -/
structure Reads (var : Nat → Cells) (site : Nat → Site) (got : Nat → Nat) : Prop where
  fresh : ∀ c, siteAt (var 0) c = none
  step : ∀ n c, siteAt (var (n + 1)) c = if c < got n then some (site n) else siteAt (var n) c
  sites : ∀ r r', site r = site r' → r = r'

/-- The last of the first `n` reads that gets past byte `lo` gets to `hi`. -/
def Delivered (got : Nat → Nat) (n lo hi : Nat) : Prop :=
  ∃ r < n, hi ≤ got r ∧ ∀ r', r < r' → r' < n → got r' ≤ lo

variable {var : Nat → Cells} {site : Nat → Site} {got : Nat → Nat}

/-- A cell holds the byte of the last read that reached it. -/
theorem Reads.siteAt_eq (reads : Reads var site got) (n c : Nat) (s : Site) :
    siteAt (var n) c = some s ↔ ∃ r < n, (s = site r ∧ c < got r) ∧ ∀ r', r < r' → r' < n → got r' ≤ c := by
  induction n with
  | zero => simp only [reads.fresh, reduceCtorEq, Nat.not_lt_zero, false_and, exists_false]
  | succ n ih =>
    rw [reads.step, Passes.exists_last_succ, ← ih]
    split
    · rename_i here
      simp only [here, and_true, Nat.not_le.mpr here, false_and, or_false, Option.some.injEq, eq_comm]
    · rename_i past
      simp only [past, and_false, Nat.le_of_not_lt past, true_and, false_or]

/-- Bytes come from one read if the last read that gets to the first of them gets
to the last. -/
theorem Reads.readAt (reads : Reads var site got) {n lo len : Nat} (some_ : 0 < len) :
    ReadAt (var n) lo len ↔ Delivered got n lo (lo + len) := by
  constructor
  · rintro ⟨s, all⟩
    obtain ⟨r, less, ⟨same, reached⟩, later⟩ := (reads.siteAt_eq n lo s).mp (all 0 some_)
    obtain ⟨r', -, ⟨same', reached'⟩, -⟩ := (reads.siteAt_eq n (lo + (len - 1)) s).mp (all (len - 1) (by omega))
    obtain rfl := reads.sites r r' (same.symm.trans same')
    exact ⟨r, less, by omega, later⟩
  · rintro ⟨r, less, reached, later⟩
    refine ⟨site r, fun k inside => (reads.siteAt_eq n (lo + k) _).mpr ⟨r, less, ⟨rfl, by omega⟩, ?_⟩⟩
    intro r' above below
    have past := later r' above below
    omega

end Sequence

end OffLineProgrammer.Flm
