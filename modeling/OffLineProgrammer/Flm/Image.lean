import OffLineProgrammer.Flm.Spec

/-!
# ELF32 images with one symbol table

The section headers, the symbols and the strings of an image, read off the file
itself, and what the variables of the parser hold when every read succeeds.
-/

namespace OffLineProgrammer.Flm
set_option autoImplicit false
open OffLineProgrammer.Lib OffLineProgrammer.Target

/-! ## The file -/

section File

variable (file : List Byte)

def fileByte (o : Nat) : Byte := file.getD o 0

def fileHalf (o : Nat) : BitVec 16 := fileByte file (o + 1) ++ fileByte file o

def fileWord (o : Nat) : Word :=
  fileByte file (o + 3) ++ fileByte file (o + 2) ++ fileByte file (o + 1) ++ fileByte file o

/-- The offset and the number of the section headers. -/
def sectionsOffset : Nat := (fileWord file 32).toNat
def sectionCount : Nat := (fileHalf file 48).toNat

/-- The word at byte `f` of section header `i`. -/
def sectionWord (i f : Nat) : Word := fileWord file (sectionsOffset file + i * sizeofShdr + f)

def sectionType (i : Nat) : Word := sectionWord file i 4
def sectionOffset (i : Nat) : Nat := (sectionWord file i 16).toNat
def sectionSize (i : Nat) : Nat := (sectionWord file i 20).toNat
def sectionLink (i : Nat) : Nat := (sectionWord file i 24).toNat

/-- The bytes of section `i`. -/
def sectionBytes (i : Nat) : List Byte := (file.drop (sectionOffset file i)).take (sectionSize file i)

/-- The entries of the symbol table in section `s`. -/
def entryCount (s : Nat) : Nat := sectionSize file s / sizeofSym
def entryName (s k : Nat) : Word := fileWord file (sectionOffset file s + k * sizeofSym)
def entryValue (s k : Nat) : Word := fileWord file (sectionOffset file s + k * sizeofSym + 4)

/-- Section `s` is the one symbol table, and its link is the string table `l`. -/
structure Image (s l : Nat) : Prop where
  /-- A file of a FAT volume. -/
  small : file.length < 2 ^ 32
  header : sizeofEhdr ≤ file.length
  sections : sectionsOffset file + sectionCount file * sizeofShdr ≤ file.length
  symtab : s < sectionCount file ∧ sectionType file s = SHT_SYMTAB
  only : ∀ i < sectionCount file, sectionType file i = SHT_SYMTAB → i = s
  link : sectionLink file s = l
  strtab : l < sectionCount file ∧ sectionType file l = SHT_STRTAB
  symbols : sectionOffset file s + sectionSize file s ≤ file.length
  strings : sectionOffset file l + sectionSize file l ≤ file.length

end File

/-- Every access succeeds and reads as much as there is. -/
def Media.Succeeds (m : Media) : Prop :=
  ∀ s, (m.access s).fOpen = true ∧ (m.access s).fLseek = true ∧ (m.access s).fRead = true ∧
    m.file.length ≤ (m.access s).count

theorem Media.whole_succeeds (file : List Byte) : (Media.whole file).Succeeds :=
  fun _ => ⟨rfl, rfl, rfl, Nat.le_refl _⟩

/-! ## Reads that succeed -/

section Reads

variable {m : Media} {s : Site} {offset : Word} {buf : Cells}

theorem Media.Succeeds.got (ok : m.Succeeds) {n : Nat} (inside : offset.toNat + n ≤ m.file.length) :
    m.got s offset n = n := by
  obtain ⟨opened, sought, -, count⟩ := ok s
  rw [Media.got, opened, sought, Bool.and_self, if_pos rfl]
  omega

theorem byteAt_read (ok : m.Succeeds) (inside : offset.toNat + buf.length ≤ m.file.length) {c : Nat}
    (less : c < buf.length) : byteAt (m.readDataFromFile s offset buf).2 c = fileByte m.file (offset.toNat + c) := by
  have got : c < m.got s offset buf.length := by
    rw [ok.got inside]
    exact less
  rw [byteAt, readDataFromFile_in got, fileByte]

theorem wordAt_read (ok : m.Succeeds) (inside : offset.toNat + buf.length ≤ m.file.length) {c : Nat}
    (less : c + 4 ≤ buf.length) : wordAt (m.readDataFromFile s offset buf).2 c = fileWord m.file (offset.toNat + c) := by
  rw [wordAt, byteAt_read ok inside (by omega), byteAt_read ok inside (by omega), byteAt_read ok inside (by omega),
    byteAt_read ok inside (by omega)]
  rfl

theorem halfAt_read (ok : m.Succeeds) (inside : offset.toNat + buf.length ≤ m.file.length) {c : Nat}
    (less : c + 2 ≤ buf.length) : halfAt (m.readDataFromFile s offset buf).2 c = fileHalf m.file (offset.toNat + c) := by
  rw [halfAt, byteAt_read ok inside (by omega), byteAt_read ok inside (by omega)]
  rfl

theorem bytes_read (ok : m.Succeeds) (inside : offset.toNat + buf.length ≤ m.file.length) :
    bytes (m.readDataFromFile s offset buf).2 = (m.file.drop offset.toNat).take buf.length := by
  rw [bytes, Media.readDataFromFile, ok.got inside, List.drop_length, List.append_nil, List.map_map]
  exact List.map_id _

end Reads

/-! ## The variables of the parser -/

section Parser

variable {m : Media} {mem : Memory} {s l : Nat}

theorem fileHeader_word (ok : m.Succeeds) (header : sizeofEhdr ≤ m.file.length) {c : Nat} (less : c + 4 ≤ sizeofEhdr) :
    wordAt (fileHeader m mem) c = fileWord m.file c := by
  have length := mem.length_fresh .ehdr sizeofEhdr
  have word := @wordAt_read m .header 0 (mem.fresh .ehdr sizeofEhdr) ok (by rw [length]; exact header) c
    (by rw [length]; exact less)
  have zero : (0 : Word).toNat = 0 := rfl
  rwa [zero, Nat.zero_add] at word

theorem eShnum_eq (ok : m.Succeeds) (header : sizeofEhdr ≤ m.file.length) :
    eShnum (fileHeader m mem) = sectionCount m.file := by
  have length := mem.length_fresh .ehdr sizeofEhdr
  have half := @halfAt_read m .header 0 (mem.fresh .ehdr sizeofEhdr) ok (by rw [length]; exact header) 48
    (by rw [length]; decide)
  have zero : (0 : Word).toNat = 0 := rfl
  rw [zero, Nat.zero_add] at half
  rw [eShnum, fileHeader, half]
  rfl

/-- The offset of a section header that is inside the file. -/
theorem section_offset (ok : m.Succeeds) (image : Image m.file s l) {i : Nat} (inside : i < sectionCount m.file) :
    (eShoff (fileHeader m mem) + BitVec.ofNat 32 (i * sizeofShdr)).toNat = sectionsOffset m.file + i * sizeofShdr ∧
      sectionsOffset m.file + i * sizeofShdr + sizeofShdr ≤ m.file.length := by
  have small := image.small
  have sections := image.sections
  have start : (eShoff (fileHeader m mem)).toNat = sectionsOffset m.file := by
    rw [eShoff, fileHeader_word ok image.header (by decide)]
    rfl
  have room : i * sizeofShdr + sizeofShdr ≤ sectionCount m.file * sizeofShdr := by
    rw [← Nat.succ_mul]
    exact Nat.mul_le_mul_right _ inside
  rw [BitVec.toNat_add, BitVec.toNat_ofNat, start]
  omega

theorem shdrAt_word (ok : m.Succeeds) (image : Image m.file s l) {i f : Nat} (inside : i < sectionCount m.file)
    (less : f + 4 ≤ sizeofShdr) : wordAt (shdrAt m mem (fileHeader m mem) i) f = sectionWord m.file i f := by
  have length := length_shdrVar m mem (fileHeader m mem) (2 * i)
  obtain ⟨start, room⟩ := @section_offset m mem s l ok image i inside
  rw [shdrAt_eq, wordAt_read ok (by rw [length, start]; exact room) (by rw [length]; exact less), start, sectionWord]

theorem linkAt_word (ok : m.Succeeds) (image : Image m.file s l) {f : Nat} (less : f + 4 ≤ sizeofShdr) :
    wordAt (linkAt m mem (fileHeader m mem) s) f = sectionWord m.file l f := by
  have length : (shdrAt m mem (fileHeader m mem) s).length = sizeofShdr := length_shdrVar ..
  have symtab : shType (shdrAt m mem (fileHeader m mem) s) = SHT_SYMTAB :=
    (shdrAt_word ok image image.symtab.1 (by decide)).trans image.symtab.2
  have link : shLink (shdrAt m mem (fileHeader m mem) s) * BitVec.ofNat 32 sizeofShdr =
      BitVec.ofNat 32 (l * sizeofShdr) := by
    have word : shLink (shdrAt m mem (fileHeader m mem) s) = BitVec.ofNat 32 l := by
      rw [shLink, shdrAt_word ok image image.symtab.1 (by decide), ← image.link, sectionLink, BitVec.ofNat_toNat,
        BitVec.setWidth_eq]
    rw [word, BitVec.ofNat_mul]
  obtain ⟨start, room⟩ := @section_offset m mem s l ok image l image.strtab.1
  rw [linkAt_eq, if_pos symtab, link, wordAt_read ok (by rw [length, start]; exact room) (by rw [length]; exact less),
    start, sectionWord]

/-- Other sections are no symbol tables. -/
theorem Image.firstFound (ok : m.Succeeds) (image : Image m.file s l) : FirstFound m mem (fileHeader m mem) s := by
  have type : ∀ i < sectionCount m.file, shType (shdrAt m mem (fileHeader m mem) i) = sectionType m.file i :=
    fun i inside => shdrAt_word ok image inside (by decide)
  have symtab : shType (shdrAt m mem (fileHeader m mem) s) = SHT_SYMTAB :=
    (type s image.symtab.1).trans image.symtab.2
  refine ⟨by rw [eShnum_eq ok image.header]; exact image.symtab.1, ⟨symtab, ?_⟩, fun i before found => ?_⟩
  · have word := @linkAt_word m mem s l ok image 4 (by decide)
    exact word.trans image.strtab.2
  · have inside := Nat.lt_trans before image.symtab.1
    have same := image.only i inside ((type i inside).symm.trans found.1)
    omega

/-- The tables the parser works with. -/
def imageTables (m : Media) (mem : Memory) (s : Nat) : Tables :=
  ⟨linkAt m mem (fileHeader m mem) s, shdrAt m mem (fileHeader m mem) s, true⟩

theorem imageTables_eq (ok : m.Succeeds) (image : Image m.file s l) :
    tables m mem (fileHeader m mem) = imageTables m mem s :=
  tables_found m mem _ (image.firstFound ok)

theorem shSize_eq (ok : m.Succeeds) (image : Image m.file s l) :
    shSize (imageTables m mem s).shdr = sectionSize m.file l :=
  congrArg BitVec.toNat (linkAt_word ok image (by decide))

theorem symbolCount_eq (ok : m.Succeeds) (image : Image m.file s l) :
    symbolCount (imageTables m mem s) = entryCount m.file s :=
  congrArg (fun w : Word => w.toNat / sizeofSym) (shdrAt_word ok image image.symtab.1 (by decide))

/-- The string table as it is read. -/
theorem bytes_stringTable (ok : m.Succeeds) (image : Image m.file s l) :
    bytes (stringTable m mem (imageTables m mem s)) = sectionBytes m.file l := by
  have size := @shSize_eq m mem s l ok image
  have offset : (shOffset (imageTables m mem s).shdr).toNat = sectionOffset m.file l :=
    congrArg BitVec.toNat (linkAt_word ok image (by decide))
  have length : (mem.fresh .shdrStr (shSize (imageTables m mem s).shdr)).length = sectionSize m.file l := by
    rw [Memory.length_fresh, size]
  rw [stringTable, bytes_read ok (by rw [offset, length]; exact image.strings), offset, length, sectionBytes]

/-- A symbol as it is read. -/
theorem symAt_word (ok : m.Succeeds) (image : Image m.file s l) {i k f : Nat} (less : k < entryCount m.file s)
    (within : f + 4 ≤ sizeofSym) : wordAt (symAt m mem (imageTables m mem s) i k) f =
      fileWord m.file (sectionOffset m.file s + k * sizeofSym + f) := by
  have small := image.small
  have symbols := image.symbols
  have offset : (shOffset (imageTables m mem s).shdrSym).toNat = sectionOffset m.file s :=
    congrArg BitVec.toNat (shdrAt_word ok image image.symtab.1 (by decide))
  have length := length_symVar m mem (imageTables m mem s) i k
  have room : k * sizeofSym + sizeofSym ≤ sectionSize m.file s := by
    rw [← Nat.succ_mul]
    exact (Nat.le_div_iff_mul_le (by decide)).mp less
  have start : (shOffset (imageTables m mem s).shdrSym + BitVec.ofNat 32 (k * sizeofSym)).toNat =
      sectionOffset m.file s + k * sizeofSym := by
    rw [BitVec.toNat_add, BitVec.toNat_ofNat, offset]
    omega
  rw [symAt, symVar, wordAt_read ok (by rw [length, start]; omega) (by rw [length]; exact within), start]

end Parser

end OffLineProgrammer.Flm
