import OffLineProgrammer.Flm.Spec

/-!
# When the parse is complete

`FLM_Prase` returns 0 for every file that contains `ELF`. What it has assigned
then comes from the file exactly where the last header of each kind and the last
symbol taken for each name were read as far as they are used.
-/

namespace OffLineProgrammer.Flm
set_option autoImplicit false
open OffLineProgrammer.Lib OffLineProgrammer.Target

/-! ## A complete parse -/

/-- A program header, up to its flags, comes from one read. -/
def HeaderRead (phdr : Cells) : Prop := ReadAt phdr 0 28

/-- The symbol table, up to its link, and its string table, up to its size. -/
def Tables.Read (v : Tables) : Prop := v.found = true ∧ ReadAt v.shdrSym 4 24 ∧ ReadAt v.shdr 4 20

/-- Every field was last assigned from bytes of the file. -/
structure Complete (header : Cells) (assigned : List Assign) : Prop where
  /-- Where the headers are and how many there are. -/
  header : ReadAt header 28 22
  /-- `algo_blob` and `algo_size` from a loadable RWX segment. -/
  algo : ∃ phdr blob, Passes.last Assign.algo? assigned = some (phdr, blob) ∧ IsAlgo phdr ∧ HeaderRead phdr ∧
    ReadAt blob 0 (pFilesz phdr).toNat
  /-- `program_buffer_size` from a device descriptor. -/
  page : ∃ phdr flmDev, Passes.last Assign.dev? assigned = some (phdr, flmDev) ∧ IsDevice phdr ∧ HeaderRead phdr ∧
    ReadAt flmDev 140 4
  /-- The entry points from symbols of their names. -/
  entry : ∀ j, ∃ v name sym, Passes.last (Assign.entry? j) assigned = some (v, name, sym) ∧ v.Read ∧
    name.map Cell.val = j.text ++ [0] ∧ ReadAt name 0 name.length ∧ ReadAt sym 0 8

/-- What the return value promises. -/
def Parsed.Honest (p : Parsed) (target : ProgramTarget) (info : ChipInformation) : Prop :=
  (p.ret = 0 → Complete p.header p.assigned) ∧ (p.ret ≠ 0 → p.target = target ∧ p.info = info)

/-! ## What the reads deliver -/

section Delivered

variable (m : Media) (mem : Memory) (ehdr : Cells)

/-- The bytes delivered of the file header. -/
def gotHeader : Nat := m.got .header 0 sizeofEhdr

/-- The bytes delivered of program header `i`. -/
def gotPhdr (i : Nat) : Nat := m.got (.phdr i) (ePhoff ehdr + BitVec.ofNat 32 (i * sizeofPhdr)) sizeofPhdr

/-- The bytes delivered of the segment of program header `i`. -/
def gotSegment (i : Nat) : Nat :=
  m.got (.segment i) (pOffset (phdrAt m mem ehdr i)) (pFilesz (phdrAt m mem ehdr i)).toNat

/-- The bytes delivered into `FLM_DEV` in pass `i`. -/
def gotDevice (i : Nat) : Nat :=
  if IsDevice (phdrAt m mem ehdr i) then m.got (.device i) (pOffset (phdrAt m mem ehdr i)) sizeofFlmDev else 0

/-- The bytes delivered into `Shdr` by its reads: in pass `r / 2` the header, then
the one its link names. -/
def gotShdr (r : Nat) : Nat :=
  if r % 2 = 0 then m.got (.shdr (r / 2)) (eShoff ehdr + BitVec.ofNat 32 (r / 2 * sizeofShdr)) sizeofShdr
  else if shType (shdrVar m mem ehdr r) = SHT_SYMTAB then
    m.got (.link (r / 2)) (eShoff ehdr + shLink (shdrVar m mem ehdr r) * BitVec.ofNat 32 sizeofShdr) sizeofShdr
  else 0

/-- The bytes delivered of the string table. -/
def gotStrtab (v : Tables) : Nat := m.got .strtab (shOffset v.shdr) (shSize v.shdr)

/-- The bytes delivered of symbol `k` in the call for the string that ends at `i`. -/
def gotSym (v : Tables) (i k : Nat) : Nat :=
  m.got (.sym i k) (shOffset v.shdrSym + BitVec.ofNat 32 (k * sizeofSym)) sizeofSym

theorem siteAt_fresh (v : Var) (n c : Nat) : siteAt (mem.fresh v n) c = none := by
  unfold siteAt
  rw [List.getD_eq_getElem?_getD]
  rcases Nat.lt_or_ge c n with inside | outside
  · simp [Memory.fresh, inside]
  · rw [List.getElem?_eq_none (by rw [Memory.length_fresh]; exact outside)]
    rfl

/-- What a single read delivers. -/
theorem readAt_fresh (s : Site) (offset : Word) (v : Var) (n lo len : Nat) :
    ReadAt (m.readDataFromFile s offset (mem.fresh v n)).2 lo len ↔ len = 0 ∨ lo + len ≤ m.got s offset n := by
  have site : ∀ c, siteAt (m.readDataFromFile s offset (mem.fresh v n)).2 c =
      if c < m.got s offset n then some s else none := by
    intro c
    rw [siteAt_readDataFromFile, Memory.length_fresh, siteAt_fresh]
  constructor
  · rintro ⟨s', all⟩
    apply or_iff_not_imp_left.mpr
    intro some_
    have last := all (len - 1) (by omega)
    rw [site] at last
    split at last
    · omega
    · cases last
  · rintro (none | inside)
    · exact ⟨s, fun k less => by omega⟩
    · refine ⟨s, fun k less => ?_⟩
      rw [site, if_pos (by omega)]

theorem phdrVar_reads : Reads (phdrVar m mem ehdr) Site.phdr (gotPhdr m ehdr) where
  fresh c := siteAt_fresh mem ..
  step n c := by rw [phdrVar, siteAt_readDataFromFile, length_phdrVar, gotPhdr]
  sites r r' same := Site.phdr.inj same

theorem flmDevVar_reads : Reads (flmDevVar m mem ehdr) Site.device (gotDevice m mem ehdr) where
  fresh c := siteAt_fresh mem ..
  step n c := by
    rw [flmDevVar, gotDevice]
    split
    · rw [siteAt_readDataFromFile, length_flmDevVar]
    · rw [if_neg (Nat.not_lt_zero c)]
  sites r r' same := Site.device.inj same

theorem shdrVar_reads : Reads (shdrVar m mem ehdr)
    (fun r => if r % 2 = 0 then .shdr (r / 2) else .link (r / 2)) (gotShdr m mem ehdr) where
  fresh c := siteAt_fresh mem ..
  step n c := by
    rw [shdrVar, gotShdr]
    split
    · rw [siteAt_readDataFromFile, length_shdrVar]
    · split
      · rw [siteAt_readDataFromFile, length_shdrVar]
      · rw [if_neg (Nat.not_lt_zero c)]
  sites r r' same := by
    split at same <;> split at same <;> first | cases same | skip
    · have half := Site.shdr.inj same
      omega
    · have half := Site.link.inj same
      omega

theorem symVar_reads (v : Tables) (i : Nat) : Reads (symVar m mem v i) (Site.sym i) (gotSym m v i) where
  fresh c := siteAt_fresh mem ..
  step n c := by rw [symVar, siteAt_readDataFromFile, length_symVar, gotSym]
  sites r r' same := (Site.sym.inj same).2

theorem length_nameCells (strs : Cells) {i : Nat} (inside : i < strs.length) :
    (nameCells strs i).length = i - strVar strs i + 1 := by
  have le := strVar_le strs i
  rw [nameCells, List.length_take, List.length_drop]
  omega

theorem siteAt_nameCells (strs : Cells) {i k : Nat} (inside : k < i - strVar strs i + 1) :
    siteAt (nameCells strs i) k = siteAt strs (strVar strs i + k) := by
  unfold siteAt
  rw [nameCells, List.getD_eq_getElem?_getD, List.getElem?_take, if_pos inside, List.getElem?_drop,
    List.getD_eq_getElem?_getD]

/-- A name has been read if the string table was delivered to its end. -/
theorem nameCells_readAt (v : Tables) {i : Nat} (inside : i < shSize v.shdr) :
    ReadAt (nameCells (stringTable m mem v) i) 0 (nameCells (stringTable m mem v) i).length ↔ i < gotStrtab m v := by
  have le := strVar_le (stringTable m mem v) i
  have length := length_stringTable m mem v
  have same : ReadAt (nameCells (stringTable m mem v) i) 0 (nameCells (stringTable m mem v) i).length ↔
      ReadAt (stringTable m mem v) (strVar (stringTable m mem v) i) (i - strVar (stringTable m mem v) i + 1) := by
    rw [length_nameCells _ (by omega)]
    apply exists_congr
    intro s
    apply forall₂_congr
    intro k less
    rw [Nat.zero_add, siteAt_nameCells _ less]
  rw [same, stringTable, readAt_fresh, gotStrtab]
  rw [stringTable] at le
  omega

end Delivered

/-! ## Complete files -/

section Parse

variable (m : Media) (mem : Memory)

/-- The last symbol taken for `j` is `k` at the string that ends at `i`, the string
is the name, and both have been read. -/
def SymbolRead (v : Tables) (j : FunName) : Prop :=
  ∃ i < shSize v.shdr, ∃ k < symbolCount v, Taken m mem v (stringTable m mem v) j i k ∧
    (∀ k', k < k' → k' < symbolCount v → ¬ Taken m mem v (stringTable m mem v) j i k') ∧
    (∀ i', i < i' → i' < shSize v.shdr → ∀ k' < symbolCount v, ¬ Taken m mem v (stringTable m mem v) j i' k') ∧
    (nameCells (stringTable m mem v) i).map Cell.val = j.text ++ [0] ∧
    i < gotStrtab m v ∧ Delivered (gotSym m v i) (k + 1) 0 8

/-- What the file and its reads must be for a complete parse: the last header of
the algorithm, the last device header, the first symbol table with a string table
and the last symbol for each name are there, and the last read that reaches the
variable of each gets as far as the parser looks. -/
structure Readable : Prop where
  header : 50 ≤ gotHeader m
  algo : ∃ a < ePhnum (fileHeader m mem), IsAlgo (phdrAt m mem (fileHeader m mem) a) ∧
    (∀ i, a < i → i < ePhnum (fileHeader m mem) → ¬ IsAlgo (phdrAt m mem (fileHeader m mem) i)) ∧
    Delivered (gotPhdr m (fileHeader m mem)) (a + 1) 0 28 ∧
    gotSegment m mem (fileHeader m mem) a = (pFilesz (phdrAt m mem (fileHeader m mem) a)).toNat
  page : ∃ b < ePhnum (fileHeader m mem), IsDevice (phdrAt m mem (fileHeader m mem) b) ∧
    (∀ i, b < i → i < ePhnum (fileHeader m mem) → ¬ IsDevice (phdrAt m mem (fileHeader m mem) i)) ∧
    Delivered (gotPhdr m (fileHeader m mem)) (b + 1) 0 28 ∧
    Delivered (gotDevice m mem (fileHeader m mem)) (b + 1) 140 144
  entry : ∃ s, FirstFound m mem (fileHeader m mem) s ∧
    Delivered (gotShdr m mem (fileHeader m mem)) (2 * s + 1) 4 28 ∧
    Delivered (gotShdr m mem (fileHeader m mem)) (2 * s + 2) 4 24 ∧
    ∀ j, SymbolRead m mem ⟨linkAt m mem (fileHeader m mem) s, shdrAt m mem (fileHeader m mem) s, true⟩ j

theorem complete_algo : (∃ phdr blob, Passes.last Assign.algo? (assignments m mem) = some (phdr, blob) ∧ IsAlgo phdr ∧
      HeaderRead phdr ∧ ReadAt blob 0 (pFilesz phdr).toNat) ↔
    ∃ a < ePhnum (fileHeader m mem), IsAlgo (phdrAt m mem (fileHeader m mem) a) ∧
      (∀ i, a < i → i < ePhnum (fileHeader m mem) → ¬ IsAlgo (phdrAt m mem (fileHeader m mem) i)) ∧
      Delivered (gotPhdr m (fileHeader m mem)) (a + 1) 0 28 ∧
      gotSegment m mem (fileHeader m mem) a = (pFilesz (phdrAt m mem (fileHeader m mem) a)).toNat := by
  have read : ∀ a, HeaderRead (phdrAt m mem (fileHeader m mem) a) ↔
      Delivered (gotPhdr m (fileHeader m mem)) (a + 1) 0 28 := fun a =>
    (phdrVar_reads m mem (fileHeader m mem)).readAt (by decide)
  have segment : ∀ a, ReadAt (segmentAt m mem (fileHeader m mem) a) 0 (pFilesz (phdrAt m mem (fileHeader m mem) a)).toNat ↔
      gotSegment m mem (fileHeader m mem) a = (pFilesz (phdrAt m mem (fileHeader m mem) a)).toNat := by
    intro a
    have le := (m.got_le (.segment a) (pOffset (phdrAt m mem (fileHeader m mem) a))
      (pFilesz (phdrAt m mem (fileHeader m mem) a)).toNat).1
    rw [segmentAt, readAt_fresh, gotSegment]
    omega
  constructor
  · rintro ⟨phdr, blob, last, algo, header, bytes⟩
    rw [assignments_algo, programHeader_algo, Option.map_eq_some_iff] at last
    obtain ⟨a, index, same⟩ := last
    obtain ⟨inside, -, later⟩ := Passes.lastIndex_eq_some.mp index
    obtain ⟨rfl, rfl⟩ := Prod.mk.inj same
    exact ⟨a, inside, algo, later, (read a).mp header, (segment a).mp bytes⟩
  · rintro ⟨a, inside, algo, later, header, bytes⟩
    refine ⟨phdrAt m mem (fileHeader m mem) a, segmentAt m mem (fileHeader m mem) a, ?_, algo, (read a).mpr header,
      (segment a).mpr bytes⟩
    rw [assignments_algo, programHeader_algo, lastHeader, Passes.lastIndex_eq_some.mpr ⟨inside, algo, later⟩]
    rfl

theorem complete_page : (∃ phdr flmDev, Passes.last Assign.dev? (assignments m mem) = some (phdr, flmDev) ∧
      IsDevice phdr ∧ HeaderRead phdr ∧ ReadAt flmDev 140 4) ↔
    ∃ b < ePhnum (fileHeader m mem), IsDevice (phdrAt m mem (fileHeader m mem) b) ∧
      (∀ i, b < i → i < ePhnum (fileHeader m mem) → ¬ IsDevice (phdrAt m mem (fileHeader m mem) i)) ∧
      Delivered (gotPhdr m (fileHeader m mem)) (b + 1) 0 28 ∧
      Delivered (gotDevice m mem (fileHeader m mem)) (b + 1) 140 144 := by
  have read : ∀ b, HeaderRead (phdrAt m mem (fileHeader m mem) b) ↔
      Delivered (gotPhdr m (fileHeader m mem)) (b + 1) 0 28 := fun b =>
    (phdrVar_reads m mem (fileHeader m mem)).readAt (by decide)
  have descriptor : ∀ b, ReadAt (flmDevVar m mem (fileHeader m mem) (b + 1)) 140 4 ↔
      Delivered (gotDevice m mem (fileHeader m mem)) (b + 1) 140 144 := fun b =>
    (flmDevVar_reads m mem (fileHeader m mem)).readAt (by decide)
  constructor
  · rintro ⟨phdr, flmDev, last, device, header, bytes⟩
    rw [assignments_dev, programHeader_dev, Option.map_eq_some_iff] at last
    obtain ⟨b, index, same⟩ := last
    obtain ⟨inside, -, later⟩ := Passes.lastIndex_eq_some.mp index
    obtain ⟨rfl, rfl⟩ := Prod.mk.inj same
    exact ⟨b, inside, device, later, (read b).mp header, (descriptor b).mp bytes⟩
  · rintro ⟨b, inside, device, later, header, bytes⟩
    refine ⟨phdrAt m mem (fileHeader m mem) b, flmDevVar m mem (fileHeader m mem) (b + 1), ?_, device,
      (read b).mpr header, (descriptor b).mpr bytes⟩
    rw [assignments_dev, programHeader_dev, lastHeader, Passes.lastIndex_eq_some.mpr ⟨inside, device, later⟩]
    rfl

/-- The tables come from the file if the reads of their headers got that far. -/
theorem tables_read {s : Nat} (first : FirstFound m mem (fileHeader m mem) s) :
    (tables m mem (fileHeader m mem)).Read ↔
      Delivered (gotShdr m mem (fileHeader m mem)) (2 * s + 1) 4 28 ∧
      Delivered (gotShdr m mem (fileHeader m mem)) (2 * s + 2) 4 24 := by
  have symtab : ReadAt (shdrAt m mem (fileHeader m mem) s) 4 24 ↔
      Delivered (gotShdr m mem (fileHeader m mem)) (2 * s + 1) 4 28 :=
    (shdrVar_reads m mem (fileHeader m mem)).readAt (by decide)
  have strtab : ReadAt (linkAt m mem (fileHeader m mem) s) 4 20 ↔
      Delivered (gotShdr m mem (fileHeader m mem)) (2 * s + 2) 4 24 :=
    (shdrVar_reads m mem (fileHeader m mem)).readAt (by decide)
  rw [tables_found m mem _ first, Tables.Read, symtab, strtab]
  exact and_iff_right rfl

theorem tables_first (read : (tables m mem (fileHeader m mem)).Read) :
    ∃ s, FirstFound m mem (fileHeader m mem) s := by
  apply Classical.byContradiction
  intro none
  have never := tables_none m mem (fileHeader m mem) fun s first => none ⟨s, first⟩
  rw [read.1] at never
  cases never

theorem complete_entry (v : Tables) (same : tables m mem (fileHeader m mem) = v) (j : FunName) :
    (∃ v' name sym, Passes.last (Assign.entry? j) (assignments m mem) = some (v', name, sym) ∧ v'.Read ∧
      name.map Cell.val = j.text ++ [0] ∧ ReadAt name 0 name.length ∧ ReadAt sym 0 8) ↔
    v.Read ∧ SymbolRead m mem v j := by
  have symbol : ∀ i k, ReadAt (symAt m mem v i k) 0 8 ↔ Delivered (gotSym m v i) (k + 1) 0 8 := fun i k =>
    (symVar_reads m mem v i).readAt (by decide)
  constructor
  · rintro ⟨v', name, sym, last, read, text, named, value⟩
    rw [assignments_entry, sectionsHeader_entry m mem _ v same] at last
    obtain ⟨i, inside, ⟨k, less, taken, eq, later⟩, after⟩ := last
    obtain ⟨rfl, rest⟩ := Prod.mk.inj eq
    obtain ⟨rfl, rfl⟩ := Prod.mk.inj rest
    exact ⟨read, i, inside, k, less, taken, later, after, text, (nameCells_readAt m mem v' inside).mp named,
      (symbol i k).mp value⟩
  · rintro ⟨read, i, inside, k, less, taken, later, after, text, named, value⟩
    refine ⟨v, nameCells (stringTable m mem v) i, symAt m mem v i k, ?_, read, text,
      (nameCells_readAt m mem v inside).mpr named, (symbol i k).mpr value⟩
    rw [assignments_entry, sectionsHeader_entry m mem _ v same]
    exact ⟨i, inside, ⟨k, less, taken, rfl, later⟩, after⟩

/-- A parse is complete exactly for readable files. -/
theorem complete_iff : Complete (fileHeader m mem) (assignments m mem) ↔ Readable m mem := by
  have header : ReadAt (fileHeader m mem) 28 22 ↔ 50 ≤ gotHeader m := by
    rw [fileHeader, readAt_fresh, gotHeader]
    omega
  constructor
  · intro complete
    have read := ((complete_entry m mem _ rfl .init).mp (complete.entry .init)).1
    obtain ⟨s, first⟩ := tables_first m mem read
    obtain ⟨sym, str⟩ := (tables_read m mem first).mp read
    refine ⟨header.mp complete.header, (complete_algo m mem).mp complete.algo, (complete_page m mem).mp complete.page,
      s, first, sym, str, fun j => ?_⟩
    exact ((complete_entry m mem _ (tables_found m mem _ first) j).mp (complete.entry j)).2
  · rintro ⟨ehdr, algo, page, s, first, sym, str, entry⟩
    refine ⟨header.mpr ehdr, (complete_algo m mem).mpr algo, (complete_page m mem).mpr page, fun j => ?_⟩
    have found := tables_found m mem (fileHeader m mem) first
    have read := (tables_read m mem first).mpr ⟨sym, str⟩
    rw [found] at read
    exact (complete_entry m mem _ found j).mpr ⟨read, entry j⟩

/-- **The return value** can be relied on for files without `ELF` and for readable files. -/
theorem flmPrase_complete_iff (target : ProgramTarget) (info : ChipInformation) :
    (flmPrase m mem target info).Honest target info ↔ ¬ HasElf m mem ∨ Readable m mem := by
  unfold flmPrase Parsed.Honest
  by_cases elf : HasElf m mem
  · rw [if_pos elf]
    simp only [forall_const, ne_eq, not_true_eq_false, false_implies, and_true, elf, false_or]
    exact complete_iff m mem
  · rw [if_neg elf]
    have fails : (-1 : Int) ≠ 0 := by decide
    simp only [fails, false_implies, ne_eq, not_false_eq_true, forall_const, and_self, elf, true_or]

end Parse

/-- A file with nothing behind its header but one null section header. -/
def bareFile : List Byte := elf32Ehdr 52 52 0 1 ++ elf32Shdr 0 0 0 0

/-- A file without an algorithm is accepted, with every read successful. -/
theorem flmPrase_accepts_bare :
    ¬ (flmPrase (Media.whole bareFile) zeroMemory flashAlgo noInformation).Honest flashAlgo noInformation := by
  intro honest
  have elf : HasElf (Media.whole bareFile) zeroMemory := by decide
  have ret : (flmPrase (Media.whole bareFile) zeroMemory flashAlgo noInformation).ret = 0 := by
    rw [flmPrase, if_pos elf]
  have complete := honest.1 ret
  rw [flmPrase, if_pos elf] at complete
  obtain ⟨a, inside, -⟩ := (complete_algo _ _).mp complete.algo
  have none : ePhnum (fileHeader (Media.whole bareFile) zeroMemory) = 0 := by decide
  omega

end OffLineProgrammer.Flm
