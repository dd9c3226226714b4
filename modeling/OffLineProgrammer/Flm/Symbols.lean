import OffLineProgrammer.Flm.Image

/-!
# Names of symbols

By the ELF definition the name of a symbol is the string at `st_name` of the
string table, wherever it starts. The parser compares only the strings that start
behind a zero byte, by their length and their first four bytes, and takes the
last symbol of such a string.
-/

namespace OffLineProgrammer.Flm
set_option autoImplicit false
open OffLineProgrammer.Lib OffLineProgrammer.Target

/-! ## The test of a string -/

/-- A string of the length of a name with its first `sizeof( StrFunNameTable[j] )` bytes. -/
def Similar (name : List Byte) (j : FunName) : Prop :=
  name.length = j.text.length ∧ name.take sizeofName = j.text.take sizeofName

instance (name : List Byte) (j : FunName) : Decidable (Similar name j) := by unfold Similar; infer_instance

section Names

variable {s t name : List Byte} {p : Nat} {j j' : FunName}

theorem strncmpEq_iff {n : Nat} : ∀ {s t : List Byte}, n ≤ s.length → 0 ∉ s →
    (strncmpEq s t n = true ↔ t.take n = s.take n) := by
  induction n with
  | zero => simp [strncmpEq]
  | succ n ih =>
    intro s t enough clear
    obtain - | ⟨a, s⟩ := s
    · cases enough
    · have nonzero : a ≠ 0 := fun same => clear (List.mem_cons.mpr (Or.inl same.symm))
      have rest : 0 ∉ s := fun mem => clear (List.mem_cons_of_mem a mem)
      obtain - | ⟨b, t⟩ := t
      · rw [strncmpEq, List.headD_cons, List.headD_nil, if_pos nonzero]
        simp only [Bool.false_eq_true, List.take_nil, List.take_succ_cons, reduceCtorEq]
      · have tail := @ih s t (Nat.le_of_succ_le_succ enough) rest
        rw [strncmpEq, List.headD_cons, List.headD_cons, List.tail_cons, List.tail_cons, List.take_succ_cons,
          List.take_succ_cons, List.cons_eq_cons, ← tail]
        by_cases same : a = b
        · subst same
          simp only [ne_eq, not_true_eq_false, if_false, nonzero, true_and]
        · have other : ¬ b = a := fun h => same h.symm
          simp only [ne_eq, same, other, not_false_eq_true, if_true, Bool.false_eq_true, false_and]

theorem FunName.strlen_text : strlen j.text = j.text.length := by cases j <;> rfl

theorem FunName.text_clear : 0 ∉ j.text := by cases j <;> decide

theorem FunName.text_long : sizeofName ≤ j.text.length := by cases j <;> decide

theorem similar_text : Similar j.text j := ⟨rfl, rfl⟩

/-- The test takes the strings that are similar to the name. -/
theorem matchesName_iff (named : StringTable.NameAt 0 t p name) :
    matchesName (t.drop p) j = true ↔ Similar name j := by
  have length : strlen (t.drop p) = name.length := congrArg List.length named.takeWhile
  rw [matchesName, Bool.and_eq_true, beq_iff_eq, length, FunName.strlen_text,
    strncmpEq_iff FunName.text_long FunName.text_clear, Similar]
  constructor
  · rintro ⟨same, prefix_⟩
    refine ⟨same.symm, ?_⟩
    rw [← prefix_, ← named.items, List.take_take, ← same, Nat.min_eq_left FunName.text_long]
  · rintro ⟨same, prefix_⟩
    refine ⟨same.symm, ?_⟩
    rw [← prefix_, ← named.items, List.take_take, same, Nat.min_eq_left FunName.text_long]

/-- No string passes the test of two names. -/
theorem Similar.unique (here : Similar name j) (there : Similar name j') : j = j' := by
  have length := here.1.symm.trans there.1
  have front := here.2.symm.trans there.2
  revert length front
  cases j <;> cases j' <;> decide

theorem find_iff (named : StringTable.NameAt 0 t p name) :
    strFunNameTable.find? (matchesName (t.drop p)) = some j ↔ Similar name j := by
  constructor
  · intro found
    exact (matchesName_iff named).mp (List.find?_some found)
  · intro similar
    have test := (@matchesName_iff _ _ _ j named).mpr similar
    have listed : j ∈ strFunNameTable := by cases j <;> decide
    obtain ⟨j', found⟩ := Option.isSome_iff_exists.mp (List.find?_isSome.mpr ⟨j, listed, test⟩)
    have similar' := (matchesName_iff named).mp (List.find?_some found)
    rw [found, similar.unique similar']

end Names

/-! ## Symbols of a name -/

section Entries

variable (file : List Byte) (s l : Nat) (j : FunName)

/-- Entry `k` of the symbol table has the name. -/
def Named (k : Nat) : Prop :=
  k < entryCount file s ∧ StringTable.NameAt 0 (sectionBytes file l) (entryName file s k).toNat j.text

instance (k : Nat) : Decidable (Named file s l j k) := by unfold Named; infer_instance

/-- Entry `k`, and no other, has the name. -/
def OnlyNamed (k : Nat) : Prop := Named file s l j k ∧ ∀ k', Named file s l j k' → k' = k

/-- The name of entry `k` starts a whole string. -/
def Whole (k : Nat) : Prop := StringTable.Whole 0 (sectionBytes file l) (entryName file s k).toNat

/-- The name of entry `k` is a whole string that is similar to the name. -/
def Candidate (k : Nat) : Prop :=
  k < entryCount file s ∧ Whole file s l k ∧
    ∃ name, StringTable.NameAt 0 (sectionBytes file l) (entryName file s k).toNat name ∧ Similar name j

/-- Entry `k` is the last candidate, by the place of its name and then by its own. -/
def LastCandidate (k : Nat) : Prop :=
  Candidate file s l j k ∧ ∀ k', Candidate file s l j k' →
    (entryName file s k').toNat < (entryName file s k).toNat ∨
      ((entryName file s k').toNat = (entryName file s k).toNat ∧ k' ≤ k)

variable {file s l j}

theorem LastCandidate.unique {k k' : Nat} (here : LastCandidate file s l j k) (there : LastCandidate file s l j k') :
    k = k' := by
  have one := here.2 k' there.1
  have other := there.2 k here.1
  omega

end Entries

/-! ## The symbols that are taken -/

section Taken

variable {m : Media} {mem : Memory} {s l : Nat} {j : FunName}

/-- A symbol is taken at the end of its name if that is a whole string similar to `j`. -/
theorem taken_iff (ok : m.Succeeds) (image : Image m.file s l) {i k : Nat} (inside : i < sectionSize m.file l)
    (less : k < entryCount m.file s) :
    Taken m mem (imageTables m mem s) (stringTable m mem (imageTables m mem s)) j i k ↔
      ∃ name, StringTable.NameAt 0 (sectionBytes m.file l) (entryName m.file s k).toNat name ∧
        Whole m.file s l k ∧ Similar name j ∧ i = (entryName m.file s k).toNat + name.length := by
  have table := @bytes_stringTable m mem s l ok image
  have length : (stringTable m mem (imageTables m mem s)).length = sectionSize m.file l := by
    rw [length_stringTable, shSize_eq ok image]
  have present : i < (stringTable m mem (imageTables m mem s)).length := by rw [length]; exact inside
  have small := image.small
  have strings := image.strings
  have le := strVar_le (stringTable m mem (imageTables m mem s)) i
  have symbol : stName (symAt m mem (imageTables m mem s) i k) = entryName m.file s k :=
    symAt_word ok image less (by decide)
  have place : BitVec.ofNat 32 (strVar (stringTable m mem (imageTables m mem s)) i) = entryName m.file s k ↔
      strVar (stringTable m mem (imageTables m mem s)) i = (entryName m.file s k).toNat := by
    constructor
    · intro same
      rw [← same, BitVec.toNat_ofNat, Nat.mod_eq_of_lt (by omega)]
    · intro same
      rw [same, BitVec.ofNat_toNat, BitVec.setWidth_eq]
  rw [Taken, EndsName, symbol, place, strAt_eq, byteAt_zero _ present]
  constructor
  · rintro ⟨⟨zero, found⟩, same⟩
    have named := StringTable.nameAt_start zero
    have whole := @StringTable.whole_start _ 0 (bytes (stringTable m mem (imageTables m mem s))) i _
    have width : (nameBytes (stringTable m mem (imageTables m mem s)) i).length = i - _ := length_nameBytes _ present
    change StringTable.NameAt 0 _ (strVar _ i) (nameBytes _ i) at named
    change StringTable.Whole 0 _ (strVar _ i) at whole
    have similar := (find_iff named).mp found
    rw [same] at le width
    rw [same, table] at named whole
    exact ⟨_, named, whole, similar, by omega⟩
  · rintro ⟨name, named, whole, similar, rfl⟩
    have start : strVar (stringTable m mem (imageTables m mem s)) ((entryName m.file s k).toNat + name.length) =
        (entryName m.file s k).toNat := by
      rw [strVar, table]
      exact named.start_eq whole
    rw [start, table]
    exact ⟨⟨named.ends, (find_iff named).mpr similar⟩, rfl⟩

/-- A candidate is taken where its name ends. -/
theorem Candidate.taken (ok : m.Succeeds) (image : Image m.file s l) {k : Nat} (candidate : Candidate m.file s l j k) :
    ∃ name, StringTable.NameAt 0 (sectionBytes m.file l) (entryName m.file s k).toNat name ∧
      (entryName m.file s k).toNat + name.length < sectionSize m.file l ∧
      Taken m mem (imageTables m mem s) (stringTable m mem (imageTables m mem s)) j
        ((entryName m.file s k).toNat + name.length) k := by
  obtain ⟨less, whole, name, named, similar⟩ := candidate
  have inside : (entryName m.file s k).toNat + name.length < sectionSize m.file l := by
    have present := (List.getElem?_eq_some_iff.mp named.ends).1
    rw [sectionBytes, List.length_take] at present
    omega
  exact ⟨name, named, inside, (taken_iff ok image inside less).mpr ⟨name, named, whole, similar, rfl⟩⟩

/-- Two whole strings that end in some order start in that order. -/
theorem starts_before {t name name' : List Byte} {p p' : Nat} (named : StringTable.NameAt 0 t p name)
    (named' : StringTable.NameAt 0 t p' name') (before : p' + name'.length < p + name.length) : p' < p := by
  rcases Nat.lt_or_ge p' p with less | above
  · exact less
  · have clear := @StringTable.NameAt.ne _ _ _ _ _ named (p' + name'.length - p) (by omega)
    rw [show p + (p' + name'.length - p) = p' + name'.length by omega] at clear
    exact absurd named'.ends clear

/-- **The symbol taken last** is the last candidate. -/
theorem last_candidate (ok : m.Succeeds) (image : Image m.file s l) {v : Tables} {name sym : Cells}
    (last : Passes.last (Assign.entry? j) (flmSectionsHeader m mem (fileHeader m mem)) = some (v, name, sym)) :
    ∃ k, LastCandidate m.file s l j k ∧ stName sym = entryName m.file s k ∧ stValue sym = entryValue m.file s k := by
  rw [sectionsHeader_entry m mem _ _ (imageTables_eq ok image), shSize_eq ok image, symbolCount_eq ok image] at last
  obtain ⟨i, inside, ⟨k, less, taken, eq, later⟩, after⟩ := last
  obtain ⟨-, rest⟩ := Prod.mk.inj eq
  obtain ⟨-, rfl⟩ := Prod.mk.inj rest
  obtain ⟨name₁, named, whole, similar, ends⟩ := (taken_iff ok image inside less).mp taken
  refine ⟨k, ⟨⟨less, whole, name₁, named, similar⟩, fun k' candidate => ?_⟩, symAt_word ok image less (by decide),
    symAt_word ok image less (by decide)⟩
  obtain ⟨name', named', inside', taken'⟩ := @Candidate.taken m mem s l j ok image k' candidate
  rcases Nat.lt_trichotomy ((entryName m.file s k').toNat + name'.length) i with before | same | behind
  · rw [ends] at before
    exact Or.inl (starts_before named named' before)
  · rw [same] at taken'
    have start := named.start_eq whole
    have start' := named'.start_eq candidate.2.1
    rw [← ends] at start
    rw [same, start] at start'
    refine Or.inr ⟨start'.symm, Nat.le_of_not_lt fun above => later k' above candidate.1 taken'⟩
  · exact absurd taken' (after _ behind inside' k' candidate.1)

theorem no_candidate (ok : m.Succeeds) (image : Image m.file s l) :
    Passes.last (Assign.entry? j) (flmSectionsHeader m mem (fileHeader m mem)) = none ↔
      ∀ k, ¬ Candidate m.file s l j k := by
  rw [sectionsHeader_none m mem _ _ (imageTables_eq ok image), shSize_eq ok image, symbolCount_eq ok image]
  constructor
  · intro never k candidate
    obtain ⟨name, -, inside, taken⟩ := @Candidate.taken m mem s l j ok image k candidate
    exact never _ inside k candidate.1 taken
  · intro none i inside k less taken
    obtain ⟨name, named, whole, similar, -⟩ := (taken_iff ok image inside less).mp taken
    exact none k ⟨less, whole, name, named, similar⟩

end Taken

/-! ## Resolution -/

section Resolution

variable (m : Media) (mem : Memory) (s l : Nat) (j : FunName)

/-- The entry point after `FLM_Sections_Header`. -/
def entryAfter (r : ProgramTarget × ChipInformation) : Word :=
  entryOf ((flmSectionsHeader m mem (fileHeader m mem)).foldl Assign.apply r).1 j

/-- The entry point agrees with the ELF definition of a symbol's name. -/
structure Resolves : Prop where
  unique : ∀ k, OnlyNamed m.file s l j k → ∀ r, entryAfter m mem j r = entryValue m.file s k + ARM_DRIFT_RAM
  unnamed : (∀ k, ¬ Named m.file s l j k) → ∀ r, entryAfter m mem j r = entryOf r.1 j
  /-- What the field holds in the end does not come from a symbol of another name. -/
  others : ∀ v name sym, Passes.last (Assign.entry? j) (flmSectionsHeader m mem (fileHeader m mem)) = some (v, name, sym) →
    StringTable.NameAt 0 (sectionBytes m.file l) (stName sym).toNat j.text

variable {m mem s l j}

theorem entryAfter_none (none : Passes.last (Assign.entry? j) (flmSectionsHeader m mem (fileHeader m mem)) = none)
    (r : ProgramTarget × ChipInformation) : entryAfter m mem j r = entryOf r.1 j := by
  rw [entryAfter, entryOf_last, none]
  rfl

theorem entryAfter_some {x : Tables × Cells × Cells}
    (last : Passes.last (Assign.entry? j) (flmSectionsHeader m mem (fileHeader m mem)) = some x)
    (r : ProgramTarget × ChipInformation) : entryAfter m mem j r = stValue x.2.2 + ARM_DRIFT_RAM := by
  rw [entryAfter, entryOf_last, last]
  rfl

/-- What is taken when symbols are resolved is the last candidate and has the name. -/
theorem Resolves.taken_named (ok : m.Succeeds) (image : Image m.file s l) (resolves : Resolves m mem s l j)
    {x : Tables × Cells × Cells}
    (last : Passes.last (Assign.entry? j) (flmSectionsHeader m mem (fileHeader m mem)) = some x) :
    ∃ k, LastCandidate m.file s l j k ∧ Named m.file s l j k := by
  obtain ⟨v, name, sym⟩ := x
  obtain ⟨k, candidate, place, -⟩ := last_candidate ok image last
  have named := resolves.others v name sym last
  rw [place] at named
  exact ⟨k, candidate, candidate.1.1, named⟩

theorem Resolves.candidate_named (ok : m.Succeeds) (image : Image m.file s l) (resolves : Resolves m mem s l j) {k : Nat}
    (candidate : LastCandidate m.file s l j k) : Named m.file s l j k := by
  cases last : Passes.last (Assign.entry? j) (flmSectionsHeader m mem (fileHeader m mem)) with
  | none => exact absurd candidate.1 ((no_candidate ok image).mp last k)
  | some x =>
    obtain ⟨k', candidate', named⟩ := resolves.taken_named ok image last
    rwa [candidate.unique candidate']

theorem Resolves.only_whole (ok : m.Succeeds) (image : Image m.file s l) (resolves : Resolves m mem s l j) {k : Nat}
    (only : OnlyNamed m.file s l j k) : Whole m.file s l k := by
  cases last : Passes.last (Assign.entry? j) (flmSectionsHeader m mem (fileHeader m mem)) with
  | none =>
    -- a field that is left alone can hold anything
    have value := resolves.unique k only
      (setEntry flashAlgo (entryValue m.file s k + ARM_DRIFT_RAM + 1) j, noInformation)
    rw [entryAfter_none last, entryOf_setEntry, if_pos rfl] at value
    bv_omega
  | some x =>
    obtain ⟨k', candidate, named⟩ := resolves.taken_named ok image last
    rw [← only.2 k' named]
    exact candidate.1.2.1

theorem resolves_of (ok : m.Succeeds) (image : Image m.file s l)
    (named : ∀ k, LastCandidate m.file s l j k → Named m.file s l j k)
    (whole : ∀ k, OnlyNamed m.file s l j k → Whole m.file s l k) : Resolves m mem s l j := by
  cases last : Passes.last (Assign.entry? j) (flmSectionsHeader m mem (fileHeader m mem)) with
  | none =>
    refine ⟨fun k only r => ?_, fun _ r => entryAfter_none last r, fun v name sym taken => ?_⟩
    · exact absurd ⟨only.1.1, whole k only, j.text, only.1.2, similar_text⟩ ((no_candidate ok image).mp last k)
    · rw [last] at taken
      cases taken
  | some x =>
    obtain ⟨v, name, sym⟩ := x
    obtain ⟨k, candidate, place, value⟩ := last_candidate ok image last
    refine ⟨fun k' only r => ?_, fun never r => absurd (named k candidate) (never k), fun v' name' sym' taken => ?_⟩
    · rw [entryAfter_some last, value, only.2 k (named k candidate)]
    · rw [last] at taken
      cases taken
      rw [place]
      exact (named k candidate).2

/-- **Symbols are resolved by name** exactly when the last candidate has the name,
and the name of a symbol that alone has it starts a whole string. -/
theorem resolves_iff (ok : m.Succeeds) (image : Image m.file s l) : Resolves m mem s l j ↔
    (∀ k, LastCandidate m.file s l j k → Named m.file s l j k) ∧
      ∀ k, OnlyNamed m.file s l j k → Whole m.file s l k := by
  constructor
  · intro resolves
    exact ⟨fun k => resolves.candidate_named ok image, fun k => resolves.only_whole ok image⟩
  · rintro ⟨named, whole⟩
    exact resolves_of ok image named whole

end Resolution

/-! ## Two files -/

/-- A file with a symbol table and its string table in sections 1 and 2. -/
def symbolFile (symbols strings : List Byte) : List Byte :=
  elf32Ehdr 0 52 0 3 ++ elf32Shdr 0 0 0 0 ++ elf32Shdr SHT_SYMTAB 172 (BitVec.ofNat 32 symbols.length) 2 ++
    elf32Shdr SHT_STRTAB (BitVec.ofNat 32 (172 + symbols.length)) (BitVec.ofNat 32 strings.length) 0 ++
    symbols ++ strings

/-- One symbol, `Init`. -/
def initFile : List Byte := symbolFile (elf32Sym 0 0 ++ elf32Sym 1 1) (0 :: FunName.init.text ++ [0])

theorem initFile_image : Image initFile 1 2 where
  small := by decide +kernel
  header := by decide +kernel
  sections := by decide +kernel
  symtab := by decide +kernel
  only := by decide +kernel
  link := by decide +kernel
  strtab := by decide +kernel
  symbols := by decide +kernel
  strings := by decide +kernel

/-- The null symbol has no name: the one candidate is the symbol `Init`. -/
theorem initFile_candidate {k : Nat} (candidate : Candidate initFile 1 2 .init k) : k = 1 := by
  obtain ⟨less, -, name, named, similar⟩ := candidate
  have two : entryCount initFile 1 = 2 := by decide +kernel
  have empty : StringTable.NameAt 0 (sectionBytes initFile 2) (entryName initFile 1 0).toNat [] := by decide +kernel
  have other : ¬ Similar [] .init := by decide
  rcases Nat.lt_or_ge k 1 with null | only
  · obtain rfl := Nat.lt_one_iff.mp null
    rw [named.unique empty] at similar
    exact absurd similar other
  · omega

/-- `Init` is resolved, and every parse leaves its value 1 behind the stub as the entry point. -/
theorem resolves_init : Resolves (Media.whole initFile) zeroMemory 1 2 .init ∧
    ∀ r, entryAfter (Media.whole initFile) zeroMemory .init r = 0x20000021 := by
  have init : Named initFile 1 2 .init 1 := by decide +kernel
  have few : ∀ k < entryCount initFile 1, Named initFile 1 2 .init k → k = 1 := by decide +kernel
  have whole : Whole initFile 1 2 1 := Or.inr (by decide +kernel)
  have resolves : Resolves (Media.whole initFile) zeroMemory 1 2 .init := by
    refine (resolves_iff (Media.whole_succeeds initFile) initFile_image).mpr ⟨fun k last => ?_, fun k only => ?_⟩
    · rw [initFile_candidate last.1]
      exact init
    · rw [← only.2 1 init]
      exact whole
  refine ⟨resolves, fun r => ?_⟩
  rw [resolves.unique 1 ⟨init, fun k named => few k named.1 named⟩ r]
  decide +kernel

/-- One symbol, `EraseSectXX`. -/
def eraseFile : List Byte :=
  symbolFile (elf32Sym 0 0 ++ elf32Sym 1 0x101) (0 :: FunName.eraseSector.text.take 9 ++ [0x58, 0x58, 0])

theorem eraseFile_image : Image eraseFile 1 2 where
  small := by decide +kernel
  header := by decide +kernel
  sections := by decide +kernel
  symtab := by decide +kernel
  only := by decide +kernel
  link := by decide +kernel
  strtab := by decide +kernel
  symbols := by decide +kernel
  strings := by decide +kernel

/-- `EraseSectXX` is taken for `EraseSector`. -/
theorem resolves_eraseSectXX : (Media.whole eraseFile).Succeeds ∧ Image eraseFile 1 2 ∧
    ¬ Resolves (Media.whole eraseFile) zeroMemory 1 2 .eraseSector := by
  refine ⟨Media.whole_succeeds eraseFile, eraseFile_image, fun resolves => ?_⟩
  have never : ∀ k, ¬ Named eraseFile 1 2 .eraseSector k := by
    intro k named
    have few : ∀ k < entryCount eraseFile 1, ¬ Named eraseFile 1 2 .eraseSector k := by decide
    exact few k named.1 named
  have taken : entryAfter (Media.whole eraseFile) zeroMemory .eraseSector (flashAlgo, noInformation) ≠
      entryOf flashAlgo .eraseSector := by
    decide +kernel
  exact taken (resolves.unnamed never (flashAlgo, noInformation))

end OffLineProgrammer.Flm
