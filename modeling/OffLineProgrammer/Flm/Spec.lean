import OffLineProgrammer.Flm.Prase
import OffLineProgrammer.Lib.StringTable
import Mathlib.Data.Nat.Find

/-!
# What the parser assigns

Closed forms: the variables of each loop as functions of the file and of the
reads, the assignment that each pass makes, and the fields of the target as the
last assignments leave them.
-/

namespace OffLineProgrammer.Flm
set_option autoImplicit false
open OffLineProgrammer.Lib OffLineProgrammer.Target

/-! ## Fields and last assignments -/

namespace Assign

def algo? : Assign → Option (Cells × Cells)
  | .algo phdr blob => some (phdr, blob)
  | _ => none

def dev? : Assign → Option (Cells × Cells)
  | .dev phdr flmDev => some (phdr, flmDev)
  | _ => none

def entry? (j : FunName) : Assign → Option (Tables × Cells × Cells)
  | .entry j' v name sym => if j' = j then some (v, name, sym) else none
  | _ => none

end Assign

section Fields

variable (as : List Assign) (r : ProgramTarget × ChipInformation)

theorem algoSize_setEntry (t : ProgramTarget) (v : Word) (j : FunName) : (setEntry t v j).algoSize = t.algoSize := by
  cases j <;> rfl

theorem entryOf_setEntry (t : ProgramTarget) (v : Word) (j j' : FunName) :
    entryOf (setEntry t v j') j = if j' = j then v else entryOf t j := by
  cases j <;> cases j' <;> rfl

/-- `algo_size` as the last program header of the algorithm leaves it. -/
theorem algoSize_last : (as.foldl Assign.apply r).1.algoSize =
    ((Passes.last Assign.algo? as).map fun x => pFilesz x.1 + 32).getD r.1.algoSize := by
  refine Passes.foldl_last (fun r : ProgramTarget × ChipInformation => r.1.algoSize) Assign.algo?
    (fun x => pFilesz x.1 + 32) ?_ ?_ as r
  · intro s a x same
    cases a with
    | algo phdr blob =>
      obtain rfl := Option.some.inj same
      rfl
    | dev phdr flmDev => cases same
    | entry j v name sym => cases same
  · intro s a same
    cases a with
    | algo phdr blob => cases same
    | dev phdr flmDev => rfl
    | entry j v name sym => exact algoSize_setEntry ..

theorem algoBlob_setEntry (t : ProgramTarget) (v : Word) (j : FunName) : (setEntry t v j).algoBlob = t.algoBlob := by
  cases j <;> rfl

/-- `algo_blob` as the last program header of the algorithm leaves it. -/
theorem algoBlob_last : (as.foldl Assign.apply r).1.algoBlob =
    ((Passes.last Assign.algo? as).map fun x i => (irqHalt ++ x.2.map Cell.val).getD i 0).getD r.1.algoBlob := by
  refine Passes.foldl_last (fun r : ProgramTarget × ChipInformation => r.1.algoBlob) Assign.algo?
    (fun x i => (irqHalt ++ x.2.map Cell.val).getD i 0) ?_ ?_ as r
  · intro s a x same
    cases a with
    | algo phdr blob =>
      obtain rfl := Option.some.inj same
      rfl
    | dev phdr flmDev => cases same
    | entry j v name sym => cases same
  · intro s a same
    cases a with
    | algo phdr blob => cases same
    | dev phdr flmDev => rfl
    | entry j v name sym => exact algoBlob_setEntry ..

/-- The page size as the last device descriptor leaves it. -/
theorem pageSize_last : (as.foldl Assign.apply r).2.pageSize =
    ((Passes.last Assign.dev? as).map fun x => szPage x.2).getD r.2.pageSize := by
  refine Passes.foldl_last (fun r : ProgramTarget × ChipInformation => r.2.pageSize) Assign.dev?
    (fun x => szPage x.2) ?_ ?_ as r
  · intro s a x same
    cases a with
    | algo phdr blob => cases same
    | dev phdr flmDev =>
      obtain rfl := Option.some.inj same
      rfl
    | entry j v name sym => cases same
  · intro s a same
    cases a with
    | algo phdr blob => rfl
    | dev phdr flmDev => cases same
    | entry j v name sym => rfl

/-- An entry point as the last symbol taken for it leaves it. -/
theorem entryOf_last (j : FunName) : entryOf (as.foldl Assign.apply r).1 j =
    ((Passes.last (Assign.entry? j) as).map fun x => stValue x.2.2 + ARM_DRIFT_RAM).getD (entryOf r.1 j) := by
  refine Passes.foldl_last (fun r : ProgramTarget × ChipInformation => entryOf r.1 j) (Assign.entry? j)
    (fun x => stValue x.2.2 + ARM_DRIFT_RAM) ?_ ?_ as r
  · intro s a x same
    cases a with
    | algo phdr blob => cases same
    | dev phdr flmDev => cases same
    | entry j' v name sym =>
      simp only [Assign.entry?] at same
      split at same
      · rename_i here
        obtain rfl := Option.some.inj same
        show entryOf (setEntry s.1 (stValue sym + ARM_DRIFT_RAM) j') j = _
        rw [entryOf_setEntry, if_pos here]
      · cases same
  · intro s a same
    cases a with
    | algo phdr blob => cases j <;> rfl
    | dev phdr flmDev => rfl
    | entry j' v name sym =>
      simp only [Assign.entry?] at same
      split at same
      · cases same
      · rename_i other
        show entryOf (setEntry s.1 (stValue sym + ARM_DRIFT_RAM) j') j = _
        rw [entryOf_setEntry, if_neg other]

end Fields

/-! ## Program headers -/

section Headers

variable (m : Media) (mem : Memory) (ehdr : Cells)

/-- `Phdr` before pass `i`. -/
def phdrVar : Nat → Cells
  | 0 => mem.fresh .phdr sizeofPhdr
  | i + 1 => (m.readDataFromFile (.phdr i) (ePhoff ehdr + BitVec.ofNat 32 (i * sizeofPhdr)) (phdrVar i)).2

/-- `Phdr` as pass `i` reads it. -/
def phdrAt (i : Nat) : Cells := phdrVar m mem ehdr (i + 1)

/-- `FLM_DEV` before pass `i`. -/
def flmDevVar : Nat → Cells
  | 0 => mem.fresh .flmDev sizeofFlmDev
  | i + 1 =>
    if IsDevice (phdrAt m mem ehdr i) then
      (m.readDataFromFile (.device i) (pOffset (phdrAt m mem ehdr i)) (flmDevVar i)).2
    else flmDevVar i

/-- The segment as pass `i` reads it. -/
def segmentAt (i : Nat) : Cells :=
  (m.readDataFromFile (.segment i) (pOffset (phdrAt m mem ehdr i))
    (mem.fresh (.algoBlob i) (pFilesz (phdrAt m mem ehdr i)).toNat)).2

/-- The assignment of pass `i`. -/
def headerAssigns (i : Nat) : List Assign :=
  if IsAlgo (phdrAt m mem ehdr i) then [.algo (phdrAt m mem ehdr i) (segmentAt m mem ehdr i)]
  else if IsDevice (phdrAt m mem ehdr i) then [.dev (phdrAt m mem ehdr i) (flmDevVar m mem ehdr (i + 1))]
  else []

theorem length_phdrVar (i : Nat) : (phdrVar m mem ehdr i).length = sizeofPhdr := by
  induction i with
  | zero => exact Memory.length_fresh ..
  | succ i ih => rw [phdrVar, length_readDataFromFile, ih]

theorem length_flmDevVar (i : Nat) : (flmDevVar m mem ehdr i).length = sizeofFlmDev := by
  induction i with
  | zero => exact Memory.length_fresh ..
  | succ i ih =>
    rw [flmDevVar]
    split
    · rw [length_readDataFromFile, ih]
    · exact ih

/-- The loop variables and the assignments of a pass. -/
theorem programHeaderPass_eq (i : Nat) :
    programHeaderPass m mem ehdr i ⟨phdrVar m mem ehdr i, flmDevVar m mem ehdr i⟩ =
      (⟨phdrVar m mem ehdr (i + 1), flmDevVar m mem ehdr (i + 1)⟩, headerAssigns m mem ehdr i) := by
  have phdr : (m.readDataFromFile (.phdr i) (ePhoff ehdr + BitVec.ofNat 32 (i * sizeofPhdr)) (phdrVar m mem ehdr i)).2 =
      phdrAt m mem ehdr i := rfl
  have next : phdrVar m mem ehdr (i + 1) = phdrAt m mem ehdr i := rfl
  rw [programHeaderPass, headerAssigns, next, flmDevVar]
  simp only [phdr]
  by_cases algo : IsAlgo (phdrAt m mem ehdr i)
  · have other : ¬ IsDevice (phdrAt m mem ehdr i) := fun device => device.1 algo
    simp only [if_pos algo, if_neg other, segmentAt]
  · simp only [if_neg algo]
    split <;> rfl

theorem headerVars_eq (n : Nat) :
    (Passes.passes (programHeaderPass m mem ehdr)
      ⟨mem.fresh .phdr sizeofPhdr, mem.fresh .flmDev sizeofFlmDev⟩ n).1 =
      ⟨phdrVar m mem ehdr n, flmDevVar m mem ehdr n⟩ := by
  induction n with
  | zero => rfl
  | succ n ih => rw [Passes.passes, ih, programHeaderPass_eq]

theorem header_yielded (i : Nat) :
    Passes.yielded (programHeaderPass m mem ehdr)
      ⟨mem.fresh .phdr sizeofPhdr, mem.fresh .flmDev sizeofFlmDev⟩ i = headerAssigns m mem ehdr i := by
  rw [Passes.yielded, headerVars_eq, programHeaderPass_eq]

/-- The last program header of a kind. -/
def lastHeader (kind : Cells → Prop) [DecidablePred kind] : Option Nat :=
  Passes.lastIndex (fun i => kind (phdrAt m mem ehdr i)) (ePhnum ehdr)

/-- **The last program header of the algorithm** decides `algo_blob` and `algo_size`. -/
theorem programHeader_algo : Passes.last Assign.algo? (flmProgramHeader m mem ehdr) =
    (lastHeader m mem ehdr IsAlgo).map fun a => (phdrAt m mem ehdr a, segmentAt m mem ehdr a) := by
  apply Passes.passes_lastIndex
  intro i
  rw [header_yielded, headerAssigns]
  split
  · rfl
  · split <;> rfl

/-- **The last device header** decides the page size. -/
theorem programHeader_dev : Passes.last Assign.dev? (flmProgramHeader m mem ehdr) =
    (lastHeader m mem ehdr IsDevice).map fun b => (phdrAt m mem ehdr b, flmDevVar m mem ehdr (b + 1)) := by
  apply Passes.passes_lastIndex
  intro i
  rw [header_yielded, headerAssigns]
  split
  · rename_i algo
    have other : ¬ IsDevice (phdrAt m mem ehdr i) := fun device => device.1 algo
    rw [if_neg other]
    rfl
  · split <;> rfl

end Headers

/-! ## Section headers -/

section Sections

variable (m : Media) (mem : Memory) (ehdr : Cells)

/-- `Shdr` after `r` reads: each pass reads its header, and over it the one its
link names if it is a symbol table. -/
def shdrVar : Nat → Cells
  | 0 => mem.fresh .shdr sizeofShdr
  | r + 1 =>
    if r % 2 = 0 then
      (m.readDataFromFile (.shdr (r / 2)) (eShoff ehdr + BitVec.ofNat 32 (r / 2 * sizeofShdr)) (shdrVar r)).2
    else if shType (shdrVar r) = SHT_SYMTAB then
      (m.readDataFromFile (.link (r / 2)) (eShoff ehdr + shLink (shdrVar r) * BitVec.ofNat 32 sizeofShdr) (shdrVar r)).2
    else shdrVar r

/-- `Shdr` as pass `i` reads it. -/
def shdrAt (i : Nat) : Cells := shdrVar m mem ehdr (2 * i + 1)

/-- `Shdr` at the end of pass `i`. -/
def linkAt (i : Nat) : Cells := shdrVar m mem ehdr (2 * i + 2)

/-- Pass `i` ends the search. -/
def Found (i : Nat) : Prop := shType (shdrAt m mem ehdr i) = SHT_SYMTAB ∧ shType (linkAt m mem ehdr i) = SHT_STRTAB

/-- The search ends at pass `i`. -/
def FirstFound (i : Nat) : Prop :=
  i < eShnum ehdr ∧ Found m mem ehdr i ∧ ∀ i' < i, ¬ Found m mem ehdr i'

theorem length_shdrVar (r : Nat) : (shdrVar m mem ehdr r).length = sizeofShdr := by
  induction r with
  | zero => exact Memory.length_fresh ..
  | succ r ih =>
    rw [shdrVar]
    split
    · rw [length_readDataFromFile, ih]
    · split
      · rw [length_readDataFromFile, ih]
      · exact ih

theorem shdrAt_eq (i : Nat) : shdrAt m mem ehdr i =
    (m.readDataFromFile (.shdr i) (eShoff ehdr + BitVec.ofNat 32 (i * sizeofShdr)) (shdrVar m mem ehdr (2 * i))).2 := by
  have even : 2 * i % 2 = 0 := by omega
  have half : 2 * i / 2 = i := by omega
  rw [shdrAt, shdrVar, if_pos even, half]

theorem linkAt_eq (i : Nat) : linkAt m mem ehdr i =
    if shType (shdrAt m mem ehdr i) = SHT_SYMTAB then
      (m.readDataFromFile (.link i) (eShoff ehdr + shLink (shdrAt m mem ehdr i) * BitVec.ofNat 32 sizeofShdr)
        (shdrAt m mem ehdr i)).2
    else shdrAt m mem ehdr i := by
  have odd : ¬ (2 * i + 1) % 2 = 0 := by omega
  have half : (2 * i + 1) / 2 = i := by omega
  rw [linkAt, shdrVar, if_neg odd, half]
  rfl

/-- The variables after a pass. -/
theorem tablesPass_eq (i : Nat) (v : Tables) (shdr : v.shdr = shdrVar m mem ehdr (2 * i)) :
    tablesPass m ehdr i v = ⟨linkAt m mem ehdr i,
      if shType (shdrAt m mem ehdr i) = SHT_SYMTAB then shdrAt m mem ehdr i else v.shdrSym,
      decide (shType (shdrAt m mem ehdr i) = SHT_SYMTAB ∧ shType (linkAt m mem ehdr i) = SHT_STRTAB)⟩ := by
  rw [tablesPass, shdr]
  simp only [← shdrAt_eq, linkAt_eq]
  split
  · rename_i symtab
    simp only [symtab, true_and]
  · rename_i other
    simp only [other, false_and, decide_false]

theorem findTables_eq (left : Nat) : ∀ (i : Nat) (v : Tables), v.shdr = shdrVar m mem ehdr (2 * i) → v.found = false →
    (∀ s, i ≤ s → s < i + left → Found m mem ehdr s → (∀ i', i ≤ i' → i' < s → ¬ Found m mem ehdr i') →
      findTables m ehdr i left v = ⟨linkAt m mem ehdr s, shdrAt m mem ehdr s, true⟩) ∧
    ((∀ s, i ≤ s → s < i + left → ¬ Found m mem ehdr s) → (findTables m ehdr i left v).found = false) := by
  induction left with
  | zero =>
    intro i v _ none
    exact ⟨fun s above below => by omega, fun _ => none⟩
  | succ left ih =>
    intro i v shdr _
    have pass := tablesPass_eq m mem ehdr i v shdr
    rw [findTables, pass]
    by_cases here : Found m mem ehdr i
    · have here' : shType (shdrAt m mem ehdr i) = SHT_SYMTAB ∧ shType (linkAt m mem ehdr i) = SHT_STRTAB := here
      simp only [here', and_self, decide_true, if_true]
      refine ⟨fun s above below found first => ?_, fun never => absurd here (never i (by omega) (by omega))⟩
      rcases Nat.lt_or_ge i s with later | same
      · exact absurd here (first i (by omega) later)
      · obtain rfl : s = i := by omega
        rfl
    · have here' : ¬ (shType (shdrAt m mem ehdr i) = SHT_SYMTAB ∧ shType (linkAt m mem ehdr i) = SHT_STRTAB) := here
      simp only [here', decide_false, Bool.false_eq_true, if_false]
      obtain ⟨found, never⟩ := ih (i + 1) ⟨linkAt m mem ehdr i,
        if shType (shdrAt m mem ehdr i) = SHT_SYMTAB then shdrAt m mem ehdr i else v.shdrSym, false⟩ rfl rfl
      refine ⟨fun s above below at_ first => ?_, fun none => never fun s above below => none s (by omega) (by omega)⟩
      have other : s ≠ i := by
        rintro rfl
        exact here at_
      exact found s (by omega) (by omega) at_ fun i' above' below' => first i' (by omega) below'

/-- **The tables** are those of the first symbol table that has a string table. -/
theorem tables_found {s : Nat} (first : FirstFound m mem ehdr s) :
    tables m mem ehdr = ⟨linkAt m mem ehdr s, shdrAt m mem ehdr s, true⟩ := by
  obtain ⟨inside, found, before⟩ := first
  exact (findTables_eq m mem ehdr (eShnum ehdr) 0 _ rfl rfl).1 s (Nat.zero_le s) (by omega) found
    fun i' _ below => before i' below

theorem tables_none (never : ∀ s, ¬ FirstFound m mem ehdr s) : (tables m mem ehdr).found = false := by
  apply (findTables_eq m mem ehdr (eShnum ehdr) 0 _ rfl rfl).2
  intro s _ inside found
  classical
  have some_ : ∃ f, f < eShnum ehdr ∧ Found m mem ehdr f := ⟨s, by omega, found⟩
  have at_ := Nat.find_spec some_
  refine never (Nat.find some_) ⟨at_.1, at_.2, fun i' below other => ?_⟩
  exact Nat.find_min some_ below ⟨by omega, other⟩

end Sections

/-! ## Strings and symbols -/

section Strings

variable (strs : Cells)

/-- The bytes of the string table. -/
def bytes : List Byte := strs.map Cell.val

/-- `Str` before pass `i`: behind the last zero byte. -/
def strVar (i : Nat) : Nat := StringTable.start 0 (bytes strs) i

/-- The bytes from `Str` on, at pass `i`. -/
def strAt (i : Nat) : List Byte := (strs.drop (strVar strs i)).map Cell.val

theorem strVar_le (i : Nat) : strVar strs i ≤ i := StringTable.start_le

theorem strAt_eq (i : Nat) : strAt strs i = (bytes strs).drop (strVar strs i) := List.map_drop

@[simp] theorem length_bytes : (bytes strs).length = strs.length := List.length_map _

theorem byteAt_zero {i : Nat} (inside : i < strs.length) : byteAt strs i = 0 ↔ (bytes strs)[i]? = some 0 := by
  rw [bytes, List.getElem?_map, List.getElem?_eq_getElem inside, byteAt, List.getD_eq_getElem _ _ inside,
    Option.map_some, Option.some.injEq]

/-- The string that ends at `i`. -/
def nameBytes (i : Nat) : List Byte := ((bytes strs).drop (strVar strs i)).take (i - strVar strs i)

theorem nameBytes_at {i : Nat} (inside : i < strs.length) (ends : byteAt strs i = 0) :
    StringTable.NameAt 0 (bytes strs) (strVar strs i) (nameBytes strs i) :=
  StringTable.nameAt_start ((byteAt_zero strs inside).mp ends)

theorem length_nameBytes {i : Nat} (inside : i < strs.length) : (nameBytes strs i).length = i - strVar strs i := by
  rw [nameBytes, List.length_take, List.length_drop, length_bytes]
  omega

/-- The length of a string that ends at `i`. -/
theorem strlen_strAt {i : Nat} (inside : i < strs.length) (ends : byteAt strs i = 0) :
    strlen (strAt strs i) = i - strVar strs i := by
  rw [strlen, strAt_eq, (nameBytes_at strs inside ends).takeWhile, length_nameBytes strs inside]

end Strings

section Symbols

variable (m : Media) (mem : Memory) (v : Tables) (strs : Cells)

/-- `Sym` before pass `k` of the call for the string that ends at `i`. -/
def symVar (i : Nat) : Nat → Cells
  | 0 => mem.fresh (.sym i) sizeofSym
  | k + 1 => (m.readDataFromFile (.sym i k) (shOffset v.shdrSym + BitVec.ofNat 32 (k * sizeofSym)) (symVar i k)).2

/-- `Sym` as pass `k` reads it. -/
def symAt (i k : Nat) : Cells := symVar m mem v i (k + 1)

/-- The number of symbols. -/
def symbolCount : Nat := shSize v.shdrSym / sizeofSym

/-- The string that ends at `i` passes the test for `j`. -/
def EndsName (i : Nat) (j : FunName) : Prop :=
  byteAt strs i = 0 ∧ strFunNameTable.find? (matchesName (strAt strs i)) = some j

/-- Symbol `k` is taken for `j` at the string that ends at `i`. -/
def Taken (j : FunName) (i k : Nat) : Prop :=
  EndsName strs i j ∧ BitVec.ofNat 32 (strVar strs i) = stName (symAt m mem v i k)

/-- The cells of the string that ends at `i`, with its zero byte. -/
def nameCells (i : Nat) : Cells := (strs.drop (strVar strs i)).take (i - strVar strs i + 1)

theorem length_symVar (i k : Nat) : (symVar m mem v i k).length = sizeofSym := by
  induction k with
  | zero => exact Memory.length_fresh ..
  | succ k ih => rw [symVar, length_readDataFromFile, ih]

theorem symVar_eq (i : Nat) (j : FunName) (len : Word) (name : Cells) (n : Nat) :
    (Passes.passes (sectionsValuePass m v i j len name) (mem.fresh (.sym i) sizeofSym) n).1 = symVar m mem v i n := by
  induction n with
  | zero => rfl
  | succ n ih => rw [Passes.passes, ih, sectionsValuePass, symVar]

/-- The last symbol taken for one string. -/
theorem sectionsValue_last {i : Nat} {j j' : FunName} {len : Word} {name : Cells} :
    Passes.last (Assign.entry? j) (flmSectionsValue m mem v i j' len name) =
      (Passes.lastIndex (fun k => j' = j ∧ len = stName (symAt m mem v i k)) (symbolCount v)).map fun k =>
        (v, name, symAt m mem v i k) := by
  apply Passes.passes_lastIndex
  intro k
  rw [Passes.yielded, symVar_eq, sectionsValuePass]
  change Passes.last (Assign.entry? j) (if len = stName (symAt m mem v i k) then [_] else []) = _
  by_cases here : len = stName (symAt m mem v i k)
  · rw [if_pos here]
    by_cases same : j' = j
    · rw [if_pos ⟨same, here⟩, Passes.last, List.filterMap_cons, Assign.entry?, if_pos same]
      rfl
    · rw [if_neg fun both => same both.1, Passes.last, List.filterMap_cons, Assign.entry?, if_neg same]
      rfl
  · rw [if_neg here, if_neg fun both => here both.2]
    rfl

/-- The assignments for the string that ends at `i`. -/
def stringAssigns (i : Nat) : List Assign :=
  if byteAt strs i = 0 then
    match strFunNameTable.find? (matchesName (strAt strs i)) with
    | some j => flmSectionsValue m mem v i j (BitVec.ofNat 32 (strVar strs i)) (nameCells strs i)
    | none => []
  else []

theorem stringPass_eq {i : Nat} (inside : i < strs.length) :
    stringPass m mem v strs i (strVar strs i) = (strVar strs (i + 1), stringAssigns m mem v strs i) := by
  have zero := byteAt_zero strs inside
  have next : strVar strs (i + 1) = if (bytes strs)[i]? = some 0 then i + 1 else strVar strs i := rfl
  rw [stringPass, stringAssigns, next]
  split
  · rename_i ends
    have le := strVar_le strs i
    have length : strlen ((strs.drop (strVar strs i)).map Cell.val) = i - strVar strs i := strlen_strAt strs inside ends
    have next : strVar strs i + (i - strVar strs i) = i := by omega
    have start : i - (i - strVar strs i) = strVar strs i := by omega
    rw [if_pos (zero.mp ends)]
    simp only [length, next, start]
    rfl
  · rename_i other
    rw [if_neg fun same => other (zero.mpr same)]

theorem stringVars_eq (n : Nat) (fits : n ≤ strs.length) :
    (Passes.passes (stringPass m mem v strs) 0 n).1 = strVar strs n := by
  induction n with
  | zero => rfl
  | succ n ih => rw [Passes.passes, ih (by omega), stringPass_eq m mem v strs (by omega)]

theorem string_yielded {i : Nat} (inside : i < strs.length) :
    Passes.yielded (stringPass m mem v strs) 0 i = stringAssigns m mem v strs i := by
  rw [Passes.yielded, stringVars_eq m mem v strs i (by omega), stringPass_eq m mem v strs inside]

instance taken_decidable (j : FunName) (i k : Nat) : Decidable (Taken m mem v strs j i k) :=
  inferInstanceAs (Decidable ((_ ∧ _) ∧ _))

/-- The last item for a name at the string that ends at `i` is that of the last symbol taken. -/
theorem stringAssigns_lastIndex {i : Nat} {j : FunName} :
    Passes.last (Assign.entry? j) (stringAssigns m mem v strs i) =
      (Passes.lastIndex (Taken m mem v strs j i) (symbolCount v)).map fun k => (v, nameCells strs i, symAt m mem v i k) := by
  have never : (∀ k, ¬ Taken m mem v strs j i k) →
      (none : Option (Tables × Cells × Cells)) = (Passes.lastIndex (Taken m mem v strs j i) (symbolCount v)).map fun k =>
        (v, nameCells strs i, symAt m mem v i k) := by
    intro never
    rw [Passes.lastIndex_eq_none.mpr fun k _ => never k, Option.map_none]
  unfold stringAssigns
  split
  · rename_i ends
    cases name : strFunNameTable.find? (matchesName (strAt strs i)) with
    | none => exact never fun k taken => Option.some_ne_none j (taken.1.2.symm.trans name)
    | some j' =>
      have same : ∀ k < symbolCount v, (j' = j ∧ BitVec.ofNat 32 (strVar strs i) = stName (symAt m mem v i k)) ↔
          Taken m mem v strs j i k := by
        intro k _
        rw [Taken, EndsName, name, Option.some.injEq, and_iff_right ends]
      simp only [sectionsValue_last]
      exact congrArg _ (Passes.lastIndex_congr same)
  · rename_i other
    exact never fun k taken => other taken.1.1

/-- The last symbol taken for the string that ends at `i`. -/
theorem stringAssigns_last {i : Nat} {j : FunName} {x : Tables × Cells × Cells} :
    Passes.last (Assign.entry? j) (stringAssigns m mem v strs i) = some x ↔
      ∃ k < symbolCount v, Taken m mem v strs j i k ∧ x = (v, nameCells strs i, symAt m mem v i k) ∧
        ∀ k', k < k' → k' < symbolCount v → ¬ Taken m mem v strs j i k' := by
  rw [stringAssigns_lastIndex]
  simp only [Option.map_eq_some_iff, Passes.lastIndex_eq_some]
  constructor
  · rintro ⟨k, ⟨less, taken, later⟩, rfl⟩
    exact ⟨k, less, taken, rfl, later⟩
  · rintro ⟨k, less, taken, rfl, later⟩
    exact ⟨k, ⟨less, taken, later⟩, rfl⟩

theorem stringAssigns_none {i : Nat} {j : FunName} :
    Passes.last (Assign.entry? j) (stringAssigns m mem v strs i) = none ↔
      ∀ k < symbolCount v, ¬ Taken m mem v strs j i k := by
  rw [stringAssigns_lastIndex, Option.map_eq_none_iff, Passes.lastIndex_eq_none]

end Symbols

section Sections

variable (m : Media) (mem : Memory) (ehdr : Cells)

theorem length_stringTable (v : Tables) : (stringTable m mem v).length = shSize v.shdr := by
  rw [stringTable, length_readDataFromFile, Memory.length_fresh]

/-- **The last symbol taken for a name**, in the order of the strings and then of
the symbols, decides the entry point. -/
theorem sectionsHeader_entry {j : FunName} {x : Tables × Cells × Cells} (v : Tables) (found : tables m mem ehdr = v) :
    Passes.last (Assign.entry? j) (flmSectionsHeader m mem ehdr) = some x ↔
      ∃ i < shSize v.shdr, (∃ k < symbolCount v, Taken m mem v (stringTable m mem v) j i k ∧
        x = (v, nameCells (stringTable m mem v) i, symAt m mem v i k) ∧
        ∀ k', k < k' → k' < symbolCount v → ¬ Taken m mem v (stringTable m mem v) j i k') ∧
        ∀ i', i < i' → i' < shSize v.shdr → ∀ k < symbolCount v, ¬ Taken m mem v (stringTable m mem v) j i' k := by
  subst found
  have length := length_stringTable m mem (tables m mem ehdr)
  rw [flmSectionsHeader, Passes.passes_last]
  apply exists_congr
  intro i
  apply and_congr_right
  intro inside
  rw [string_yielded m mem _ _ (by rw [length]; exact inside), stringAssigns_last]
  apply and_congr_right
  intro _
  apply forall₃_congr
  intro i' _ inside'
  rw [string_yielded m mem _ _ (by rw [length]; exact inside'), stringAssigns_none]

theorem sectionsHeader_none {j : FunName} (v : Tables) (found : tables m mem ehdr = v) :
    Passes.last (Assign.entry? j) (flmSectionsHeader m mem ehdr) = none ↔
      ∀ i < shSize v.shdr, ∀ k < symbolCount v, ¬ Taken m mem v (stringTable m mem v) j i k := by
  subst found
  have length := length_stringTable m mem (tables m mem ehdr)
  rw [flmSectionsHeader, Passes.passes_last_none]
  apply forall₂_congr
  intro i inside
  rw [string_yielded m mem _ _ (by rw [length]; exact inside), stringAssigns_none]

/-! ## The whole file -/

/-- The program headers assign no entry point. -/
theorem programHeader_other {a : Assign} (mem_ : a ∈ flmProgramHeader m mem ehdr) (j : FunName) :
    Assign.entry? j a = none := by
  rw [flmProgramHeader, Passes.mem_passes] at mem_
  obtain ⟨i, -, here⟩ := mem_
  rw [header_yielded, headerAssigns] at here
  split at here
  · obtain rfl := List.mem_singleton.mp here
    rfl
  · split at here
    · obtain rfl := List.mem_singleton.mp here
      rfl
    · cases here

/-- The section headers assign nothing but entry points. -/
theorem sectionsHeader_other {a : Assign} (mem_ : a ∈ flmSectionsHeader m mem ehdr) :
    Assign.algo? a = none ∧ Assign.dev? a = none := by
  rw [flmSectionsHeader, Passes.mem_passes] at mem_
  obtain ⟨i, -, here⟩ := mem_
  rw [Passes.yielded, stringPass] at here
  split at here
  · dsimp only at here
    split at here
    · rw [flmSectionsValue, Passes.mem_passes] at here
      obtain ⟨k, -, item⟩ := here
      rw [Passes.yielded, sectionsValuePass] at item
      dsimp only at item
      split at item
      · obtain rfl := List.mem_singleton.mp item
        exact ⟨rfl, rfl⟩
      · cases item
    · cases here
  · cases here

theorem assignments_algo : Passes.last Assign.algo? (assignments m mem) =
    Passes.last Assign.algo? (flmProgramHeader m mem (fileHeader m mem)) :=
  Passes.last_append_other fun _ mem_ => (sectionsHeader_other m mem _ mem_).1

theorem assignments_dev : Passes.last Assign.dev? (assignments m mem) =
    Passes.last Assign.dev? (flmProgramHeader m mem (fileHeader m mem)) :=
  Passes.last_append_other fun _ mem_ => (sectionsHeader_other m mem _ mem_).2

theorem assignments_entry (j : FunName) : Passes.last (Assign.entry? j) (assignments m mem) =
    Passes.last (Assign.entry? j) (flmSectionsHeader m mem (fileHeader m mem)) :=
  Passes.last_append_front fun _ mem_ => programHeader_other m mem _ mem_ j

end Sections

end OffLineProgrammer.Flm
