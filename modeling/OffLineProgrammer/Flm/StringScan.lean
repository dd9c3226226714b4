import OffLineProgrammer.Flm.Spec

/-!
# The scan of the string table

The loop of `FLM_Sections_Header` steps `i` by one byte and `Str` by one string.
At each zero byte it calls `strlen( Str )` and `strncmp( .., Str, .. )`, which know
nothing of the buffer's end. Before pass `i`, `Str` is behind the last zero byte
below `i` (`stringVars_eq`); so the string it is at ends at `i`, inside the
buffer, and the strings the loop stops at are the terminated strings of the table,
each once and in order. What `FLM_Sections_Header` assigns is what its calls of
`FLM_Sections_Value` do for them, with their offsets (`string_scan`).
-/

namespace OffLineProgrammer.Flm
set_option autoImplicit false
open OffLineProgrammer.Lib

/-! ## Calls that stay in a buffer -/

/-- `strlen` of a string in a buffer that ends with `s`: `none` reads on behind it. -/
def strlenWithin : List Byte → Option Nat
  | [] => none
  | b :: s => if b = 0 then some 0 else (strlenWithin s).map (· + 1)

/-- `strncmp( s, t, n ) == 0` in buffers that end with `s` and `t`. -/
def strncmpWithin : List Byte → List Byte → Nat → Option Bool
  | _, _, 0 => some true
  | a :: s, b :: t, n + 1 => if a ≠ b then some false else if a = 0 then some true else strncmpWithin s t n
  | _, _, _ + 1 => none

theorem strlenWithin_terminated (name rest : List Byte) (clear : 0 ∉ name) :
    strlenWithin (name ++ 0 :: rest) = some name.length := by
  induction name with
  | nil => rfl
  | cons b name ih =>
    rw [List.mem_cons, not_or] at clear
    rw [List.cons_append, strlenWithin, if_neg (Ne.symm clear.1), ih clear.2]
    rfl

/-- Of two terminated strings no byte behind a terminator is read. -/
theorem strncmpWithin_terminated (text name rest rest' : List Byte) (n : Nat) :
    strncmpWithin (text ++ 0 :: rest') (name ++ 0 :: rest) n = some (strncmpEq text (name ++ 0 :: rest) n) := by
  induction n generalizing text name with
  | zero => simp only [strncmpWithin, strncmpEq]
  | succ n ih =>
    cases text with
    | nil =>
      cases name with
      | nil => rfl
      | cons b name =>
        change (if 0 ≠ b then some false else some true) = some (if 0 ≠ b then false else true)
        split <;> rfl
    | cons a text =>
      cases name with
      | nil =>
        change (if a ≠ 0 then some false else if a = 0 then some true else strncmpWithin _ _ n) =
          some (if a ≠ 0 then false else if a = 0 then true else strncmpEq _ _ n)
        split
        · rfl
        · next zero =>
          rw [if_pos (not_not.mp zero), if_pos (not_not.mp zero)]
      | cons b name =>
        change (if a ≠ b then some false else if a = 0 then some true else strncmpWithin _ _ n) =
          some (if a ≠ b then false else if a = 0 then true else strncmpEq _ _ n)
        split
        · rfl
        · split
          · rfl
          · exact ih text name

/-! ## The strings the loop stops at -/

/-- A zero byte of the table: where `Str` points, the index `i`, and the offset
`i - strlen( Str )`. -/
structure Visit where
  str : Nat
  stop : Nat
  offset : Nat

section Scan

variable (m : Media) (mem : Memory) (v : Tables) (t : Cells)

/-- What pass `i` of the loop works on if it finds a zero byte. -/
def visitAt (i : Nat) : Visit :=
  let str := (Passes.passes (stringPass m mem v t) 0 i).1
  ⟨str, i, i - strlen ((t.drop str).map Cell.val)⟩

/-- The passes that find a zero byte, in order. -/
def visits : List Visit := ((List.range t.length).filter fun i => byteAt t i = 0).map (visitAt m mem v t)

/-- What is to be done for the string from `p` on that ends at `stop`: if it is one of
the names, `FLM_Sections_Value` is called with the offset `p`. -/
def callFor (p stop : Nat) : List Assign :=
  (strFunNameTable.find? (matchesName ((bytes t).drop p))).elim [] fun j =>
    flmSectionsValue m mem v stop j (BitVec.ofNat 32 p) ((t.drop p).take (stop + 1 - p))

/-- The passes over the table `t` are the scan `vs`. -/
structure Scans (vs : List Visit) : Prop where
  /-- The calls of `strlen` and `strncmp` read no byte behind the buffer. -/
  reads : ∀ w ∈ vs, strlenWithin ((bytes t).drop w.str) = some (strlen ((bytes t).drop w.str)) ∧
    ∀ j : FunName, strncmpWithin (j.text ++ [0]) ((bytes t).drop w.str) sizeofName =
      some (strncmpEq j.text ((bytes t).drop w.str) sizeofName)
  /-- The strings stopped at are the terminated strings of the table. -/
  strings : ∀ p stop, (∃ w ∈ vs, w.str = p ∧ w.stop = stop) ↔
    ∃ name, StringTable.Whole 0 (bytes t) p ∧ StringTable.NameAt 0 (bytes t) p name ∧ stop = p + name.length
  /-- Each comes once, and behind the one before. -/
  order : vs.Pairwise fun a b => a.stop < b.str
  /-- The offset passed on is that of the first character. -/
  offsets : ∀ w ∈ vs, w.offset = w.str
  /-- The pass that stops at a string has `Str` at it, calls with its offset, and leaves
  `Str` behind it. -/
  calls : ∀ w ∈ vs, (Passes.passes (stringPass m mem v t) 0 w.stop).1 = w.str ∧
    stringPass m mem v t w.stop w.str = (w.stop + 1, callFor m mem v t w.str w.stop)
  /-- The other passes do nothing. -/
  quiet : ∀ i < t.length, (∀ w ∈ vs, w.stop ≠ i) → ∀ str, stringPass m mem v t i str = (str, [])

variable {m mem v t}

theorem mem_visits {w : Visit} : w ∈ visits m mem v t ↔ ∃ i < t.length, byteAt t i = 0 ∧ visitAt m mem v t i = w := by
  simp only [visits, List.mem_map, List.mem_filter, List.mem_range, decide_eq_true_eq, and_assoc]

theorem visitAt_eq {i : Nat} (inside : i < t.length) (ends : byteAt t i = 0) :
    visitAt m mem v t i = ⟨strVar t i, i, strVar t i⟩ := by
  have le := strVar_le t i
  have length : strlen ((t.drop (strVar t i)).map Cell.val) = i - strVar t i := strlen_strAt t inside ends
  simp only [visitAt, stringVars_eq m mem v t i (by omega), length, Visit.mk.injEq, true_and]
  omega

/-- The string of a visit. -/
theorem visit_named {w : Visit} (mem_ : w ∈ visits m mem v t) :
    ∃ name, StringTable.Whole 0 (bytes t) w.str ∧ StringTable.NameAt 0 (bytes t) w.str name ∧
      w.stop = w.str + name.length ∧ w.offset = w.str := by
  obtain ⟨i, inside, ends, rfl⟩ := mem_visits.mp mem_
  have le := strVar_le t i
  have length := length_nameBytes t inside
  have width : i = strVar t i + (nameBytes t i).length := by omega
  rw [visitAt_eq inside ends]
  exact ⟨nameBytes t i, StringTable.whole_start, nameBytes_at t inside ends, width, rfl⟩

/-- The pass that stops at a string. -/
theorem stringPass_visit {w : Visit} (mem_ : w ∈ visits m mem v t) :
    (Passes.passes (stringPass m mem v t) 0 w.stop).1 = w.str ∧
      stringPass m mem v t w.stop w.str = (w.stop + 1, callFor m mem v t w.str w.stop) := by
  obtain ⟨i, inside, ends, rfl⟩ := mem_visits.mp mem_
  have le := strVar_le t i
  have length : strlen ((t.drop (strVar t i)).map Cell.val) = i - strVar t i := strlen_strAt t inside ends
  have next : strVar t i + (i - strVar t i) = i := by omega
  have start : i - (i - strVar t i) = strVar t i := by omega
  have last : i - strVar t i + 1 = i + 1 - strVar t i := by omega
  rw [List.map_drop] at length
  rw [visitAt_eq inside ends]
  refine ⟨stringVars_eq m mem v t i (by omega), ?_⟩
  simp only [stringPass, if_pos ends, length, next, start, last, callFor, bytes, List.map_drop]
  cases strFunNameTable.find? (matchesName ((t.map Cell.val).drop (strVar t i))) with
  | none => rfl
  | some j => rfl

/-- A pass that finds no zero byte. -/
theorem stringPass_quiet {i str : Nat} (other : byteAt t i ≠ 0) : stringPass m mem v t i str = (str, []) := if_neg other

theorem yielded_visit {i : Nat} (inside : i < t.length) (ends : byteAt t i = 0) :
    Passes.yielded (stringPass m mem v t) 0 i =
      callFor m mem v t (visitAt m mem v t i).str (visitAt m mem v t i).stop := by
  have visited : visitAt m mem v t i ∈ visits m mem v t := mem_visits.mpr ⟨i, inside, ends, rfl⟩
  obtain ⟨state, pass⟩ := stringPass_visit visited
  have stop : (visitAt m mem v t i).stop = i := rfl
  rw [stop] at state pass ⊢
  rw [Passes.yielded, state, pass]

/-- The assignments are those of the strings stopped at, in order. -/
theorem passes_visits :
    (Passes.passes (stringPass m mem v t) 0 t.length).2 =
      (visits m mem v t).flatMap fun w => callFor m mem v t w.str w.stop := by
  have quiet : ∀ i < t.length, decide (byteAt t i = 0) = false → Passes.yielded (stringPass m mem v t) 0 i = [] := by
    intro i _ other
    rw [Passes.yielded, stringPass_quiet (of_decide_eq_false other)]
  rw [Passes.passes_filter _ quiet, visits, List.flatMap_map]
  apply List.flatMap_congr
  intro i mem_
  obtain ⟨inside, ends⟩ := List.mem_filter.mp mem_
  exact yielded_visit (List.mem_range.mp inside) (of_decide_eq_true ends)

/-- A terminated string is stopped at. -/
theorem visit_of_named {p : Nat} {name : List Byte} (whole : StringTable.Whole 0 (bytes t) p)
    (named : StringTable.NameAt 0 (bytes t) p name) : ∃ w ∈ visits m mem v t, w.str = p ∧ w.stop = p + name.length := by
  have inside : p + name.length < t.length := by
    rw [← length_bytes t]
    exact (List.getElem?_eq_some_iff.mp named.ends).1
  have ends := (byteAt_zero t inside).mpr named.ends
  refine ⟨_, mem_visits.mpr ⟨p + name.length, inside, ends, rfl⟩, ?_⟩
  rw [visitAt_eq inside ends]
  exact ⟨named.start_eq whole, rfl⟩

theorem visits_order : (visits m mem v t).Pairwise fun a b => a.stop < b.str := by
  rw [visits, List.pairwise_map]
  have rising : ((List.range t.length).filter fun i => byteAt t i = 0).Pairwise (· < ·) := List.pairwise_lt_range.filter _
  apply rising.imp_of_mem
  intro i k first second before
  obtain ⟨inside, ends⟩ := List.mem_filter.mp first
  obtain ⟨inside', ends'⟩ := List.mem_filter.mp second
  rw [List.mem_range] at inside inside'
  rw [decide_eq_true_eq] at ends ends'
  rw [visitAt_eq inside ends, visitAt_eq inside' ends']
  apply StringTable.lt_start _ before
  exact (byteAt_zero t inside).mp ends

/-- The loop over any string table. -/
theorem visits_scan (m : Media) (mem : Memory) (v : Tables) (t : Cells) : Scans m mem v t (visits m mem v t) where
  reads w mem_ := by
    obtain ⟨name, _, named, _⟩ := visit_named mem_
    have length : strlen ((bytes t).drop w.str) = name.length := by rw [strlen, named.takeWhile]
    rw [length, named.drop_eq]
    exact ⟨strlenWithin_terminated name _ named.clear, fun j => strncmpWithin_terminated j.text name _ [] sizeofName⟩
  strings p stop := by
    constructor
    · rintro ⟨w, mem_, rfl, rfl⟩
      obtain ⟨name, whole, named, stop, _⟩ := visit_named mem_
      exact ⟨name, whole, named, stop⟩
    · rintro ⟨name, whole, named, rfl⟩
      exact visit_of_named whole named
  order := visits_order
  offsets w mem_ := by
    obtain ⟨_, _, _, _, offset⟩ := visit_named mem_
    exact offset
  calls _ mem_ := stringPass_visit mem_
  quiet i inside other str := by
    apply stringPass_quiet
    intro ends
    exact other _ (mem_visits.mpr ⟨i, inside, ends, rfl⟩) rfl

/-- What `FLM_Sections_Header` scans holds `sh_size` bytes, and it assigns what its calls do
for the strings it stops at. -/
theorem sectionsHeader_scan (m : Media) (mem : Memory) (ehdr : Cells) :
    let v := tables m mem ehdr
    let t := stringTable m mem v
    t.length = shSize v.shdr ∧
      flmSectionsHeader m mem ehdr = (visits m mem v t).flatMap fun w => callFor m mem v t w.str w.stop := by
  have length := length_stringTable m mem (tables m mem ehdr)
  refine ⟨length, ?_⟩
  rw [flmSectionsHeader, ← length]
  exact passes_visits

/-- An offset in the table fits into the argument that takes it. -/
theorem visit_offset (ehdr : Cells) {w : Visit}
    (mem_ : w ∈ visits m mem (tables m mem ehdr) (stringTable m mem (tables m mem ehdr))) :
    (BitVec.ofNat 32 w.str).toNat = w.str := by
  obtain ⟨i, inside, ends, rfl⟩ := mem_visits.mp mem_
  have le := strVar_le (stringTable m mem (tables m mem ehdr)) i
  have small : shSize (tables m mem ehdr).shdr < 2 ^ 32 := BitVec.isLt _
  rw [length_stringTable] at inside
  rw [visitAt_eq (by rwa [length_stringTable]) ends, BitVec.toNat_ofNat]
  change strVar (stringTable m mem (tables m mem ehdr)) i % 2 ^ 32 = strVar (stringTable m mem (tables m mem ehdr)) i
  omega

end Scan

/-- **The scan** of any string table: its terminated strings, each once and in order, and no
read behind the table. What `FLM_Sections_Header` assigns is what its calls do for these
strings, and the offset it passes on is that of the first character. -/
theorem string_scan (m : Media) (mem : Memory) : (∀ v t, Scans m mem v t (visits m mem v t)) ∧ ∀ ehdr,
    let v := tables m mem ehdr
    let t := stringTable m mem v
    t.length = shSize v.shdr ∧
      flmSectionsHeader m mem ehdr = ((visits m mem v t).flatMap fun w => callFor m mem v t w.str w.stop) ∧
      ∀ w ∈ visits m mem v t, (BitVec.ofNat 32 w.str).toNat = w.str := by
  refine ⟨visits_scan m mem, fun ehdr => ?_⟩
  obtain ⟨length, assigns⟩ := sectionsHeader_scan m mem ehdr
  exact ⟨length, assigns, fun w mem_ => visit_offset ehdr mem_⟩

end OffLineProgrammer.Flm
