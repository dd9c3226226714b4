import Mathlib.Data.List.Basic

/-!
# Tables of terminated strings

A table holds strings one after another, each ended by the item `z`. A string may
be taken from any place (`NameAt`), so that strings share tails; a whole string
starts at the front of the table or behind a terminator. A walk over the table
meets the whole strings only (`start_eq_iff`).
-/

namespace OffLineProgrammer.Lib.StringTable
set_option autoImplicit false

variable {α : Type} {z : α} {t name name' : List α} {p i : Nat}

/-- The string from `p` on: its items, none of them `z`, and the terminator. -/
structure NameAt (z : α) (t : List α) (p : Nat) (name : List α) : Prop where
  items : (t.drop p).take name.length = name
  ends : t[p + name.length]? = some z
  clear : z ∉ name

/-- `p` is the front or stands behind a terminator. -/
def Whole (z : α) (t : List α) (p : Nat) : Prop := p = 0 ∨ t[p - 1]? = some z

theorem NameAt.getElem? (named : NameAt z t p name) {k : Nat} (inside : k < name.length) : t[p + k]? = name[k]? := by
  have item := congrArg (fun l => l[k]?) named.items
  simp only [List.getElem?_take, inside, if_true, List.getElem?_drop] at item
  exact item

/-- No item of a string is the terminator. -/
theorem NameAt.ne (named : NameAt z t p name) {k : Nat} (inside : k < name.length) : t[p + k]? ≠ some z := by
  rw [named.getElem? inside]
  intro same
  exact named.clear (List.mem_of_getElem? same)

/-- There is one string at a place. -/
theorem NameAt.unique (named : NameAt z t p name) (named' : NameAt z t p name') : name = name' := by
  have length : name.length = name'.length := by
    rcases Nat.lt_trichotomy name.length name'.length with less | same | more
    · exact absurd named.ends (named'.ne less)
    · exact same
    · exact absurd named'.ends (named.ne more)
  rw [← named.items, ← named'.items, length]

/-- From its place on the table holds the string, its terminator and the rest. -/
theorem NameAt.drop_eq (named : NameAt z t p name) : t.drop p = name ++ z :: t.drop (p + name.length + 1) := by
  have inside : name.length < (t.drop p).length := by
    have present := (List.getElem?_eq_some_iff.mp named.ends).1
    rw [List.length_drop]
    omega
  have terminator : (t.drop p)[name.length] = z := by
    rw [List.getElem_drop]
    exact (List.getElem?_eq_some_iff.mp named.ends).2
  have parts := List.take_append_drop name.length (t.drop p)
  rw [List.drop_eq_getElem_cons inside, named.items, terminator, List.drop_drop] at parts
  exact parts.symm

variable [DecidableEq α]

instance : Decidable (Whole z t p) := by unfold Whole; infer_instance

instance : Decidable (NameAt z t p name) :=
  decidable_of_iff ((t.drop p).take name.length = name ∧ t[p + name.length]? = some z ∧ z ∉ name)
    ⟨fun h => ⟨h.1, h.2.1, h.2.2⟩, fun h => ⟨h.items, h.ends, h.clear⟩⟩

/-- A string is what stands before the terminator. -/
theorem NameAt.takeWhile (named : NameAt z t p name) : (t.drop p).takeWhile (· ≠ z) = name := by
  have front : ∀ a ∈ name, decide (a ≠ z) = true := by
    intro a mem
    apply decide_eq_true
    intro same
    rw [same] at mem
    exact named.clear mem
  rw [named.drop_eq, List.takeWhile_append_of_pos front, List.takeWhile_cons_of_neg (by simp), List.append_nil]

/-- The start of the string that a walk over the table is in at `i`. -/
def start (z : α) (t : List α) : Nat → Nat
  | 0 => 0
  | i + 1 => if t[i]? = some z then i + 1 else start z t i

/-- A walk is in the string behind the last terminator. -/
theorem start_eq_iff : start z t i = p ↔ p ≤ i ∧ Whole z t p ∧ ∀ q, p ≤ q → q < i → t[q]? ≠ some z := by
  induction i with
  | zero =>
    rw [start]
    constructor
    · rintro rfl
      exact ⟨Nat.le_refl 0, Or.inl rfl, fun q _ below => by omega⟩
    · rintro ⟨le, -, -⟩
      omega
  | succ i ih =>
    rw [start]
    split
    · rename_i here
      constructor
      · rintro rfl
        exact ⟨Nat.le_refl _, Or.inr here, fun q above below => by omega⟩
      · rintro ⟨le, -, clear⟩
        rcases Nat.lt_or_ge i p with above | below
        · omega
        · exact absurd here (clear i below (by omega))
    · rename_i other
      rw [ih]
      constructor
      · rintro ⟨le, whole, clear⟩
        refine ⟨by omega, whole, fun q above below => ?_⟩
        rcases Nat.lt_succ_iff_lt_or_eq.mp below with earlier | rfl
        · exact clear q above earlier
        · exact other
      · rintro ⟨le, whole, clear⟩
        refine ⟨?_, whole, fun q above below => clear q above (by omega)⟩
        rcases Nat.lt_succ_iff_lt_or_eq.mp (Nat.lt_succ_of_le le) with earlier | rfl
        · omega
        · rcases whole with zero | behind
          · omega
          · exact absurd behind other

theorem start_le : start z t i ≤ i := (start_eq_iff.mp rfl).1

theorem whole_start : Whole z t (start z t i) := (start_eq_iff.mp rfl).2.1

/-- Behind a terminator a walk is in a later string. -/
theorem lt_start {k : Nat} (ends : t[k]? = some z) (before : k < i) : k < start z t i := by
  by_contra within
  exact (start_eq_iff.mp rfl).2.2 k (Nat.le_of_not_lt within) before ends

/-- The string that ends at `i`. -/
theorem nameAt_start (ends : t[i]? = some z) :
    NameAt z t (start z t i) ((t.drop (start z t i)).take (i - start z t i)) := by
  have le := @start_le _ z t i _
  have present := (List.getElem?_eq_some_iff.mp ends).1
  have length : ((t.drop (start z t i)).take (i - start z t i)).length = i - start z t i := by
    rw [List.length_take, List.length_drop]
    omega
  refine ⟨by rw [length], ?_, ?_⟩
  · rw [length, ← ends]
    congr 1
    omega
  · intro mem
    obtain ⟨k, bound, same⟩ := List.mem_iff_getElem.mp mem
    rw [length] at bound
    have clear := (@start_eq_iff _ z t (start z t i) i _).mp rfl
    apply clear.2.2 (start z t i + k) (by omega) (by omega)
    rw [List.getElem_take, List.getElem_drop] at same
    rw [List.getElem?_eq_getElem (by omega), same]

/-- A walk is in a whole string when it gets to its end. -/
theorem NameAt.start_eq (named : NameAt z t p name) (whole : Whole z t p) : start z t (p + name.length) = p := by
  refine start_eq_iff.mpr ⟨by omega, whole, fun q above below => ?_⟩
  have item := @NameAt.ne _ _ _ _ _ named (q - p) (by omega)
  rwa [Nat.add_sub_cancel' above] at item

end OffLineProgrammer.Lib.StringTable
