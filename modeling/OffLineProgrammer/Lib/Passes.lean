import Mathlib.Data.List.Basic

/-!
# Counted loops that collect items

`passes body s n` makes the passes `0` to `n - 1` of a `for` loop from the loop
variables `s` and collects the items each pass yields. Of the items of one kind
the last comes from the last pass that yields one (`passes_last`).
-/

namespace OffLineProgrammer.Lib.Passes
set_option autoImplicit false

section Index

/-- The last index below `n + 1` is `n` or one below. -/
theorem exists_last_succ {p q : Nat → Prop} {n : Nat} :
    (∃ i < n + 1, p i ∧ ∀ i', i < i' → i' < n + 1 → q i') ↔
      p n ∨ (q n ∧ ∃ i < n, p i ∧ ∀ i', i < i' → i' < n → q i') := by
  constructor
  · rintro ⟨i, less, here, later⟩
    rcases Nat.lt_succ_iff_lt_or_eq.mp less with earlier | rfl
    · exact Or.inr ⟨later n earlier (by omega), i, earlier, here, fun i' above below => later i' above (by omega)⟩
    · exact Or.inl here
  · rintro (here | ⟨last, i, less, here, later⟩)
    · exact ⟨n, by omega, here, fun i' above below => by omega⟩
    · refine ⟨i, by omega, here, fun i' above below => ?_⟩
      rcases Nat.lt_succ_iff_lt_or_eq.mp below with earlier | rfl
      · exact later i' above earlier
      · exact last

/-- The last index below `n` that has `p`. -/
def lastIndex (p : Nat → Prop) [DecidablePred p] : Nat → Option Nat
  | 0 => none
  | n + 1 => if p n then some n else lastIndex p n

variable {p : Nat → Prop} [DecidablePred p] {n i : Nat}

theorem lastIndex_eq_some : lastIndex p n = some i ↔ i < n ∧ p i ∧ ∀ i', i < i' → i' < n → ¬ p i' := by
  induction n with
  | zero => simp [lastIndex]
  | succ n ih =>
    rw [lastIndex]
    split
    · rename_i here
      constructor
      · intro same
        obtain rfl := Option.some.inj same
        exact ⟨by omega, here, fun i' above below => by omega⟩
      · rintro ⟨less, -, later⟩
        rcases Nat.lt_succ_iff_lt_or_eq.mp less with earlier | rfl
        · exact absurd here (later n earlier (by omega))
        · rfl
    · rename_i other
      rw [ih]
      constructor
      · rintro ⟨less, has, later⟩
        refine ⟨by omega, has, fun i' above below => ?_⟩
        rcases Nat.lt_succ_iff_lt_or_eq.mp below with earlier | rfl
        · exact later i' above earlier
        · exact other
      · rintro ⟨less, has, later⟩
        rcases Nat.lt_succ_iff_lt_or_eq.mp less with earlier | rfl
        · exact ⟨earlier, has, fun i' above below => later i' above (by omega)⟩
        · exact absurd has other

theorem lastIndex_eq_none : lastIndex p n = none ↔ ∀ i < n, ¬ p i := by
  induction n with
  | zero => simp [lastIndex]
  | succ n ih =>
    rw [lastIndex]
    split
    · rename_i here
      constructor
      · intro none
        cases none
      · exact fun never => absurd here (never n (by omega))
    · rename_i other
      rw [ih]
      constructor
      · intro never i less
        rcases Nat.lt_succ_iff_lt_or_eq.mp less with earlier | rfl
        · exact never i earlier
        · exact other
      · exact fun never i less => never i (by omega)

/-- The last index depends on what `p` is below the bound only. -/
theorem lastIndex_congr {q : Nat → Prop} [DecidablePred q] (same : ∀ i < n, p i ↔ q i) : lastIndex p n = lastIndex q n := by
  induction n with
  | zero => rfl
  | succ n ih =>
    rw [lastIndex, lastIndex, ih fun i less => same i (by omega)]
    simp only [same n (Nat.lt_succ_self n)]

end Index

section Collect

variable {σ α β : Type} (body : Nat → σ → σ × List α) (s : σ)

/-- The loop variables after `n` passes and the items so far. -/
def passes : Nat → σ × List α
  | 0 => (s, [])
  | n + 1 => ((body n (passes n).1).1, (passes n).2 ++ (body n (passes n).1).2)

/-- The items of pass `i`. -/
def yielded (i : Nat) : List α := (body i (passes body s i).1).2

/-- The last item of a kind. -/
def last (kind : α → Option β) (items : List α) : Option β := (items.filterMap kind).getLast?

variable {body s} {kind : α → Option β}

@[simp] theorem last_nil : last kind [] = none := rfl

theorem last_append (xs ys : List α) : last kind (xs ++ ys) = (last kind ys).or (last kind xs) := by
  simp only [last, List.filterMap_append, List.getLast?_append]

/-- Items of another kind do not count. -/
theorem last_append_other {xs ys : List α} (other : ∀ y ∈ ys, kind y = none) : last kind (xs ++ ys) = last kind xs := by
  have none : last kind ys = none := by
    rw [last, List.filterMap_eq_nil_iff.mpr other, List.getLast?_nil]
  rw [last_append, none, Option.none_or]

theorem last_append_front {xs ys : List α} (other : ∀ x ∈ xs, kind x = none) : last kind (xs ++ ys) = last kind ys := by
  have none : last kind xs = none := by
    rw [last, List.filterMap_eq_nil_iff.mpr other, List.getLast?_nil]
  rw [last_append, none, Option.or_none]

theorem last_eq_none {items : List α} : last kind items = none ↔ ∀ a ∈ items, kind a = none := by
  rw [last, List.getLast?_eq_none_iff, List.filterMap_eq_nil_iff]

/-- An item that is yielded comes from one of the passes. -/
theorem mem_passes {n : Nat} {a : α} : a ∈ (passes body s n).2 ↔ ∃ i < n, a ∈ yielded body s i := by
  induction n with
  | zero => simp [passes]
  | succ n ih =>
    rw [passes, List.mem_append, ih]
    constructor
    · rintro (⟨i, less, mem⟩ | mem)
      · exact ⟨i, by omega, mem⟩
      · exact ⟨n, by omega, mem⟩
    · rintro ⟨i, less, mem⟩
      rcases Nat.lt_succ_iff_lt_or_eq.mp less with earlier | rfl
      · exact Or.inl ⟨i, earlier, mem⟩
      · exact Or.inr mem

/-- The items come pass by pass, from the passes that yield any. -/
theorem passes_filter (p : Nat → Bool) {n : Nat} (quiet : ∀ i < n, p i = false → yielded body s i = []) :
    (passes body s n).2 = ((List.range n).filter p).flatMap (yielded body s) := by
  induction n with
  | zero => rfl
  | succ n ih =>
    have here : (passes body s (n + 1)).2 = (passes body s n).2 ++ yielded body s n := rfl
    rw [here, ih fun i less => quiet i (by omega), List.range_succ, List.filter_append, List.flatMap_append]
    cases taken : p n with
    | true => rw [List.filter_singleton, taken, cond_true, List.flatMap_singleton]
    | false => rw [List.filter_singleton, taken, quiet n (Nat.lt_succ_self n) taken, cond_false, List.flatMap_nil]

theorem passes_last_none {n : Nat} :
    last kind (passes body s n).2 = none ↔ ∀ i < n, last kind (yielded body s i) = none := by
  simp only [last_eq_none, mem_passes]
  constructor
  · intro none i less a mem
    exact none a ⟨i, less, mem⟩
  · rintro none a ⟨i, less, mem⟩
    exact none i less a mem

/-- **The last item of a kind** is that of the last pass that yields one. -/
theorem passes_last {n : Nat} {x : β} :
    last kind (passes body s n).2 = some x ↔
      ∃ i < n, last kind (yielded body s i) = some x ∧ ∀ i', i < i' → i' < n → last kind (yielded body s i') = none := by
  induction n with
  | zero => simp [passes]
  | succ n ih =>
    have split : last kind (passes body s (n + 1)).2 =
        (last kind (yielded body s n)).or (last kind (passes body s n).2) := last_append ..
    rw [split, exists_last_succ, ← ih, Option.or_eq_some_iff]

/-- Where pass `i` yields an item of a kind if it has `p`, the last comes from the last such pass. -/
theorem passes_lastIndex {p : Nat → Prop} [DecidablePred p] {value : Nat → β}
    (item : ∀ i, last kind (yielded body s i) = if p i then some (value i) else none) (n : Nat) :
    last kind (passes body s n).2 = (lastIndex p n).map value := by
  induction n with
  | zero => rfl
  | succ n ih =>
    have split : last kind (passes body s (n + 1)).2 =
        (last kind (yielded body s n)).or (last kind (passes body s n).2) := last_append ..
    rw [split, item, ih, lastIndex]
    split <;> rfl

end Collect

/-- A fold over the items of all passes, from what it holds before each of them. -/
theorem foldl_passes {σ τ α : Type} {body : Nat → σ → σ × List α} {s : σ} {apply : τ → α → τ} (before : Nat → τ)
    {n : Nat} (step : ∀ i < n, (yielded body s i).foldl apply (before i) = before (i + 1)) :
    (passes body s n).2.foldl apply (before 0) = before n := by
  induction n with
  | zero => rfl
  | succ n ih =>
    have front := ih fun i less => step i (by omega)
    rw [passes, List.foldl_append, front]
    exact step n (Nat.lt_succ_self n)

section Fold

variable {τ α β γ : Type} {apply : τ → α → τ} (field : τ → γ) (kind : α → Option β) (value : β → γ)

/-- A field that only the items of a kind set holds the value of the last of them. -/
theorem foldl_last (set : ∀ t a x, kind a = some x → field (apply t a) = value x)
    (keep : ∀ t a, kind a = none → field (apply t a) = field t) (items : List α) :
    ∀ t : τ, field (items.foldl apply t) = ((last kind items).map value).getD (field t) := by
  induction items with
  | nil => intro t; rfl
  | cons a items ih =>
    intro t
    have front := @last_append _ _ kind [a] items
    rw [List.singleton_append] at front
    rw [List.foldl_cons, ih, front]
    cases rest : last kind items with
    | some x => rfl
    | none =>
      simp only [Option.map_none, Option.getD_none, Option.none_or]
      cases here : kind a with
      | none =>
        rw [keep t a here]
        simp [last, here]
      | some x =>
        rw [set t a x here]
        simp [last, here]

end Fold

end OffLineProgrammer.Lib.Passes
