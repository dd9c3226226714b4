import Mathlib.Data.List.Nodup
import Mathlib.Logic.Function.Basic

/-!
# Linked lists

The nodes of a list are found by following `next` from its start. They are determined
(`Chain.unique`) and never repeat (`Chain.nodup`), and the list survives every change of
`next` outside of them (`Chain.congr`). What the usual operations do to the list is stated
for one changed link (`Chain.push`, `Chain.append`, `Chain.rest`).
-/

namespace OffLineProgrammer.Lib.Linked
set_option autoImplicit false

variable {α : Type}

/-- The nodes met from a start on, up to the end of the list. -/
inductive Chain (next : α → Option α) : Option α → List α → Prop where
  | done : Chain next none []
  | link {a : α} {as : List α} (rest : Chain next (next a) as) : Chain next (some a) (a :: as)

section Nodes

variable {next next' : α → Option α} {start : Option α} {a l : α} {as bs : List α}

theorem Chain.unique (first : Chain next start as) (second : Chain next start bs) : as = bs := by
  induction first generalizing bs with
  | done =>
    cases second
    rfl
  | link _ ih =>
    cases second with
    | link rest => rw [ih rest]

theorem Chain.head (chain : Chain next start as) : start = as.head? := by
  cases chain <;> rfl

theorem Chain.empty (chain : Chain next start as) : start = none ↔ as = [] := by
  cases chain <;> simp

/-- The list from one of its nodes on. -/
theorem Chain.from (chain : Chain next start (as ++ a :: bs)) : Chain next (some a) (a :: bs) := by
  induction as generalizing start with
  | nil =>
    have head : start = some a := chain.head
    exact head ▸ chain
  | cons b as ih =>
    cases chain with
    | link rest => exact ih rest

/-- **No node repeats**: from the same node on there is only one list. -/
theorem Chain.nodup (chain : Chain next start as) : as.Nodup := by
  induction chain with
  | done => exact List.nodup_nil
  | @link a as rest ih =>
    refine List.nodup_cons.mpr ⟨fun mem => ?_, ih⟩
    obtain ⟨xs, ys, split⟩ := List.append_of_mem mem
    have again : Chain next (some a) (a :: ys) := Chain.from (split ▸ rest)
    have same := again.unique (.link rest)
    have length := congrArg List.length (List.cons.inj same).2
    rw [split, List.length_append, List.length_cons] at length
    omega

theorem Chain.congr (chain : Chain next start as) (same : ∀ b ∈ as, next' b = next b) : Chain next' start as := by
  induction chain with
  | done => exact .done
  | link rest ih =>
    refine .link ?_
    rw [same _ List.mem_cons_self]
    exact ih fun b mem => same b (List.mem_cons_of_mem _ mem)

/-- Without its first node. -/
theorem Chain.rest (chain : Chain next (some a) as) : ∃ bs, as = a :: bs ∧ Chain next (next a) bs := by
  cases chain with
  | link rest => exact ⟨_, rfl, rest⟩

/-- The node after another. -/
theorem Chain.succ (chain : Chain next start as) {i : Nat} (here : as[i]? = some a) : as[i + 1]? = next a := by
  induction chain generalizing i with
  | done => cases here
  | @link b bs rest ih =>
    cases i with
    | zero =>
      obtain rfl : b = a := Option.some.inj here
      rw [List.getElem?_cons_succ, rest.head, List.head?_eq_getElem?]
    | succ i => exact ih here

/-- The last node ends the list. -/
theorem Chain.last (chain : Chain next start as) (last : as.getLast? = some l) : next l = none := by
  induction chain with
  | done => cases last
  | @link a as rest ih =>
    rcases as with _ | ⟨b, bs⟩
    · obtain rfl : a = l := Option.some.inj last
      exact rest.head
    · rw [List.getLast?_cons_cons] at last
      exact ih last

end Nodes

/-! ## Changes of one link -/

section Changes

variable [DecidableEq α] {next : α → Option α} {start : Option α} {a l : α} {as : List α}

/-- A link of another node. -/
theorem Chain.other (chain : Chain next start as) (fresh : a ∉ as) (v : Option α) : Chain (Function.update next a v) start as :=
  chain.congr fun _ mem => Function.update_of_ne (ne_of_mem_of_not_mem mem fresh) ..

/-- **A new first node**. -/
theorem Chain.push (chain : Chain next start as) (fresh : a ∉ as) : Chain (Function.update next a start) (some a) (a :: as) := by
  refine .link ?_
  rw [Function.update_self]
  exact chain.other fresh start

/-- **A new last node**. -/
theorem Chain.append (chain : Chain next start as) (last : as.getLast? = some l) (fresh : a ∉ as) (ends : next a = none) :
    Chain (Function.update next l (some a)) start (as ++ [a]) := by
  induction chain with
  | done => cases last
  | @link b bs rest ih =>
    rcases bs with _ | ⟨c, cs⟩
    · obtain rfl : b = l := Option.some.inj last
      refine .link ?_
      rw [Function.update_self]
      refine .link ?_
      rw [Function.update_of_ne (ne_of_mem_of_not_mem List.mem_cons_self fresh).symm, ends]
      exact .done
    · rw [List.getLast?_cons_cons] at last
      have inside : l ∈ c :: cs := List.mem_of_getLast? last
      have apart : b ≠ l := fun here => (List.nodup_cons.mp (Chain.link rest).nodup).1 (here ▸ inside)
      refine .link ?_
      rw [Function.update_of_ne apart]
      exact ih last fun mem => fresh (List.mem_cons_of_mem _ mem)

end Changes

end OffLineProgrammer.Lib.Linked
