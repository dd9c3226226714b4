import Mathlib.Data.List.Basic
import Mathlib.Data.List.GetD
import Mathlib.Data.List.Induction

/-!
# Block stores

A store gives every block number its content. A write replaces the blocks of its
extent, and after a list of writes a block holds what the last write that covers
it put there, else what the store held at first (`after_eq_current`).
-/

namespace OffLineProgrammer.Lib.BlockStore
set_option autoImplicit false

section Store

variable {β : Type}

/-- The blocks from `first` on are replaced. -/
structure Write (β : Type) where
  first : Nat
  blocks : List β

def Write.Covers (w : Write β) (s : Nat) : Prop := w.first ≤ s ∧ s < w.first + w.blocks.length

instance (w : Write β) (s : Nat) : Decidable (w.Covers s) := by unfold Write.Covers; infer_instance

def Write.apply (w : Write β) (store : Nat → β) : Nat → β :=
  fun s => if w.first ≤ s then w.blocks.getD (s - w.first) (store s) else store s

/-- The store after the writes, in order. -/
def after (ws : List (Write β)) (store : Nat → β) : Nat → β := ws.foldl (fun store w => w.apply store) store

@[simp] theorem after_nil (store : Nat → β) : after [] store = store := rfl

@[simp] theorem after_cons (w : Write β) (ws : List (Write β)) (store : Nat → β) :
    after (w :: ws) store = after ws (w.apply store) := rfl

theorem after_append (ws vs : List (Write β)) (store : Nat → β) : after (ws ++ vs) store = after vs (after ws store) :=
  List.foldl_append

theorem Write.apply_covered {w : Write β} {store : Nat → β} {s : Nat} (covers : w.Covers s) :
    w.blocks[s - w.first]? = some (w.apply store s) := by
  have inside : s - w.first < w.blocks.length := by
    obtain ⟨above, below⟩ := covers
    omega
  simp only [Write.apply, if_pos covers.1, List.getD_eq_getElem _ _ inside, List.getElem?_eq_getElem inside]

theorem Write.apply_uncovered {w : Write β} {store : Nat → β} {s : Nat} (covers : ¬ w.Covers s) :
    w.apply store s = store s := by
  unfold Write.apply
  split
  · rename_i above
    exact List.getD_eq_default _ _ (by unfold Write.Covers at covers; omega)
  · rfl

/-- A block that no write covers keeps its content. -/
theorem after_uncovered {s : Nat} : ∀ {ws : List (Write β)} {store : Nat → β}, (∀ w ∈ ws, ¬ w.Covers s) →
    after ws store s = store s := by
  intro ws
  induction ws with
  | nil => intro store _; rfl
  | cons w ws ih =>
    intro store none
    have rest := @ih (w.apply store) (fun v mem => none v (List.mem_cons_of_mem _ mem))
    exact rest.trans (Write.apply_uncovered (none w List.mem_cons_self))

/-- What a block holds: the last write that covers it, else the first content. -/
def current (ws : List (Write β)) (store : Nat → β) (s : Nat) : β :=
  match (ws.filter fun w => decide (w.Covers s)).getLast? with
  | some w => w.blocks.getD (s - w.first) (store s)
  | none => store s

/-- **The last write wins.** -/
theorem after_eq_current (ws : List (Write β)) (store : Nat → β) (s : Nat) : after ws store s = current ws store s := by
  induction ws using List.reverseRec with
  | nil => rfl
  | append_singleton ws w ih =>
    rw [after_append, after_cons, after_nil, current, List.filter_append]
    by_cases covers : w.Covers s
    · have block := @Write.apply_covered β w (after ws store) s covers
      rw [List.filter_cons_of_pos (by simpa using covers), List.filter_nil, List.getLast?_concat]
      simp only [List.getD_eq_getElem?_getD, block, Option.getD_some]
    · rw [List.filter_cons_of_neg (by simpa using covers), List.filter_nil, List.append_nil,
        Write.apply_uncovered covers]
      exact ih

end Store

end OffLineProgrammer.Lib.BlockStore
