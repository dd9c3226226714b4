import Mathlib.Data.Nat.Basic

/-!
# Operations that may fail

An operation goes from a state to a state and ends with a value, with a failure,
or not within its fuel. A failure ends the sequence it is part of but keeps the
state reached so far. A run that ends well is taken apart by `bind_ok`, and an
invariant that every part keeps, failing or not, is kept by the whole (`Keeps`).
-/

namespace OffLineProgrammer.Lib
set_option autoImplicit false

/-- How an operation ends. -/
inductive Outcome (α : Type) where
  | ok (a : α)
  | fail
  | busy
  deriving DecidableEq

/-- Operations on a state of type `σ` with values of type `α`. -/
def Op (σ α : Type) : Type := σ → Outcome α × σ

namespace Op

variable {σ α β : Type}

def pure (a : α) : Op σ α := fun s => (.ok a, s)

def bind (x : Op σ α) (f : α → Op σ β) : Op σ β := fun s =>
  match x s with
  | (.ok a, t) => f a t
  | (.fail, t) => (.fail, t)
  | (.busy, t) => (.busy, t)

instance : Monad (Op σ) where
  pure := Op.pure
  bind := Op.bind

/-- The state. -/
def get : Op σ σ := fun s => (.ok s, s)

def modify (f : σ → σ) : Op σ Unit := fun s => (.ok (), f s)

def fail : Op σ α := fun s => (.fail, s)

/-- The fuel is used up. -/
def busy : Op σ α := fun s => (.busy, s)

/-- Go on with `next`, or return `e` where `x` fails. -/
def orReturn {ε : Type} (x : Op σ Unit) (e : ε) (next : Op σ ε) : Op σ ε := fun s =>
  match x s with
  | (.ok _, t) => next t
  | (.fail, t) => (.ok e, t)
  | (.busy, t) => (.busy, t)

/-- Go on with `y` where `x` fails. -/
def orElse (x y : Op σ α) : Op σ α := fun s =>
  match x s with
  | (.ok a, t) => (.ok a, t)
  | (.fail, t) => y t
  | (.busy, t) => (.busy, t)

/-- Run `x` and pay no attention to whether it fails. -/
def ignore (x : Op σ Unit) : Op σ Unit := orElse x (Op.pure ())

/-! ## Runs that end well -/

section Ok

variable {x : Op σ α} {f : α → Op σ β} {s u : σ} {a a' : α} {b : β}

theorem bind_ok : (x >>= f) s = (.ok b, u) ↔ ∃ a t, x s = (.ok a, t) ∧ f a t = (.ok b, u) := by
  change Op.bind x f s = _ ↔ _
  unfold Op.bind
  rcases x s with ⟨a | - | -, t⟩
  · constructor
    · intro run
      exact ⟨a, t, rfl, run⟩
    · rintro ⟨a', t', here, run⟩
      cases here
      exact run
  · simp
  · simp

theorem bind_of_ok {t : σ} (first : x s = (.ok a, t)) : (x >>= f) s = f a t := by
  change Op.bind x f s = _
  rw [Op.bind, first]

theorem bind_of_fail {t : σ} (first : x s = (.fail, t)) : (x >>= f) s = (.fail, t) := by
  change Op.bind x f s = _
  rw [Op.bind, first]

theorem bind_of_busy {t : σ} (first : x s = (.busy, t)) : (x >>= f) s = (.busy, t) := by
  change Op.bind x f s = _
  rw [Op.bind, first]

theorem bind_assoc {γ : Type} (x : Op σ α) (f : α → Op σ β) (g : β → Op σ γ) :
    ((x >>= f) >>= g) = (x >>= fun a => f a >>= g) := by
  funext s
  change Op.bind (Op.bind x f) g s = Op.bind x (fun a => Op.bind (f a) g) s
  unfold Op.bind
  rcases x s with ⟨a | - | -, t⟩ <;> rfl

theorem pure_bind (a : α) (f : α → Op σ β) : ((Pure.pure a : Op σ α) >>= f) = f a := rfl

theorem pure_ok : (Pure.pure a : Op σ α) s = (.ok a', u) ↔ a = a' ∧ s = u := by
  change (Outcome.ok a, s) = _ ↔ _
  simp only [Prod.mk.injEq, Outcome.ok.injEq]

theorem orReturn_ok {ε : Type} {x : Op σ Unit} {e r : ε} {next : Op σ ε} (other : r ≠ e)
    (run : orReturn x e next s = (.ok r, u)) : ∃ t, x s = (.ok (), t) ∧ next t = (.ok r, u) := by
  unfold orReturn at run
  rcases first : x s with ⟨⟨⟩ | - | -, t⟩
  · rw [first] at run
    exact ⟨t, rfl, run⟩
  · rw [first] at run
    cases run
    exact absurd rfl other
  · rw [first] at run
    cases run

end Ok

/-! ## Operations that always end well -/

/-- The operation ends with a value, from any state. -/
def Returns (x : Op σ α) : Prop := ∀ s, ∃ a t, x s = (.ok a, t)

section Returns

theorem Returns.pure (a : α) : Returns (Pure.pure a : Op σ α) := fun s => ⟨a, s, rfl⟩

theorem Returns.get : Returns (Op.get : Op σ σ) := fun s => ⟨s, s, rfl⟩

theorem Returns.modify (f : σ → σ) : Returns (Op.modify f) := fun s => ⟨(), f s, rfl⟩

theorem Returns.bind {x : Op σ α} {f : α → Op σ β} (first : Returns x) (next : ∀ a, Returns (f a)) :
    Returns (x >>= f) := by
  intro s
  obtain ⟨a, t, here⟩ := first s
  obtain ⟨b, u, rest⟩ := next a t
  exact ⟨b, u, (bind_of_ok here).trans rest⟩

theorem Returns.ite {c : Prop} [Decidable c] {x y : Op σ α} (yes : c → Returns x) (no : ¬ c → Returns y) :
    Returns (if c then x else y) := by
  split
  · rename_i here
    exact yes here
  · rename_i other
    exact no other

end Returns

/-! ## Invariants -/

/-- The operation keeps the invariant, however it ends. -/
def Keeps (I : σ → Prop) (x : Op σ α) : Prop := ∀ s, I s → I (x s).2

section Keeps

variable {I : σ → Prop}

theorem Keeps.pure (a : α) : Keeps I (Pure.pure a : Op σ α) := fun _ inv => inv

theorem Keeps.get : Keeps I (Op.get : Op σ σ) := fun _ inv => inv

theorem Keeps.fail : Keeps I (Op.fail : Op σ α) := fun _ inv => inv

theorem Keeps.busy : Keeps I (Op.busy : Op σ α) := fun _ inv => inv

theorem Keeps.bind {x : Op σ α} {f : α → Op σ β} (first : Keeps I x) (next : ∀ a, Keeps I (f a)) :
    Keeps I (x >>= f) := by
  intro s inv
  have here := first s inv
  change I (Op.bind x f s).2
  unfold Op.bind
  revert here
  rcases x s with ⟨a | - | -, t⟩
  · exact next a t
  · exact id
  · exact id

theorem Keeps.orElse {x y : Op σ α} (first : Keeps I x) (next : Keeps I y) : Keeps I (orElse x y) := by
  intro s inv
  have here := first s inv
  unfold Op.orElse
  revert here
  rcases x s with ⟨a | - | -, t⟩
  · exact id
  · exact next t
  · exact id

theorem Keeps.ignore {x : Op σ Unit} (kept : Keeps I x) : Keeps I (ignore x) := kept.orElse (Keeps.pure ())

theorem Keeps.ite {c : Prop} [Decidable c] {x y : Op σ α} (yes : Keeps I x) (no : Keeps I y) :
    Keeps I (if c then x else y) := by
  split
  · exact yes
  · exact no

end Keeps

/-! ## Costs -/

/-- The end is reached, and a measure of the state has grown by `n` at most. -/
structure Within (μ : σ → Nat) (n : Nat) (s : σ) (r : Outcome α × σ) : Prop where
  ends : r.1 ≠ .busy
  more : μ s ≤ μ r.2
  cost : μ r.2 ≤ μ s + n

/-- The operation costs `n` at most, from any state. -/
def Costs (μ : σ → Nat) (n : Nat) (x : Op σ α) : Prop := ∀ s, Within μ n s (x s)

section Costs

variable {μ : σ → Nat} {n m : Nat}

theorem Within.stay {s t : σ} {o : Outcome α} (ends : o ≠ .busy) (same : μ t = μ s) : Within μ n s (o, t) :=
  ⟨ends, Nat.le_of_eq same.symm, Nat.le_trans (Nat.le_of_eq same) (Nat.le_add_right _ _)⟩

theorem Within.mono {s : σ} {r : Outcome α × σ} (within : Within μ n s r) (le : n ≤ m) : Within μ m s r :=
  ⟨within.ends, within.more, Nat.le_trans within.cost (Nat.add_le_add_left le _)⟩

theorem Within.trans {s t : σ} {o : Outcome α} {r : Outcome β × σ} (first : Within μ n s (o, t))
    (next : Within μ m t r) : Within μ (n + m) s r := by
  refine ⟨next.ends, Nat.le_trans first.more next.more, ?_⟩
  rw [← Nat.add_assoc]
  exact Nat.le_trans next.cost (Nat.add_le_add_right first.cost m)

/-- Another end in the same state. -/
theorem Within.other {s t : σ} {o : Outcome α} {o' : Outcome β} (first : Within μ n s (o, t)) (ends : o' ≠ .busy) :
    Within μ (n + m) s (o', t) :=
  first.trans (Within.stay ends rfl)

theorem Costs.pure (a : α) : Costs μ n (Pure.pure a : Op σ α) := fun _ => Within.stay nofun rfl

theorem Costs.fail : Costs μ n (Op.fail : Op σ α) := fun _ => Within.stay nofun rfl

theorem Costs.get : Costs μ n (Op.get : Op σ σ) := fun _ => Within.stay nofun rfl

theorem Costs.modify {f : σ → σ} (same : ∀ s, μ (f s) = μ s) : Costs μ n (Op.modify f) :=
  fun s => Within.stay nofun (same s)

theorem Costs.mono {x : Op σ α} (costs : Costs μ n x) (le : n ≤ m) : Costs μ m x := fun s => (costs s).mono le

theorem Within.bind {x : Op σ α} {f : α → Op σ β} {s : σ} (first : Within μ n s (x s))
    (next : ∀ a t, x s = (.ok a, t) → Within μ m t (f a t)) : Within μ (n + m) s ((x >>= f) s) := by
  obtain ⟨o, t, run⟩ : ∃ o t, x s = (o, t) := ⟨_, _, rfl⟩
  rw [run] at first
  cases o with
  | ok a =>
    rw [bind_of_ok run]
    exact first.trans (next a t run)
  | fail =>
    rw [bind_of_fail run]
    exact first.other nofun
  | busy => exact absurd rfl first.ends

theorem Within.orReturn {ε : Type} {x : Op σ Unit} {e : ε} {next : Op σ ε} {s : σ} (first : Within μ n s (x s))
    (rest : Costs μ m next) : Within μ (n + m) s (orReturn x e next s) := by
  obtain ⟨o, t, run⟩ : ∃ o t, x s = (o, t) := ⟨_, _, rfl⟩
  rw [run] at first
  rw [Op.orReturn, run]
  cases o with
  | ok a => exact first.trans (rest t)
  | fail => exact first.other nofun
  | busy => exact absurd rfl first.ends

theorem Costs.bind {x : Op σ α} {f : α → Op σ β} (first : Costs μ n x) (next : ∀ a, Costs μ m (f a)) :
    Costs μ (n + m) (x >>= f) :=
  fun s => (first s).bind fun a t _ => next a t

/-- What is done with the value costs nothing. -/
theorem Costs.then_pure {x : Op σ α} {f : α → β} (first : Costs μ n x) : Costs μ n (x >>= fun a => Pure.pure (f a)) :=
  first.bind (m := 0) fun _ => Costs.pure _

theorem Costs.ite {c : Prop} [Decidable c] {x y : Op σ α} (yes : Costs μ n x) (no : Costs μ n y) :
    Costs μ n (if c then x else y) := by
  split
  · exact yes
  · exact no

theorem Costs.orElse {x y : Op σ α} (first : Costs μ n x) (next : Costs μ m y) : Costs μ (n + m) (orElse x y) := by
  intro s
  have here := first s
  obtain ⟨o, t, run⟩ : ∃ o t, x s = (o, t) := ⟨_, _, rfl⟩
  rw [run] at here
  rw [Op.orElse, run]
  cases o with
  | ok a => exact here.other nofun
  | fail => exact here.trans (next t)
  | busy => exact absurd rfl here.ends

theorem Costs.ignore {x : Op σ Unit} (costs : Costs μ n x) : Costs μ n (ignore x) :=
  costs.orElse (m := 0) (Costs.pure ())

theorem Costs.orReturn {ε : Type} {x : Op σ Unit} {e : ε} {next : Op σ ε} (first : Costs μ n x)
    (rest : Costs μ m next) : Costs μ (n + m) (orReturn x e next) :=
  fun s => (first s).orReturn rest

/-- A sequence that ends has got past its first part, at no more cost. -/
theorem bind_ends {x : Op σ α} {f : α → Op σ β} {s : σ} (next : ∀ a, Costs μ m (f a)) (ends : ((x >>= f) s).1 ≠ .busy) :
    (x s).1 ≠ .busy ∧ μ (x s).2 ≤ μ ((x >>= f) s).2 := by
  obtain ⟨o, t, run⟩ : ∃ o t, x s = (o, t) := ⟨_, _, rfl⟩
  rw [run]
  cases o with
  | ok a =>
    rw [bind_of_ok run]
    exact ⟨nofun, (next a t).more⟩
  | fail =>
    rw [bind_of_fail run]
    exact ⟨nofun, Nat.le_refl _⟩
  | busy =>
    rw [bind_of_busy run] at ends
    exact absurd rfl ends

theorem orReturn_ends {ε : Type} {x : Op σ Unit} {e : ε} {next : Op σ ε} {s : σ} (rest : Costs μ m next)
    (ends : (orReturn x e next s).1 ≠ .busy) : (x s).1 ≠ .busy ∧ μ (x s).2 ≤ μ (orReturn x e next s).2 := by
  unfold orReturn at ends ⊢
  obtain ⟨o, t, run⟩ : ∃ o t, x s = (o, t) := ⟨_, _, rfl⟩
  rw [run] at ends ⊢
  cases o with
  | ok a => exact ⟨nofun, (rest t).more⟩
  | fail => exact ⟨nofun, Nat.le_refl _⟩
  | busy => exact absurd rfl ends

end Costs

end Op

end OffLineProgrammer.Lib
