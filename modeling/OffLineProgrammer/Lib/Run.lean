import Mathlib.Data.List.Basic

/-!
# Runs of an event-driven machine

A machine is a partial step function on events. `run` feeds it a list of events,
`Meets C` says that each step taken starts from a state and an event that meet
`C`, and `Throughout P` says that every step succeeds and that `P` holds in each
state visited, the last one included. An invariant of the steps is an invariant
of the runs (`run_inv`), and a script is composed from its parts
(`throughout_append`, `throughout_indexed`). `Inevitably P` says that whatever
events happen a state with `P` is reached; a rank that falls with every event
gives it (`inevitably_of_rank`).
-/

namespace OffLineProgrammer.Lib.Run
set_option autoImplicit false

section Machine

variable {σ ε : Type} (step : ε → σ → Option σ)

def run : List ε → σ → Option σ
  | [], s => some s
  | e :: es, s => (step e s).bind (run es)

/-- Each step of the run starts from a state and an event that meet `C`. -/
def Meets (C : σ → ε → Prop) : List ε → σ → Prop
  | [], _ => True
  | e :: es, s => C s e ∧ ∀ s', step e s = some s' → Meets C es s'

/-- Every step of the run succeeds, `P` holds in each state but the last and `Q`
in the last. -/
inductive Throughout (P Q : σ → Prop) : List ε → σ → Prop where
  | done {s : σ} (last : Q s) : Throughout P Q [] s
  | next {e : ε} {es : List ε} {s s' : σ} (here : P s) (go : step e s = some s') (rest : Throughout P Q es s') :
      Throughout P Q (e :: es) s

/-- The states a run can reach. -/
def Reachable (start s : σ) : Prop := ∃ es, run step es start = some s

/-- Until a state has `P` some event can happen, and each that can leads on to `P`. -/
inductive Inevitably (P : σ → Prop) : σ → Prop where
  | here {s : σ} (at_ : P s) : Inevitably P s
  | next {s : σ} (can : ∃ e t, step e s = some t) (all : ∀ e t, step e s = some t → Inevitably P t) : Inevitably P s

variable {step}

@[simp] theorem run_nil (s : σ) : run step [] s = some s := rfl

theorem run_cons {e : ε} {es : List ε} {s s' : σ} (h : step e s = some s') :
    run step (e :: es) s = run step es s' := by
  simp only [run, h, Option.bind_some]

/-- A run of some events takes the first of them. -/
theorem run_split {e : ε} {es : List ε} {s s' : σ} (h : run step (e :: es) s = some s') :
    ∃ t, step e s = some t ∧ run step es t = some s' := Option.bind_eq_some_iff.mp h

theorem run_append {es fs : List ε} {s t : σ} (first : run step es s = some t) :
    run step (es ++ fs) s = run step fs t := by
  induction es generalizing s with
  | nil =>
    cases first
    rfl
  | cons e es ih =>
    obtain ⟨u, next, rest⟩ := run_split first
    rw [List.cons_append, run_cons next, ih rest]

/-- A condition on the events alone. -/
theorem meets_events {C : ε → Prop} {es : List ε} (all : ∀ e ∈ es, C e) (s : σ) : Meets step (fun _ e => C e) es s := by
  induction es generalizing s with
  | nil => trivial
  | cons e es ih =>
    exact ⟨all e List.mem_cons_self, fun t _ => ih (fun e mem => all e (List.mem_cons_of_mem _ mem)) t⟩

/-- **The invariant rule**, for runs whose steps meet `C`. -/
theorem run_inv (Inv : σ → Prop) (C : σ → ε → Prop)
    (preserved : ∀ s e s', Inv s → C s e → step e s = some s' → Inv s') :
    ∀ {es : List ε} {s s' : σ}, Inv s → Meets step C es s → run step es s = some s' → Inv s' := by
  intro es
  induction es with
  | nil =>
    intro s s' inv _ go
    cases go
    exact inv
  | cons e es ih =>
    intro s s' inv meets go
    obtain ⟨here, later⟩ := meets
    obtain ⟨t, next, rest⟩ := run_split go
    exact ih (preserved s e t inv here next) (later t next) rest

/-- The invariant rule without a condition on the steps. -/
theorem reachable_inv (Inv : σ → Prop) (preserved : ∀ s e s', Inv s → step e s = some s' → Inv s')
    {start s : σ} (init : Inv start) (reached : Reachable step start s) : Inv s := by
  obtain ⟨es, go⟩ := reached
  exact run_inv Inv (fun _ _ => True) (fun s e s' inv _ => preserved s e s' inv) init
    (meets_events (fun _ _ => trivial) start) go

/-- **The safety rule**: an invariant under which every event with `C` is taken holds at the
end of every run of such events, and there is such an end. -/
theorem run_total (Inv : σ → Prop) (C : ε → Prop) (taken : ∀ s e, Inv s → C e → ∃ t, step e s = some t ∧ Inv t)
    {es : List ε} {s : σ} (all : ∀ e ∈ es, C e) (inv : Inv s) : ∃ t, run step es s = some t ∧ Inv t := by
  induction es generalizing s with
  | nil => exact ⟨s, rfl, inv⟩
  | cons e es ih =>
    obtain ⟨t, go, inv'⟩ := taken s e inv (all e List.mem_cons_self)
    obtain ⟨t', rest, last⟩ := ih (fun e mem => all e (List.mem_cons_of_mem _ mem)) inv'
    exact ⟨t', by rw [run_cons go, rest], last⟩

/-- **The progress rule**: under an invariant with which some event can happen
until `P` holds, and a rank that each such event lowers. -/
theorem inevitably_of_rank {P : σ → Prop} (Inv : σ → Prop) (rank : σ → Nat)
    (progress : ∀ s, Inv s → ¬ P s → ∃ e t, step e s = some t)
    (falls : ∀ s e t, Inv s → ¬ P s → step e s = some t → (Inv t ∨ P t) ∧ rank t < rank s) {s : σ} (inv : Inv s) :
    Inevitably step P s := by
  induction hr : rank s using Nat.strongRecOn generalizing s with
  | ind n ih =>
    by_cases done : P s
    · exact Inevitably.here done
    · apply Inevitably.next (progress s inv done)
      intro e t go
      obtain ⟨kept, less⟩ := falls s e t inv done go
      rcases kept with inv' | there
      · exact ih (rank t) (hr ▸ less) inv' rfl
      · exact Inevitably.here there

theorem throughout_append {P Q R : σ → Prop} {es fs : List ε} {s : σ} (first : Throughout step P Q es s)
    (rest : ∀ t, Q t → Throughout step P R fs t) : Throughout step P R (es ++ fs) s := by
  induction first with
  | done last => exact rest _ last
  | next here go _ ih => exact Throughout.next here go ih

theorem throughout_mono {P P' Q Q' : σ → Prop} (weaken : ∀ s, P s → P' s) (final : ∀ s, Q s → Q' s)
    {es : List ε} {s : σ} (run : Throughout step P Q es s) : Throughout step P' Q' es s := by
  induction run with
  | done last => exact Throughout.done (final _ last)
  | next here go _ ih => exact Throughout.next (weaken _ here) go ih

/-- A script, by an invariant on the number of events done. -/
theorem throughout_indexed {P : σ → Prop} : ∀ {es : List ε} {At : Nat → σ → Prop} {s : σ},
    (∀ k e t, es[k]? = some e → At k t → P t ∧ ∃ t', step e t = some t' ∧ At (k + 1) t') → At 0 s →
    Throughout step P (At es.length) es s := by
  intro es
  induction es with
  | nil => intro At s _ start; exact Throughout.done start
  | cons e es ih =>
    intro At s go start
    obtain ⟨here, t, next, later⟩ := go 0 e s rfl start
    exact Throughout.next here next (@ih (fun k => At (k + 1)) t (fun k f u at_ => go (k + 1) f u at_) later)

theorem throughout_run {P Q : σ → Prop} {es : List ε} {s : σ} (whole : Throughout step P Q es s) :
    ∃ s', run step es s = some s' ∧ Q s' := by
  induction whole with
  | done last => exact ⟨_, rfl, last⟩
  | next _ go _ ih =>
    rw [run_cons go]
    exact ih

/-- Every run of a front of the events reaches a state that has `P`. -/
theorem throughout_prefix {P Q : σ → Prop} (final : ∀ s, Q s → P s) : ∀ {es fs : List ε} {s : σ},
    Throughout step P Q (es ++ fs) s → ∃ s', run step es s = some s' ∧ P s' := by
  intro es
  induction es with
  | nil =>
    intro fs s whole
    refine ⟨s, rfl, ?_⟩
    cases whole with
    | done last => exact final s last
    | next here _ _ => exact here
  | cons e es ih =>
    intro fs s whole
    cases whole with
    | next _ go rest =>
      rw [run_cons go]
      exact ih rest

end Machine

/-! ## Simulations -/

section Simulation

variable {σ ε α ο : Type} (step : ε → σ → Option σ) (observe : ε → σ → List ο)

/-- What is observed of a run. -/
def trace : List ε → σ → List ο
  | [], _ => []
  | e :: es, s => observe e s ++ (step e s).elim [] (trace es)

variable {step observe} {spec : ο → α → Option α}

/-- **The simulation rule**: if what is observed of every step can be done by the
specification and the states stay related, then so can what is observed of a whole run. -/
theorem simulation (R : σ → α → Prop)
    (matched : ∀ s a e, R s a → ∃ t b, step e s = some t ∧ run spec (observe e s) a = some b ∧ R t b) :
    ∀ (es : List ε) {s : σ} {a : α}, R s a →
      ∃ t b, run step es s = some t ∧ run spec (trace step observe es s) a = some b ∧ R t b := by
  intro es
  induction es with
  | nil => exact fun related => ⟨_, _, rfl, rfl, related⟩
  | cons e es ih =>
    intro s a related
    obtain ⟨t, b, go, done, related'⟩ := matched s a e related
    obtain ⟨t', b', rest, later, last⟩ := ih related'
    refine ⟨t', b', by rw [run_cons go, rest], ?_, last⟩
    rw [trace, run_append done, go]
    exact later

end Simulation

end OffLineProgrammer.Lib.Run
