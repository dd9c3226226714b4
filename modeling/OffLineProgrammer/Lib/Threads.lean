import OffLineProgrammer.Lib.Run

/-!
# Threads on a shared bus

A program selects a device, transfers and releases it, and goes on with what a
transfer brings back. The threads run such programs one at a time: the one that
runs loses the processor only while it waits for a transfer or has nothing to do.
Without any lock the transactions of the threads stay apart exactly when none
begins an operation inside that of another (`clean_iff`).
-/

namespace OffLineProgrammer.Lib.Threads
set_option autoImplicit false

/-! ## Programs -/

/-- Programs of bus actions that transfer data of type `β`. -/
inductive Program (β α : Type) where
  | ret (a : α)
  | select (next : Program β α)
  | release (next : Program β α)
  | transfer (out : β) (next : β → Program β α)
  /-- A loop has not ended within its fuel. -/
  | spin

namespace Program

variable {β α γ σ : Type}

def bind : Program β α → (α → Program β γ) → Program β γ
  | .ret a, f => f a
  | .select next, f => .select (next.bind f)
  | .release next, f => .release (next.bind f)
  | .transfer out next, f => .transfer out fun back => (next back).bind f
  | .spin, _ => .spin

instance : Monad (Program β) where
  pure := .ret
  bind := Program.bind

/-- At most `fuel` rounds of `body`: `.inl` goes round again, `.inr` leaves. -/
def loop (body : σ → Program β (σ ⊕ α)) : Nat → σ → Program β α
  | 0, _ => .spin
  | fuel + 1, s => (body s).bind fun r =>
    match r with
    | .inl s' => loop body fuel s'
    | .inr a => .ret a

/-- Transfers only while the device is selected, from selected or not to selected or not. -/
inductive Moves : Bool → Program β α → Bool → Prop where
  | ret (a : α) (b : Bool) : Moves b (.ret a) b
  | select {next : Program β α} {c : Bool} (rest : Moves true next c) : Moves false (.select next) c
  | release {next : Program β α} {c : Bool} (rest : Moves false next c) : Moves true (.release next) c
  | transfer {out : β} {next : β → Program β α} {c : Bool} (rest : ∀ back, Moves true (next back) c) :
      Moves true (.transfer out next) c
  | spin (b c : Bool) : Moves b .spin c

theorem Moves.bind {x : Program β α} {f : α → Program β γ} {b c d : Bool} (first : Moves b x c)
    (next : ∀ a, Moves c (f a) d) : Moves b (x.bind f) d := by
  induction first with
  | ret a b => exact next a
  | select rest ih => exact .select (ih next)
  | release rest ih => exact .release (ih next)
  | transfer rest ih => exact .transfer fun back => ih back next
  | spin b c => exact .spin b d

/-- A loop moves as each of its rounds does. -/
theorem Moves.loop {body : σ → Program β (σ ⊕ α)} {b : Bool} (round : ∀ s, Moves b (body s) b) :
    ∀ (fuel : Nat) (s : σ), Moves b (Program.loop body fuel s) b := by
  intro fuel
  induction fuel with
  | zero => exact fun _ => .spin b b
  | succ fuel ih =>
    intro s
    refine (round s).bind fun r => ?_
    cases r with
    | inl s' => exact ih s'
    | inr a => exact .ret a b

end Program

/-! ## Threads -/

/-- What a thread does. -/
inductive Activity (β : Type) where
  | idle
  | running (p : Program β Unit)
  | waiting (next : β → Program β Unit)

/-- What a thread does to the bus: it moves the select line, and enters and leaves a transfer. -/
inductive Move where
  | select
  | release
  | enter
  | leave
  deriving DecidableEq

structure State (τ β : Type) where
  current : τ
  activity : τ → Activity β
  /-- The threads that wait for a transfer, in the order they came. -/
  waiters : List τ
  /-- What was done to the bus, the last first. -/
  trace : List (τ × Move)

/-- What happens: a call of an operation, the next action of the thread that runs,
the end of a transfer, and a switch to a thread. -/
inductive Event (τ β ο : Type) where
  | call (o : ο)
  | act
  | irq (back : β)
  | switch (t : τ)

variable {τ β ο : Type}

section Steps

variable [DecidableEq τ]

/-- Thread `t` goes on with `a`. -/
def State.become (s : State τ β) (t : τ) (a : Activity β) : State τ β :=
  { s with activity := fun u => if u = t then a else s.activity u }

/-- Thread `t` does `m` and goes on with `a`. -/
def State.move (s : State τ β) (t : τ) (m : Move) (a : Activity β) : State τ β :=
  { s.become t a with trace := (t, m) :: s.trace }

/-- Thread `t` goes to wait. -/
def State.queue (s : State τ β) (t : τ) : State τ β := { s with waiters := s.waiters ++ [t] }

/-- The thread that runs begins an operation, whose first action selects the device. -/
def State.call (s : State τ β) (p : Program β Unit) : Option (State τ β) :=
  match s.activity s.current, p with
  | .idle, .select next => some (s.move s.current .select (.running next))
  | _, _ => none

/-- The thread that runs does its next action. -/
def State.act (s : State τ β) : Option (State τ β) :=
  match s.activity s.current with
  | .running (.ret _) => some (s.become s.current .idle)
  | .running (.select next) => some (s.move s.current .select (.running next))
  | .running (.release next) => some (s.move s.current .release (.running next))
  | .running (.transfer _ next) => some ((s.move s.current .enter (.waiting next)).queue s.current)
  | _ => none

/-- The transfer ends for the thread that has waited longest. -/
def State.irq (s : State τ β) (back : β) : Option (State τ β) :=
  match s.waiters with
  | [] => none
  | t :: ts =>
    match s.activity t with
    | .waiting next => some { s.move t .leave (.running (next back)) with waiters := ts }
    | _ => none

/-- Another thread runs while the one that ran waits or has nothing to do. -/
def State.switch (s : State τ β) (t : τ) : Option (State τ β) :=
  match s.activity s.current with
  | .running _ => none
  | _ => some { s with current := t }

/-- The threads, with the program of an operation when a thread calls it. -/
def step (program : τ → ο → Program β Unit) : Event τ β ο → State τ β → Option (State τ β)
  | .call o, s => s.call (program s.current o)
  | .act, s => s.act
  | .irq back, s => s.irq back
  | .switch t, s => s.switch t

end Steps

/-- No thread has done anything yet. -/
def start (t : τ) : State τ β := ⟨t, fun _ => .idle, [], []⟩

/-! ## Transactions -/

section Trace

variable {u : τ} {m : Move} {trace : List (τ × Move)}

/-- Between the moment a thread selects the device and the moment it releases it no
other thread does anything to the bus. -/
def Contiguous (trace : List (τ × Move)) : Prop :=
  ∀ post u m mid t pre, trace = post ++ (u, m) :: (mid ++ (t, .select) :: pre) → (t, .release) ∉ mid → u = t

/-- No transfer is entered before the one entered last is left. -/
def Exclusive (trace : List (τ × Move)) : Prop :=
  ∀ post u mid t pre, trace = post ++ (u, .enter) :: (mid ++ (t, .enter) :: pre) → (t, .leave) ∈ mid

/-- The transactions stay apart. -/
def Clean (trace : List (τ × Move)) : Prop := Contiguous trace ∧ Exclusive trace

/-- Thread `t` has done `on` and not yet `off`. -/
def Since (on off : Move) (t : τ) (trace : List (τ × Move)) : Prop :=
  ∃ mid pre, trace = mid ++ (t, on) :: pre ∧ (t, off) ∉ mid

/-- Thread `t` has selected the device. -/
abbrev Selected (t : τ) (trace : List (τ × Move)) : Prop := Since .select .release t trace

/-- Thread `t` is inside a transfer. -/
abbrev Pending (t : τ) (trace : List (τ × Move)) : Prop := Since .enter .leave t trace

variable {on off : Move} {t : τ}

theorem since_nil : ¬ Since on off t [] := by
  rintro ⟨mid, pre, split, -⟩
  cases mid <;> cases split

theorem since_on (trace : List (τ × Move)) : Since on off t ((t, on) :: trace) := ⟨[], trace, rfl, List.not_mem_nil⟩

theorem since_off (apart : on ≠ off) (trace : List (τ × Move)) : ¬ Since on off t ((t, off) :: trace) := by
  rintro ⟨mid, pre, split, none⟩
  cases mid with
  | nil =>
    cases split
    exact apart rfl
  | cons x mid =>
    cases split
    exact none List.mem_cons_self

/-- Anything else leaves it as it was. -/
theorem since_other (notOn : (u, m) ≠ (t, on)) (notOff : (u, m) ≠ (t, off)) :
    Since on off t ((u, m) :: trace) ↔ Since on off t trace := by
  constructor
  · rintro ⟨mid, pre, split, none⟩
    cases mid with
    | nil =>
      cases split
      exact absurd rfl notOn
    | cons x mid =>
      cases split
      exact ⟨mid, pre, rfl, fun here => none (List.mem_cons_of_mem _ here)⟩
  · rintro ⟨mid, pre, rfl, none⟩
    refine ⟨(u, m) :: mid, pre, rfl, fun here => ?_⟩
    rcases List.mem_cons.mp here with same | later
    · exact notOff same.symm
    · exact none later

/-- Another thread's action leaves it as it was. -/
theorem since_thread (other : u ≠ t) : Since on off t ((u, m) :: trace) ↔ Since on off t trace :=
  since_other (fun same => other (congrArg Prod.fst same)) fun same => other (congrArg Prod.fst same)

theorem contiguous_cons : Contiguous ((u, m) :: trace) ↔ Contiguous trace ∧ ∀ t, Selected t trace → u = t := by
  constructor
  · intro whole
    refine ⟨fun post u' m' mid t pre split none => ?_, ?_⟩
    · exact whole ((u, m) :: post) u' m' mid t pre (by rw [split]; rfl) none
    · rintro t ⟨mid, pre, rfl, none⟩
      exact whole [] u m mid t pre rfl none
  · rintro ⟨rest, here⟩ post u' m' mid t pre split none
    cases post with
    | nil =>
      cases split
      exact here t ⟨mid, pre, rfl, none⟩
    | cons x post =>
      cases split
      exact rest post u' m' mid t pre rfl none

theorem exclusive_cons : Exclusive ((u, m) :: trace) ↔
    Exclusive trace ∧ (m = .enter → ∀ t, ¬ Pending t trace) := by
  constructor
  · intro whole
    refine ⟨fun post u' mid t pre split => ?_, ?_⟩
    · exact whole ((u, m) :: post) u' mid t pre (by rw [split]; rfl)
    · rintro rfl t ⟨mid, pre, rfl, none⟩
      exact none (whole [] u mid t pre rfl)
  · rintro ⟨rest, here⟩ post u' mid t pre split
    cases post with
    | nil =>
      cases split
      by_contra none
      exact here rfl t ⟨mid, pre, rfl, none⟩
    | cons x post =>
      cases split
      exact rest post u' mid t pre rfl

theorem clean_nil : Clean ([] : List (τ × Move)) := by
  constructor
  · intro post u m mid t pre split
    cases post <;> cases split
  · intro post u mid t pre split
    cases post <;> cases split

theorem clean_cons : Clean ((u, m) :: trace) ↔
    Clean trace ∧ (∀ t, Selected t trace → u = t) ∧ (m = .enter → ∀ t, ¬ Pending t trace) := by
  rw [Clean, contiguous_cons, exclusive_cons, Clean]
  exact ⟨fun ⟨⟨a, b⟩, c, d⟩ => ⟨⟨a, c⟩, b, d⟩, fun ⟨⟨a, c⟩, b, d⟩ => ⟨⟨a, b⟩, c, d⟩⟩

/-- What came before a clean trace is clean. -/
theorem Clean.before {new : List (τ × Move)} (clean : Clean (new ++ trace)) : Clean trace := by
  induction new with
  | nil => exact clean
  | cons x new ih => exact ih (clean_cons.mp clean).1

end Trace

/-! ## Steps -/

section Fits

variable {t u : τ}

/-- What a thread still does fits what it has done to the bus. -/
inductive Fits (t : τ) (trace : List (τ × Move)) : Activity β → Prop where
  | idle (selected : ¬ Selected t trace) (pending : ¬ Pending t trace) : Fits t trace .idle
  | outside {p : Program β Unit} (moves : p.Moves false false) (selected : ¬ Selected t trace)
      (pending : ¬ Pending t trace) : Fits t trace (.running p)
  | inside {p : Program β Unit} (moves : p.Moves true false) (selected : Selected t trace)
      (pending : ¬ Pending t trace) : Fits t trace (.running p)
  | waiting {next : β → Program β Unit} (moves : ∀ back, (next back).Moves true false) (selected : Selected t trace) :
      Fits t trace (.waiting next)

/-- What thread `t` does leaves the others as they were. -/
theorem Fits.thread {m : Move} {trace : List (τ × Move)} {a : Activity β} (fits : Fits u trace a) (other : t ≠ u) :
    Fits u ((t, m) :: trace) a := by
  have selected := @since_thread τ t m trace .select .release u other
  have pending := @since_thread τ t m trace .enter .leave u other
  cases fits with
  | idle a b => exact .idle (selected.not.mpr a) (pending.not.mpr b)
  | outside moves a b => exact .outside moves (selected.not.mpr a) (pending.not.mpr b)
  | inside moves a b => exact .inside moves (selected.mpr a) (pending.not.mpr b)
  | waiting moves a => exact .waiting moves (selected.mpr a)

/-- Every thread fits, and one that does not run has selected the device if it is
inside an operation. -/
structure Inv (s : State τ β) : Prop where
  fits : ∀ t, Fits t s.trace (s.activity t)
  others : ∀ t, t ≠ s.current → s.activity t ≠ .idle → Selected t s.trace

theorem inv_start (t : τ) : Inv (start t : State τ β) :=
  ⟨fun _ => .idle since_nil since_nil, fun _ _ inside => absurd rfl inside⟩

/-- One thread at most is inside an operation. -/
def Single (s : State τ β) : Prop := ∀ t u, s.activity t ≠ .idle → s.activity u ≠ .idle → t = u

/-- While one thread is inside an operation the others are not. -/
theorem Single.alone {s : State τ β} (single : Single s) {a : Activity β} (does : s.activity t = a) (inside : a ≠ .idle) :
    ∀ u, u ≠ t → s.activity u = .idle := by
  intro u other
  by_contra active
  exact other (single u t active (does.trans_ne inside))

end Fits

section Runs

variable [DecidableEq τ] {program : τ → ο → Program β Unit} {s s' : State τ β} {e : Event τ β ο} {t u : τ}

/-- **What a step does**: thread `t` does one thing to the bus, or an operation ends,
or another thread runs. -/
inductive Steps (program : τ → ο → Program β Unit) (s : State τ β) : Event τ β ο → State τ β → Prop where
  | call {o : ο} {next : Program β Unit} (begins : program s.current o = .select next) (idle : s.activity s.current = .idle) :
      Steps program s (.call o) (s.move s.current .select (.running next))
  | ends (running : s.activity s.current = .running (.ret ())) : Steps program s .act (s.become s.current .idle)
  | select {next : Program β Unit} (running : s.activity s.current = .running (.select next)) :
      Steps program s .act (s.move s.current .select (.running next))
  | release {next : Program β Unit} (running : s.activity s.current = .running (.release next)) :
      Steps program s .act (s.move s.current .release (.running next))
  | enter {out : β} {next : β → Program β Unit} (running : s.activity s.current = .running (.transfer out next)) :
      Steps program s .act ((s.move s.current .enter (.waiting next)).queue s.current)
  | leave {back : β} {t : τ} {ts : List τ} {next : β → Program β Unit} (first : s.waiters = t :: ts)
      (waiting : s.activity t = .waiting next) :
      Steps program s (.irq back) { s.move t .leave (.running (next back)) with waiters := ts }
  | switch {t : τ} (free : ∀ p, s.activity s.current ≠ .running p) :
      Steps program s (.switch t) { s with current := t }

theorem step_cases (go : step program e s = some s') : Steps program s e s' := by
  cases e with
  | call o =>
    change s.call (program s.current o) = some s' at go
    unfold State.call at go
    split at go
    · rename_i idle begins
      cases go
      exact .call begins idle
    · cases go
  | act =>
    change s.act = some s' at go
    unfold State.act at go
    split at go
    · rename_i running
      cases go
      exact .ends running
    · rename_i running
      cases go
      exact .select running
    · rename_i running
      cases go
      exact .release running
    · rename_i running
      cases go
      exact .enter running
    · cases go
  | irq back =>
    change s.irq back = some s' at go
    unfold State.irq at go
    split at go
    · cases go
    · rename_i first
      split at go
      · rename_i waiting
        cases go
        exact .leave first waiting
      · cases go
  | switch t =>
    change s.switch t = some s' at go
    unfold State.switch at go
    split at go
    · cases go
    · rename_i free
      cases go
      exact .switch free

/-- Thread `t` does `m`. -/
theorem Inv.move (inv : Inv s) {m : Move} {a : Activity β} (fits : Fits t ((t, m) :: s.trace) a)
    (other : t ≠ s.current → a ≠ .idle → Selected t ((t, m) :: s.trace)) : Inv (s.move t m a) := by
  constructor
  · intro u
    show Fits u ((t, m) :: s.trace) (if u = t then a else s.activity u)
    split
    · rename_i same
      rw [same]
      exact fits
    · rename_i apart
      exact (inv.fits u).thread (Ne.symm apart)
  · intro u away
    show (if u = t then a else s.activity u) ≠ .idle → Selected u ((t, m) :: s.trace)
    split
    · rename_i same
      subst same
      exact other away
    · rename_i apart
      exact fun inside => (since_thread (Ne.symm apart)).mpr (inv.others u away inside)

/-- **Every step keeps the invariant.** -/
theorem inv_step (bracketed : ∀ t o, (program t o).Moves false false) (inv : Inv s) (go : Steps program s e s') : Inv s' := by
  have here := inv.fits s.current
  have running : ∀ {m a}, Fits s.current ((s.current, m) :: s.trace) a → Inv (s.move s.current m a) := fun fits =>
    inv.move fits fun away => absurd rfl away
  cases go with
  | call begins idle =>
    rename_i o next
    rw [idle] at here
    cases here with
    | idle selected pending =>
      have moves := bracketed s.current o
      rw [begins] at moves
      cases moves with
      | select rest =>
        exact running (.inside rest (since_on _) ((since_other (by simp) (by simp)).not.mpr pending))
  | ends done =>
    rw [done] at here
    constructor
    · intro u
      show Fits u s.trace (if u = s.current then .idle else s.activity u)
      split
      · rename_i same
        rw [same]
        cases here with
        | outside moves selected pending => exact .idle selected pending
        | inside moves selected pending => cases moves
      · exact inv.fits u
    · intro u away
      show (if u = s.current then .idle else s.activity u) ≠ .idle → Selected u s.trace
      have apart : u ≠ s.current := away
      rw [if_neg apart]
      exact inv.others u apart
  | select acts =>
    rw [acts] at here
    cases here with
    | outside moves selected pending =>
      cases moves with
      | select rest => exact running (.inside rest (since_on _) ((since_other (by simp) (by simp)).not.mpr pending))
    | inside moves selected pending => cases moves
  | release acts =>
    rw [acts] at here
    cases here with
    | outside moves selected pending => cases moves
    | inside moves selected pending =>
      cases moves with
      | release rest =>
        exact running (.outside rest (since_off (by simp) _) ((since_other (by simp) (by simp)).not.mpr pending))
  | enter acts =>
    rw [acts] at here
    cases here with
    | outside moves selected pending => cases moves
    | inside moves selected pending =>
      cases moves with
      | transfer rest =>
        have moved := @running .enter _ (.waiting rest ((since_other (by simp) (by simp)).mpr selected))
        exact ⟨moved.fits, moved.others⟩
  | leave first waiting =>
    rename_i back t ts next
    have there := inv.fits t
    rw [waiting] at there
    cases there with
    | waiting moves selected =>
      have still : Selected t ((t, .leave) :: s.trace) := (since_other (by simp) (by simp)).mpr selected
      have moved := inv.move (.inside (moves back) still (since_off (by simp) _)) fun _ _ => still
      exact ⟨moved.fits, moved.others⟩
  | switch free =>
    rename_i t
    refine ⟨inv.fits, fun u away inside => ?_⟩
    by_cases ran : u = s.current
    · subst ran
      have there := inv.fits s.current
      cases activity : s.activity s.current with
      | idle => exact absurd activity inside
      | running p => exact absurd activity (free p)
      | waiting next =>
        rw [activity] at there
        cases there with
        | waiting moves selected => exact selected
    · exact inv.others u ran inside

/-! ## Runs -/

/-- An operation begins while no other thread is inside one. -/
def Alone (s : State τ β) (e : Event τ β ο) : Prop := ∀ o, e = .call o → ∀ t, t ≠ s.current → s.activity t = .idle

/-- What a step adds to the trace. -/
theorem trace_step (go : Steps program s e s') : ∃ new, s'.trace = new ++ s.trace := by
  cases go with
  | call begins idle => exact ⟨[_], rfl⟩
  | ends done => exact ⟨[], rfl⟩
  | select acts => exact ⟨[_], rfl⟩
  | release acts => exact ⟨[_], rfl⟩
  | enter acts => exact ⟨[_], rfl⟩
  | leave first waiting => exact ⟨[_], rfl⟩
  | switch free => exact ⟨[], rfl⟩

theorem trace_run {es : List (Event τ β ο)} : ∀ {s s' : State τ β}, Run.run (step program) es s = some s' →
    ∃ new, s'.trace = new ++ s.trace := by
  induction es with
  | nil =>
    intro s s' go
    cases go
    exact ⟨[], rfl⟩
  | cons e es ih =>
    intro s s' go
    obtain ⟨u, next, rest⟩ := Run.run_split go
    obtain ⟨new, later⟩ := ih rest
    obtain ⟨new', here⟩ := trace_step (step_cases next)
    exact ⟨new ++ new', by rw [later, here, List.append_assoc]⟩

/-- A thread that is alone inside an operation has the bus for itself. -/
theorem clean_move (inv : Inv s) (clean : Clean s.trace) {m : Move}
    (alone : ∀ u, u ≠ t → s.activity u = .idle) (enters : m = .enter → ¬ Pending t s.trace) :
    Clean ((t, m) :: s.trace) := by
  have idle : ∀ u, u ≠ t → ¬ Selected u s.trace ∧ ¬ Pending u s.trace := by
    intro u other
    have fits := inv.fits u
    rw [alone u other] at fits
    cases fits with
    | idle selected pending => exact ⟨selected, pending⟩
  refine clean_cons.mpr ⟨clean, fun u selected => ?_, fun enter u => ?_⟩
  · by_contra other
    exact (idle u (Ne.symm other)).1 selected
  · by_cases same : u = t
    · rw [same]
      exact enters enter
    · exact (idle u same).2

/-- The other threads stay outside while one does something. -/
theorem single_move {a : Activity β} {m : Move} (alone : ∀ u, u ≠ t → s.activity u = .idle) : Single (s.move t m a) := by
  have inside : ∀ u, (s.move t m a).activity u ≠ .idle → u = t := by
    intro u inside
    by_contra other
    exact inside ((if_neg other).trans (alone u other))
  intro u v first second
  rw [inside u first, inside v second]

/-- **Operations that begin alone stay apart.** -/
theorem clean_step (inv : Inv s) (single : Single s) (clean : Clean s.trace) (alone : Alone s e)
    (go : Steps program s e s') : Single s' ∧ Clean s'.trace := by
  have here := inv.fits s.current
  cases go with
  | call begins idle =>
    have others := alone _ rfl
    exact ⟨single_move others, clean_move inv clean others Move.noConfusion⟩
  | ends done =>
    have others := single.alone done nofun
    refine ⟨fun u v inside => absurd ?_ inside, clean⟩
    show (if u = s.current then .idle else s.activity u) = .idle
    split
    · rfl
    · rename_i other
      exact others u other
  | select acts =>
    have others := single.alone acts nofun
    exact ⟨single_move others, clean_move inv clean others Move.noConfusion⟩
  | release acts =>
    have others := single.alone acts nofun
    exact ⟨single_move others, clean_move inv clean others Move.noConfusion⟩
  | enter acts =>
    rename_i out next
    have others := single.alone acts nofun
    rw [acts] at here
    have pending : ¬ Pending s.current s.trace := by
      cases here with
      | outside moves selected pending => exact pending
      | inside moves selected pending => exact pending
    have moved : Single (s.move s.current .enter (.waiting next)) := single_move others
    exact ⟨moved, clean_move inv clean others fun _ => pending⟩
  | leave first waiting =>
    rename_i back t ts next
    have others := single.alone waiting nofun
    have moved : Single (s.move t .leave (.running (next back))) := single_move others
    exact ⟨moved, clean_move inv clean others Move.noConfusion⟩
  | switch free => exact ⟨single, clean⟩

/-- **An operation that begins inside another** breaks that one's transaction. -/
theorem alone_of_clean (inv : Inv s) (go : Steps program s e s') (clean : Clean s'.trace) : Alone s e := by
  rintro o rfl t other
  cases go with
  | call begins idle =>
    have apart := (clean_cons.mp clean).2.1
    by_contra inside
    exact other (apart t (inv.others t other inside)).symm

/-- **The transactions of a run stay apart** if and only if every operation begins
while no other thread is inside one. -/
theorem clean_iff (bracketed : ∀ t o, (program t o).Moves false false) {es : List (Event τ β ο)} {t : τ} {s : State τ β}
    (run : Run.run (step program) es (start t) = some s) :
    Clean s.trace ↔ Run.Meets (step program) Alone es (start t) := by
  constructor
  · intro clean
    have meets : ∀ (es : List (Event τ β ο)) (u : State τ β), Inv u → Run.run (step program) es u = some s →
        Run.Meets (step program) Alone es u := by
      intro es
      induction es with
      | nil => exact fun _ _ _ => trivial
      | cons e es ih =>
        intro u inv go
        obtain ⟨v, next, rest⟩ := Run.run_split go
        have does := step_cases next
        obtain ⟨new, later⟩ := trace_run rest
        rw [later] at clean
        refine ⟨alone_of_clean inv does clean.before, fun v' same => ?_⟩
        rw [next] at same
        cases same
        exact ih v (inv_step bracketed inv does) rest
    exact meets es (start t) (inv_start t) run
  · intro meets
    have init : Inv (start t : State τ β) ∧ Single (start t : State τ β) ∧ Clean (start t : State τ β).trace :=
      ⟨inv_start t, fun _ _ inside => absurd rfl inside, clean_nil⟩
    refine (Run.run_inv (fun u => Inv u ∧ Single u ∧ Clean u.trace) Alone ?_ init meets run).2.2
    rintro u e v ⟨inv, single, clean⟩ alone go
    have does := step_cases go
    exact ⟨inv_step bracketed inv does, clean_step inv single clean alone does⟩

end Runs

end OffLineProgrammer.Lib.Threads
