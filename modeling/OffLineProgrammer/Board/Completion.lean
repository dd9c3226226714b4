import OffLineProgrammer.Board.Dma
import Mathlib.Data.List.Perm.Subperm
import Mathlib.Data.List.Nodup
import Mathlib.Data.List.Induction
import Mathlib.Algebra.Ring.Nat

/-!
# Completion is neither lost nor early

From its second `DMA_Cmd` to the end of its wait a call of `DMA1_Channel_Write`
keeps one fact whatever the hardware does: `UserCh` holds the two channels, `IrqCh`
those whose interrupts have been taken, and the token is there exactly once both
have (`Counting`). It gives that a call returns after its own two interrupts and
leaves nothing behind (`Between`), and, as every step lowers `rank`, that it does
return.
-/

namespace OffLineProgrammer.Board
open Lib
set_option autoImplicit false

/-! ## The masks -/

def bit (c : Channel) : BitVec 8 := 1#8 <<< c.index

/-- The mask of some channels. -/
def bits (cs : List Channel) : BitVec 8 := cs.foldl (fun m c => m ||| bit c) 0#8

theorem bits_snoc (cs : List Channel) (c : Channel) : bits (cs ++ [c]) = bits cs ||| bit c := by
  simp only [bits, List.foldl_append, List.foldl_cons, List.foldl_nil]

theorem bit_has (c d : Channel) : (bit c).getLsbD d.index = decide (d = c) := by
  cases c <;> cases d <;> rfl

theorem bits_has (cs : List Channel) (d : Channel) : (bits cs).getLsbD d.index = decide (d ∈ cs) := by
  induction cs using List.reverseRecOn with
  | nil => simp [bits]
  | append_singleton cs c ih => simp [bits_snoc, ih, bit_has]

/-- Masks are equal where the channels are the same. -/
theorem bits_eq_iff {cs ds : List Channel} : bits cs = bits ds ↔ ∀ c, c ∈ cs ↔ c ∈ ds := by
  constructor
  · intro same c
    have := congrArg (fun m => m.getLsbD c.index) same
    simpa [bits_has] using this
  · intro same
    apply BitVec.eq_of_getLsbD_eq
    intro i low
    obtain ⟨c, rfl⟩ : ∃ c : Channel, c.index = i := by
      have all : ∀ i < 8, ∃ c ∈ ch32DmaConfig, c.index = i := by decide
      obtain ⟨c, _, eq⟩ := all i low
      exact ⟨c, eq⟩
    rw [bits_has, bits_has, decide_eq_decide]
    exact same c

theorem channelIndex_some (c : Channel) : channelIndex (some c) = c.index := by
  cases c <;> rfl

theorem handlerOf_eq (c : Channel) : handlerOf c = irqHandler c c.index := by
  cases c <;> rfl

/-! ## What a run shows -/

/-- Whole calls, one after the other: each is entered, its two channels' interrupts
are taken once each, and it returns once. -/
inductive Calls : List Mark → Prop where
  | none : Calls []
  | call {log : List Mark} {tx rx : Channel} {irqs : List Channel} (before : Calls log) (own : irqs.Perm [tx, rx]) :
      Calls (log ++ Mark.enter tx rx :: irqs.map Mark.irq ++ [Mark.leave])

/-- Nothing is left that could release or block a call. -/
structure Quiet (d : Dma) : Prop where
  user : d.userCh = 0#8
  irq : d.irqCh = 0#8
  token : d.flag = false
  free : d.suspended = false
  off : ∀ c, d.transfer c = .off

/-- Between two calls. -/
structure Between (s : DmaSystem) : Prop where
  idle : s.todo = []
  calls : Calls s.log
  quiet : Quiet s.dma

/-- Inside the call that was entered after `done`: interrupts of its own channels
have been taken, each at most once. -/
structure Within (done : List Mark) (tx rx : Channel) (s : DmaSystem) : Prop where
  busy : s.todo ≠ []
  before : Calls done
  log : ∃ irqs : List Channel, s.log = done ++ Mark.enter tx rx :: irqs.map Mark.irq ∧ irqs.Subperm [tx, rx]

/-- The call that was entered after `done` has returned, and no other is in progress. -/
def Returned (done : List Mark) (tx rx : Channel) (s : DmaSystem) : Prop :=
  Between s ∧ ∃ irqs : List Channel, s.log = done ++ Mark.enter tx rx :: irqs.map Mark.irq ++ [Mark.leave] ∧ irqs.Perm [tx, rx]

/-! ## The invariant -/

/-- The channels `started` run, and the interrupts `irqs` of theirs have been taken. -/
structure Counting (tx rx : Channel) (started irqs : List Channel) (d : Dma) : Prop where
  own : ∀ c ∈ started, c = tx ∨ c = rx
  sub : ∀ c ∈ irqs, c ∈ started
  once : irqs.Nodup
  user : d.userCh = bits [tx, rx]
  irq : d.irqCh = bits irqs
  token : d.flag = true ↔ tx ∈ irqs ∧ rx ∈ irqs
  raised : d.itEnabled tx = true ∧ d.itEnabled rx = true
  live : ∀ c, d.transfer c ≠ .off ↔ c ∈ started ∧ c ∉ irqs

/-- No channel runs, no token is there and the thread is not on the list. -/
structure Still (d : Dma) : Prop where
  token : d.flag = false
  free : d.suspended = false
  off : ∀ c, d.transfer c = .off

/-- Nothing but the statements `rest` is between `d` and the start of the channels. -/
def Prepares (tx rx : Channel) : List Stmt → Dma → Prop
  | [], d => d.userCh = bits [tx, rx] ∧ d.irqCh = bits [] ∧ d.itEnabled tx = true ∧ d.itEnabled rx = true
  | stmt :: rest, d => stmt ≠ .ret ∧ ∃ d', stmt.exec d = some (d', []) ∧ Still d' ∧ Prepares tx rx rest d'

/-- The statements while channels run, by the channels started. -/
inductive Position (tx rx : Channel) : List Channel → List Stmt → Prop where
  | second : Position tx rx [rx] [.cmd (some tx), .wait, .clearIrqCh, .clearUserCh, .ret]
  | started : Position tx rx [tx, rx] [.wait, .clearIrqCh, .clearUserCh, .ret]
  | waiting : Position tx rx [tx, rx] [.awake, .clearIrqCh, .clearUserCh, .ret]

/-- Where a call stands. -/
inductive Stage (tx rx : Channel) : List Channel → Dma → List Stmt → Prop where
  | setup {d : Dma} {todo : List Stmt} (still : Still d) (prepares : Prepares tx rx todo d) :
      Stage tx rx [] d (todo ++ [Stmt.cmd (some rx), .cmd (some tx), .wait, .clearIrqCh, .clearUserCh, .ret])
  | counting {started irqs : List Channel} {d : Dma} {todo : List Stmt} (pos : Position tx rx started todo)
      (counts : Counting tx rx started irqs d)
      (held : d.suspended = true ↔ todo.head? = some .awake ∧ ¬ (tx ∈ irqs ∧ rx ∈ irqs)) : Stage tx rx irqs d todo
  | settled {irqs : List Channel} {d : Dma} (all : irqs.Perm [tx, rx]) (still : Still d) :
      Stage tx rx irqs d [.clearIrqCh, .clearUserCh, .ret]
  | cleared {irqs : List Channel} {d : Dma} (all : irqs.Perm [tx, rx]) (still : Still d) (irq : d.irqCh = 0#8) :
      Stage tx rx irqs d [.clearUserCh, .ret]
  | done {irqs : List Channel} {d : Dma} (all : irqs.Perm [tx, rx]) (quiet : Quiet d) : Stage tx rx irqs d [.ret]

/-! ## The hardware's steps -/

/-- The masks are equal once the interrupts of both channels have been taken. -/
theorem masks_eq_iff {tx rx : Channel} {irqs : List Channel} (own : ∀ c ∈ irqs, c = tx ∨ c = rx) :
    bits irqs = bits [tx, rx] ↔ tx ∈ irqs ∧ rx ∈ irqs := by
  rw [bits_eq_iff]
  constructor
  · intro same
    exact ⟨(same tx).mpr (by simp), (same rx).mpr (by simp)⟩
  · rintro ⟨left, right⟩ c
    constructor
    · intro mem
      rcases own c mem with rfl | rfl <;> simp
    · intro mem
      rcases List.mem_pair.mp mem with rfl | rfl
      · exact left
      · exact right

section Counting

variable {tx rx c : Channel} {started irqs : List Channel} {d : Dma}

theorem Counting.start (counts : Counting tx rx started irqs d) (mine : c = tx ∨ c = rx) (fresh : c ∉ started) :
    Counting tx rx (c :: started) irqs { d with transfer := Function.update d.transfer c .running } where
  own e mem := by
    rcases List.mem_cons.mp mem with rfl | mem
    · exact mine
    · exact counts.own e mem
  sub e mem := List.mem_cons_of_mem _ (counts.sub e mem)
  once := counts.once
  user := counts.user
  irq := counts.irq
  token := counts.token
  raised := counts.raised
  live e := by
    by_cases same : e = c
    · subst same
      have untaken : e ∉ irqs := fun mem => fresh (counts.sub e mem)
      simp [untaken]
    · simpa [Function.update_of_ne same, same] using counts.live e

theorem Counting.complete (counts : Counting tx rx started irqs d) (runs : d.transfer c = .running) :
    Counting tx rx started irqs { d with transfer := Function.update d.transfer c .complete } where
  own := counts.own
  sub := counts.sub
  once := counts.once
  user := counts.user
  irq := counts.irq
  token := counts.token
  raised := counts.raised
  live e := by
    by_cases same : e = c
    · subst same
      simpa [runs] using counts.live e
    · simpa [Function.update_of_ne same] using counts.live e

/-- An interrupt is counted, and the second one brings the token and wakes the thread. -/
theorem Counting.irq_taken (counts : Counting tx rx started irqs d) (ended : d.transfer c = .complete) :
    Counting tx rx started (irqs ++ [c]) (handlerOf c d) ∧
      ((handlerOf c d).suspended = true ↔ d.suspended = true ∧ ¬ (tx ∈ irqs ++ [c] ∧ rx ∈ irqs ++ [c])) := by
  obtain ⟨mem, untaken⟩ := (counts.live c).mp (by rw [ended]; decide)
  have own : ∀ e ∈ irqs ++ [c], e = tx ∨ e = rx := by
    intro e taken
    rcases List.mem_append.mp taken with old | new
    · exact counts.own e (counts.sub e old)
    · exact List.mem_singleton.mp new ▸ counts.own c mem
  -- the token is not there yet: `c` is one of the two, and its interrupt is the one being taken
  have none_ : d.flag = false := by
    apply Bool.eq_false_iff.mpr
    intro token
    obtain ⟨left, right⟩ := counts.token.mp token
    rcases counts.own c mem with rfl | rfl
    · exact untaken left
    · exact untaken right
  have live : ∀ e, Function.update d.transfer c .off e ≠ .off ↔ e ∈ started ∧ e ∉ irqs ++ [c] := by
    intro e
    by_cases same : e = c
    · subst same
      simp
    · simpa [Function.update_of_ne same, same] using counts.live e
  have mask : d.irqCh ||| 1#8 <<< c.index = bits (irqs ++ [c]) := by rw [bits_snoc, counts.irq]; rfl
  have once : (irqs ++ [c]).Nodup := by
    rw [List.nodup_append]
    refine ⟨counts.once, List.nodup_singleton c, fun e old f new eq => ?_⟩
    apply untaken
    exact List.mem_singleton.mp new ▸ eq ▸ old
  have sub : ∀ e ∈ irqs ++ [c], e ∈ started := by
    intro e taken
    rcases List.mem_append.mp taken with old | new
    · exact counts.sub e old
    · exact List.mem_singleton.mp new ▸ mem
  rw [handlerOf_eq, irqHandler, if_pos ended]
  by_cases both : tx ∈ irqs ++ [c] ∧ rx ∈ irqs ++ [c]
  · have equal : bits (irqs ++ [c]) = d.userCh := counts.user ▸ (masks_eq_iff own).mpr both
    simp only [mask, equal, if_true, rtCompletionDone, none_, Bool.false_eq_true, if_false]
    exact ⟨⟨counts.own, sub, once, counts.user, equal.symm, iff_of_true rfl both, counts.raised, live⟩,
      iff_of_false (fun held => nomatch held) (fun held => held.2 both)⟩
  · have differ : bits (irqs ++ [c]) ≠ d.userCh := fun equal => both ((masks_eq_iff own).mp (counts.user ▸ equal))
    simp only [mask, if_neg differ]
    exact ⟨⟨counts.own, sub, once, counts.user, rfl, iff_of_false (by simp [none_]) both, counts.raised, live⟩,
      (and_iff_left both).symm⟩

end Counting

/-! ## The thread's steps -/

/-- The one step of the thread. -/
theorem thread_split {s s' : DmaSystem} (go : dmaStep .thread s = some s') :
    ∃ stmt rest d more, s.todo = stmt :: rest ∧ s.dma.suspended = false ∧ stmt.exec s.dma = some (d, more) ∧
      s' = { dma := d, todo := more ++ rest, log := s.log ++ if stmt = .ret then [.leave] else [] } := by
  simp only [dmaStep] at go
  split at go
  · cases go
  · next stmt rest todo =>
    split at go
    · cases go
    · next runs =>
      obtain ⟨⟨d, more⟩, exec, rfl⟩ := Option.map_eq_some_iff.mp go
      exact ⟨stmt, rest, d, more, todo, Bool.eq_false_iff.mpr runs, exec, rfl⟩

theorem dma1ChannelWrite_some (tx rx : Channel) : dma1ChannelWrite (some tx) (some rx) =
    [Stmt.clearUserCh, .clearIrqCh, .itConfig tx, .itConfig rx, .orUserCh tx.index, .orUserCh rx.index] ++
      [Stmt.cmd (some rx), .cmd (some tx), .wait, .clearIrqCh, .clearUserCh, .ret] := by
  simp [dma1ChannelWrite, channelIndex_some]

theorem Quiet.still {d : Dma} (quiet : Quiet d) : Still d := ⟨quiet.token, quiet.free, quiet.off⟩

/-- The first six statements build the masks and enable the interrupts. -/
theorem Quiet.prepares {d : Dma} (quiet : Quiet d) (tx rx : Channel) :
    Prepares tx rx [.clearUserCh, .clearIrqCh, .itConfig tx, .itConfig rx, .orUserCh tx.index, .orUserCh rx.index] d := by
  obtain ⟨_, _, token, free, off⟩ := quiet
  have still : ∀ {d' : Dma}, d'.flag = d.flag → d'.suspended = d.suspended → d'.transfer = d.transfer → Still d' :=
    fun flag suspended transfer => ⟨flag.trans token, suspended.trans free, fun c => (congrFun transfer c).trans (off c)⟩
  refine ⟨by simp, _, rfl, still rfl rfl rfl, by simp, _, rfl, still rfl rfl rfl, by simp, _, rfl, still rfl rfl rfl,
    by simp, _, rfl, still rfl rfl rfl, by simp, _, rfl, still rfl rfl rfl, by simp, _, rfl, still rfl rfl rfl, ?_⟩
  have first : Function.update (Function.update d.itEnabled tx true) rx true tx = true := by
    simp [Function.update_apply]
  exact ⟨rfl, rfl, first, Function.update_self ..⟩

/-- Before its first channel starts a call has counted nothing. -/
theorem Still.counting {tx rx : Channel} {d : Dma} (still : Still d) (ready : Prepares tx rx [] d) : Counting tx rx [] [] d where
  own _ mem := nomatch mem
  sub _ mem := nomatch mem
  once := List.nodup_nil
  user := ready.1
  irq := ready.2.1
  token := by simp [still.token]
  raised := ready.2.2
  live c := by simp [still.off c]

/-- Once both interrupts have been taken nothing runs any more. -/
theorem Counting.all_taken {tx rx : Channel} {started irqs : List Channel} {d : Dma} (distinct : tx ≠ rx)
    (counts : Counting tx rx started irqs d) (both : tx ∈ irqs ∧ rx ∈ irqs) :
    irqs.Perm [tx, rx] ∧ ∀ c, d.transfer c = .off := by
  constructor
  · rw [List.perm_ext_iff_of_nodup counts.once (by simp [distinct])]
    exact bits_eq_iff.mp ((masks_eq_iff (fun c mem => counts.own c (counts.sub c mem))).mpr both)
  · intro c
    by_contra running
    obtain ⟨mem, untaken⟩ := (counts.live c).mp running
    rcases counts.own c mem with rfl | rfl
    · exact untaken both.1
    · exact untaken both.2

/-- A call in progress. -/
structure InCall (done : List Mark) (tx rx : Channel) (s : DmaSystem) : Prop where
  distinct : tx ≠ rx
  before : Calls done
  stage : ∃ irqs, s.log = done ++ Mark.enter tx rx :: irqs.map Mark.irq ∧ Stage tx rx irqs s.dma s.todo

section Steps

variable {done : List Mark} {tx rx : Channel} {s s' : DmaSystem}

theorem stage_busy {irqs : List Channel} {d : Dma} {todo : List Stmt} (stage : Stage tx rx irqs d todo) : todo ≠ [] := by
  cases stage with
  | setup still prepares => simp
  | counting pos counts held => cases pos <;> simp
  | settled all still => simp
  | cleared all still irq => simp
  | done all quiet => simp

theorem between_call (between : Between s) (distinct : tx ≠ rx) (go : dmaStep (.call tx rx distinct) s = some s') :
    InCall s.log tx rx s' := by
  simp only [dmaStep] at go
  rw [between.idle] at go
  cases go
  refine ⟨distinct, between.calls, [], rfl, ?_⟩
  rw [dma1ChannelWrite_some]
  exact Stage.setup between.quiet.still (between.quiet.prepares tx rx)

/-- What one statement of the thread does to the stage of its call. -/
theorem Stage.thread {irqs : List Channel} {d d' : Dma} {stmt : Stmt} {rest more : List Stmt} (distinct : tx ≠ rx)
    (stage : Stage tx rx irqs d (stmt :: rest)) (runs : d.suspended = false) (exec : stmt.exec d = some (d', more)) :
    (stmt ≠ .ret ∧ Stage tx rx irqs d' (more ++ rest)) ∨
      (stmt = .ret ∧ more ++ rest = [] ∧ irqs.Perm [tx, rx] ∧ Quiet d') := by
  generalize eq : stmt :: rest = todo at stage
  cases stage with
  | @setup _ before still prepares =>
    left
    cases before with
    | nil =>
      cases eq
      cases exec
      have counts := (still.counting prepares).start (Or.inr rfl) (fun mem => nomatch mem)
      exact ⟨by simp, Stage.counting Position.second counts (iff_of_false (by simp [still.free]) (by simp))⟩
    | cons first before =>
      cases eq
      obtain ⟨ordinary, d'', exec', still', prepares'⟩ := prepares
      rw [exec'] at exec
      cases exec
      exact ⟨ordinary, Stage.setup still' prepares'⟩
  | counting pos counts held =>
    left
    cases pos with
    | second =>
      cases eq
      cases exec
      have counts' := counts.start (Or.inl rfl) (by simpa using distinct)
      exact ⟨by simp, Stage.counting Position.started counts' (iff_of_false (by simp [runs]) (by simp))⟩
    | started =>
      cases eq
      refine ⟨by simp, ?_⟩
      by_cases token : d.flag = true
      · -- both interrupts came before the wait: the thread takes the token and goes on
        rw [Stmt.exec, if_pos token] at exec
        cases exec
        obtain ⟨all, off⟩ := counts.all_taken distinct (counts.token.mp token)
        exact Stage.settled all ⟨rfl, runs, off⟩
      · rw [Stmt.exec, if_neg token, if_neg (Bool.eq_false_iff.mp runs)] at exec
        cases exec
        have counts' : Counting tx rx [tx, rx] irqs { d with suspended := true } :=
          ⟨counts.own, counts.sub, counts.once, counts.user, counts.irq, counts.token, counts.raised, counts.live⟩
        refine Stage.counting Position.waiting counts' (iff_of_true rfl ⟨rfl, fun both => ?_⟩)
        apply token
        exact counts.token.mpr both
    | waiting =>
      cases eq
      cases exec
      -- a thread that runs again was woken by the second interrupt
      have both : tx ∈ irqs ∧ rx ∈ irqs := by
        by_contra early
        have waits := held.mpr ⟨rfl, early⟩
        rw [runs] at waits
        cases waits
      obtain ⟨all, off⟩ := counts.all_taken distinct both
      exact ⟨by simp, Stage.settled all ⟨rfl, runs, off⟩⟩
  | settled all still =>
    cases eq
    cases exec
    exact Or.inl ⟨by simp, Stage.cleared all ⟨still.token, still.free, still.off⟩ rfl⟩
  | cleared all still irq =>
    cases eq
    cases exec
    exact Or.inl ⟨by simp, Stage.done all ⟨rfl, irq, still.token, still.free, still.off⟩⟩
  | done all quiet =>
    cases eq
    cases exec
    exact Or.inr ⟨rfl, rfl, all, quiet⟩

theorem inCall_thread (inCall : InCall done tx rx s) (go : dmaStep .thread s = some s') :
    InCall done tx rx s' ∨ Returned done tx rx s' := by
  obtain ⟨distinct, before, irqs, log, stage⟩ := inCall
  obtain ⟨stmt, rest, d, more, todo, runs, exec, rfl⟩ := thread_split go
  rw [todo] at stage
  rcases stage.thread distinct runs exec with ⟨ordinary, stage'⟩ | ⟨last, idle, all, quiet⟩
  · refine Or.inl ⟨distinct, before, irqs, ?_, stage'⟩
    rw [if_neg ordinary, List.append_nil, log]
  · have log' : s.log ++ (if stmt = .ret then [.leave] else []) = done ++ Mark.enter tx rx :: irqs.map Mark.irq ++ [Mark.leave] := by
      rw [if_pos last, log]
    exact Or.inr ⟨⟨idle, log' ▸ Calls.call before all, quiet⟩, irqs, log', all⟩

/-- Only started channels take part in what the hardware does. -/
theorem Stage.live {irqs : List Channel} {d : Dma} {todo : List Stmt} {c : Channel} (stage : Stage tx rx irqs d todo)
    (busy : d.transfer c ≠ .off) : ∃ started, Position tx rx started todo ∧ Counting tx rx started irqs d ∧
      (d.suspended = true ↔ todo.head? = some .awake ∧ ¬ (tx ∈ irqs ∧ rx ∈ irqs)) := by
  cases stage with
  | setup still prepares => exact absurd (still.off c) busy
  | counting pos counts held => exact ⟨_, pos, counts, held⟩
  | settled all still => exact absurd (still.off c) busy
  | cleared all still irq => exact absurd (still.off c) busy
  | done all quiet => exact absurd (quiet.off c) busy

theorem inCall_complete {c : Channel} (inCall : InCall done tx rx s) (go : dmaStep (.complete c) s = some s') :
    InCall done tx rx s' := by
  obtain ⟨distinct, before, irqs, log, stage⟩ := inCall
  obtain ⟨runs, same⟩ := Option.ite_none_right_eq_some.mp go
  cases same
  obtain ⟨started, pos, counts, held⟩ := stage.live (c := c) (by rw [runs]; decide)
  exact ⟨distinct, before, irqs, log, Stage.counting pos (counts.complete runs) held⟩

theorem inCall_irq {c : Channel} (inCall : InCall done tx rx s) (go : dmaStep (.irq c) s = some s') :
    InCall done tx rx s' := by
  obtain ⟨distinct, before, irqs, log, stage⟩ := inCall
  obtain ⟨⟨ended, _⟩, same⟩ := Option.ite_none_right_eq_some.mp go
  cases same
  obtain ⟨started, pos, counts, held⟩ := stage.live (c := c) (by rw [ended]; decide)
  obtain ⟨counts', woken⟩ := counts.irq_taken ended
  refine ⟨distinct, before, irqs ++ [c], by simp [log], Stage.counting pos counts' ?_⟩
  rw [woken, held]
  constructor
  · exact fun ⟨⟨waits, _⟩, early⟩ => ⟨waits, early⟩
  · exact fun ⟨waits, early⟩ => ⟨⟨waits, fun both =>
      early ⟨List.mem_append_left _ both.1, List.mem_append_left _ both.2⟩⟩, early⟩

/-- A step of a call in progress. -/
theorem inCall_step {e : DmaEvent} (inCall : InCall done tx rx s) (go : dmaStep e s = some s') :
    InCall done tx rx s' ∨ Returned done tx rx s' := by
  cases e with
  | call tx' rx' distinct =>
    obtain ⟨_, _, irqs, _, stage⟩ := inCall
    simp only [dmaStep] at go
    split at go
    · next idle => exact absurd idle (stage_busy stage)
    · cases go
  | thread => exact inCall_thread inCall go
  | complete c => exact Or.inl (inCall_complete inCall go)
  | irq c => exact Or.inl (inCall_irq inCall go)

/-- A channel that runs, or whose interrupt is still to be taken, can take a step. -/
theorem channel_can {started irqs : List Channel} {c : Channel} (counts : Counting tx rx started irqs s.dma)
    (mem : c ∈ started) (untaken : c ∉ irqs) : ∃ e s', dmaStep e s = some s' := by
  have live := (counts.live c).mpr ⟨mem, untaken⟩
  cases at_ : s.dma.transfer c with
  | off => exact absurd at_ live
  | running => exact ⟨.complete c, _, if_pos at_⟩
  | complete =>
    have raised : s.dma.itEnabled c = true := by
      rcases counts.own c mem with rfl | rfl
      · exact counts.raised.1
      · exact counts.raised.2
    exact ⟨.irq c, _, if_pos ⟨at_, raised⟩⟩

/-- The thread's next statement does not fail. -/
theorem Stage.exec_some {irqs : List Channel} {d : Dma} {stmt : Stmt} {rest : List Stmt}
    (stage : Stage tx rx irqs d (stmt :: rest)) (runs : d.suspended = false) : ∃ r, stmt.exec d = some r := by
  generalize eq : stmt :: rest = todo at stage
  cases stage with
  | @setup _ before still prepares =>
    cases before with
    | nil =>
      cases eq
      exact ⟨_, rfl⟩
    | cons first before =>
      cases eq
      obtain ⟨_, d', exec, _⟩ := prepares
      exact ⟨_, exec⟩
  | counting pos counts held =>
    cases pos with
    | second =>
      cases eq
      exact ⟨_, rfl⟩
    | started =>
      cases eq
      cases token : d.flag with
      | true => exact ⟨_, if_pos token⟩
      | false => exact ⟨_, (if_neg (by simp [token])).trans (if_neg (by simp [runs]))⟩
    | waiting =>
      cases eq
      exact ⟨_, rfl⟩
  | settled all still =>
    cases eq
    exact ⟨_, rfl⟩
  | cleared all still irq =>
    cases eq
    exact ⟨_, rfl⟩
  | done all quiet =>
    cases eq
    exact ⟨_, rfl⟩

/-- The thread is suspended only in its wait, for an interrupt still to come. -/
theorem Stage.suspended {irqs : List Channel} {d : Dma} {todo : List Stmt} (stage : Stage tx rx irqs d todo)
    (held : d.suspended = true) : ∃ c, Counting tx rx [tx, rx] irqs d ∧ c ∈ [tx, rx] ∧ c ∉ irqs := by
  cases stage with
  | setup still prepares => exact absurd (still.free.symm.trans held) Bool.false_ne_true
  | settled all still => exact absurd (still.free.symm.trans held) Bool.false_ne_true
  | cleared all still irq => exact absurd (still.free.symm.trans held) Bool.false_ne_true
  | done all quiet => exact absurd (quiet.free.symm.trans held) Bool.false_ne_true
  | counting pos counts waits =>
    obtain ⟨head, early⟩ := waits.mp held
    cases pos with
    | second => cases head
    | started => cases head
    | waiting =>
      rcases Classical.not_and_iff_not_or_not.mp early with untaken | untaken
      · exact ⟨tx, counts, by simp, untaken⟩
      · exact ⟨rx, counts, by simp, untaken⟩

/-- Some step of a call in progress is always possible. -/
theorem inCall_can (inCall : InCall done tx rx s) : ∃ e s', dmaStep e s = some s' := by
  obtain ⟨_, _, irqs, _, stage⟩ := inCall
  cases free : s.dma.suspended with
  | true =>
    obtain ⟨c, counts, mem, untaken⟩ := stage.suspended free
    exact channel_can counts mem untaken
  | false =>
    obtain ⟨stmt, rest, todo⟩ := List.exists_cons_of_ne_nil (stage_busy stage)
    rw [todo] at stage
    obtain ⟨⟨d, more⟩, exec⟩ := stage.exec_some free
    refine ⟨.thread, ⟨d, more ++ rest, s.log ++ if stmt = .ret then [.leave] else []⟩, ?_⟩
    simp only [dmaStep, todo, free, exec, Bool.false_eq_true, if_false, Option.map_some]

end Steps

/-! ## The end of a call -/

def Stmt.weight : Stmt → Nat
  | .cmd _ => 3
  | .wait => 2
  | _ => 1

def Transfer.weight : Transfer → Nat
  | .off => 0
  | .running => 2
  | .complete => 1

/-- What is left to do: the statements of the thread and the steps of the channels. -/
def rank (s : DmaSystem) : Nat :=
  (s.todo.map Stmt.weight).sum + (ch32DmaConfig.map fun c => (s.dma.transfer c).weight).sum

theorem transfers_update (f : Channel → Transfer) (c : Channel) (x : Transfer) :
    (ch32DmaConfig.map fun e => (Function.update f c x e).weight).sum + (f c).weight =
      (ch32DmaConfig.map fun e => (f e).weight).sum + x.weight := by
  cases c <;> simp [ch32DmaConfig, Function.update_apply] <;> omega

/-- A statement leaves less to do. -/
theorem exec_weight {stmt : Stmt} {d d' : Dma} {more : List Stmt} (exec : stmt.exec d = some (d', more)) :
    (more.map Stmt.weight).sum + (ch32DmaConfig.map fun c => (d'.transfer c).weight).sum <
      stmt.weight + (ch32DmaConfig.map fun c => (d.transfer c).weight).sum := by
  cases stmt with
  | clearUserCh => cases exec; simp [Stmt.weight]
  | clearIrqCh => cases exec; simp [Stmt.weight]
  | itConfig c => cases exec; simp [Stmt.weight]
  | orUserCh i => cases exec; simp [Stmt.weight]
  | awake => cases exec; simp [Stmt.weight]
  | ret => cases exec; simp [Stmt.weight]
  | wait =>
    simp only [Stmt.exec] at exec
    split at exec
    · cases exec; simp [Stmt.weight]
    · split at exec
      · cases exec
      · cases exec; simp [Stmt.weight]
  | cmd c =>
    cases c with
    | none => cases exec
    | some c =>
      cases exec
      have := transfers_update d.transfer c .running
      simp only [Stmt.weight, Transfer.weight, List.map_nil, List.sum_nil] at this ⊢
      omega

/-- Every step but a new call lowers the rank. -/
theorem rank_falls {e : DmaEvent} {s s' : DmaSystem} (busy : s.todo ≠ []) (go : dmaStep e s = some s') : rank s' < rank s := by
  cases e with
  | call tx rx distinct =>
    simp only [dmaStep] at go
    split at go
    · next idle => exact absurd idle busy
    · cases go
  | thread =>
    obtain ⟨stmt, rest, d, more, todo, _, exec, rfl⟩ := thread_split go
    have less := exec_weight exec
    simp only [rank, todo, List.map_append, List.map_cons, List.sum_append, List.sum_cons]
    omega
  | complete c =>
    obtain ⟨runs, same⟩ := Option.ite_none_right_eq_some.mp go
    cases same
    have := transfers_update s.dma.transfer c .complete
    simp only [rank, runs, Transfer.weight] at this ⊢
    omega
  | irq c =>
    obtain ⟨⟨ended, _⟩, same⟩ := Option.ite_none_right_eq_some.mp go
    cases same
    have off : (handlerOf c s.dma).transfer = Function.update s.dma.transfer c .off := by
      rw [handlerOf_eq, irqHandler, if_pos ended]
      dsimp only [rtCompletionDone]
      split
      · split <;> rfl
      · rfl
    have := transfers_update s.dma.transfer c .off
    simp only [rank, ended, off, Transfer.weight] at this ⊢
    omega

/-- A call in progress comes to its end in every order of the steps. -/
theorem inCall_returns {done : List Mark} {tx rx : Channel} {s : DmaSystem} (inCall : InCall done tx rx s) :
    Run.Inevitably dmaStep (Returned done tx rx) s := by
  apply Run.inevitably_of_rank (InCall done tx rx) rank
  · intro t now _
    exact inCall_can now
  · intro t e t' now _ go
    obtain ⟨irqs, _, stage⟩ := now.stage
    exact ⟨inCall_step now go, rank_falls (stage_busy stage) go⟩
  · exact inCall

/-- The interrupts taken are of the call's own channels, each at most once. -/
theorem Stage.subperm {tx rx : Channel} {irqs : List Channel} {d : Dma} {todo : List Stmt} (stage : Stage tx rx irqs d todo) :
    irqs.Subperm [tx, rx] := by
  cases stage with
  | setup still prepares => exact List.nil_subperm
  | counting pos counts held =>
    apply List.subperm_of_subset counts.once
    intro c mem
    exact List.mem_pair.mpr (counts.own c (counts.sub c mem))
  | settled all still => exact all.subperm
  | cleared all still irq => exact all.subperm
  | done all quiet => exact all.subperm

theorem InCall.within {done : List Mark} {tx rx : Channel} {s : DmaSystem} (inCall : InCall done tx rx s) : Within done tx rx s := by
  obtain ⟨_, before, irqs, log, stage⟩ := inCall
  exact ⟨stage_busy stage, before, irqs, log, stage.subperm⟩

theorem dmaInit_between : Between dmaInit := ⟨rfl, Calls.none, rfl, rfl, rfl, rfl, fun _ => rfl⟩

/-- In every state reached the thread is between two calls or inside one. -/
theorem reached_inCall {s : DmaSystem} (reached : Run.Reachable dmaStep dmaInit s) :
    Between s ∨ ∃ done tx rx, InCall done tx rx s := by
  apply Run.reachable_inv (fun s => Between s ∨ ∃ done tx rx, InCall done tx rx s) _ (Or.inl dmaInit_between) reached
  rintro s e s' (between | ⟨done, tx, rx, inCall⟩) go
  · cases e with
    | call tx rx distinct => exact Or.inr ⟨_, tx, rx, between_call between distinct go⟩
    | thread =>
      obtain ⟨_, _, _, _, todo, _⟩ := thread_split go
      exact absurd (between.idle.symm.trans todo) (by simp)
    | complete c =>
      obtain ⟨runs, _⟩ := Option.ite_none_right_eq_some.mp go
      exact absurd ((between.quiet.off c).symm.trans runs) (by decide)
    | irq c =>
      obtain ⟨⟨ended, _⟩, _⟩ := Option.ite_none_right_eq_some.mp go
      exact absurd ((between.quiet.off c).symm.trans ended) (by decide)
  · rcases inCall_step inCall go with still | returned
    · exact Or.inr ⟨done, tx, rx, still⟩
    · exact Or.inl returned.1

/-- **DMA completion**: in every state the calls made so far have each returned once,
after the interrupts of their own two channels, and the thread is between two calls
with nothing left of the last, or inside a call that is bound to return so. -/
theorem dmaWrite_calls {s : DmaSystem} (reached : Run.Reachable dmaStep dmaInit s) :
    Between s ∨ ∃ done tx rx, Within done tx rx s ∧ Run.Inevitably dmaStep (Returned done tx rx) s := by
  rcases reached_inCall reached with between | ⟨done, tx, rx, inCall⟩
  · exact Or.inl between
  · exact Or.inr ⟨done, tx, rx, inCall.within, inCall_returns inCall⟩

/-- `drv_spi_write`: the receive channel ends before the other is started, the
transmit channel while the thread waits. -/
def spiTransfer : List DmaEvent :=
  DmaEvent.call .channel3 .channel2 (by decide) :: List.replicate 7 DmaEvent.thread ++
    [DmaEvent.complete .channel2, .irq .channel2] ++ List.replicate 2 DmaEvent.thread ++
    [DmaEvent.complete .channel3, .irq .channel3] ++ List.replicate 4 DmaEvent.thread

theorem dmaWrite_spi_transfer : ∃ s, Run.run dmaStep spiTransfer dmaInit = some s ∧
    s.log = [.enter .channel3 .channel2, .irq .channel2, .irq .channel3, .leave] ∧
    (Between s ∨ ∃ done tx rx, Within done tx rx s ∧ Run.Inevitably dmaStep (Returned done tx rx) s) :=
  ⟨_, rfl, rfl, dmaWrite_calls ⟨spiTransfer, rfl⟩⟩

end OffLineProgrammer.Board
