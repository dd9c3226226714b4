import OffLineProgrammer.Kernel.QueueRuns
import OffLineProgrammer.UsbDisk.UsbApp

/-!
# The queue of the USB application

`UsbApp.c` has one thread that receives and an interrupt handler that sends. The handler
is not interrupted by the thread but may come between any two steps of it. What the two
see of the kernel's queue is then what they see of a list of ten messages, with one
exception: while the thread copies a message, its node is not free, and a tenth message
that the list would take is refused.
-/

namespace OffLineProgrammer.Kernel
set_option autoImplicit false
open OffLineProgrammer.Lib
open OffLineProgrammer.UsbDisk (Msg MsgQueue)

/-! ## The list of messages -/

/-- Where the thread stands in `rt_mq_recv`. -/
inductive Receiver where
  | idle
  | waiting
  | awake
  | copying (m : Msg) (k : Nat)

/-- The node that the thread copies from is not free. -/
def Receiver.nodes : Receiver → Nat
  | .copying _ _ => 1
  | _ => 0

/-- A message wakes the thread if it waits. -/
def Receiver.woken : Receiver → Receiver
  | .waiting => .awake
  | x => x

/-- The list, the thread, and the messages it has been given. -/
structure AppQueue where
  mq : MsgQueue
  thread : Receiver
  handled : List Msg

/-- What happens: the handler runs, the thread calls `rt_mq_recv`, the thread goes on. -/
inductive Use where
  | handler (m : Msg)
  | recv
  | goOn

namespace AppQueue

/-- The thread takes the first message, or waits for one. -/
def attempt (a : AppQueue) : AppQueue :=
  match a.mq.msgs with
  | [] => { a with thread := .waiting }
  | m :: _ => { a with mq := a.mq.rest, thread := .copying m 0 }

def step (size : Nat) (a : AppQueue) : Use → AppQueue
  | .handler m => if a.mq.msgs.length + a.thread.nodes = 10 then a else { a with mq := a.mq.send m, thread := a.thread.woken }
  | .recv => match a.thread with
    | .idle => a.attempt
    | _ => a
  | .goOn => match a.thread with
    | .awake => a.attempt
    | .copying m k => if k < size then { a with thread := .copying m (k + 1) } else
      { a with thread := .idle, handled := a.handled ++ [m] }
    | _ => a

def start : AppQueue := ⟨UsbDisk.App.start.mq, .idle, []⟩

/-- A message is put in the list as `UsbApp` puts it there, unless nine wait while the
thread copies one. -/
theorem step_handler (size : Nat) (a : AppQueue) (m : Msg) :
    (a.step size (.handler m)).mq = if a.mq.msgs.length = 9 ∧ a.thread.nodes = 1 then a.mq else a.mq.send m := by
  have one : a.thread.nodes ≤ 1 := by
    cases a.thread with
    | copying => exact Nat.le_refl 1
    | _ => exact Nat.zero_le 1
  have bound := a.mq.bound
  rw [step]
  by_cases full : a.mq.msgs.length + a.thread.nodes = 10
  · rw [if_pos full]
    by_cases nine : a.mq.msgs.length = 9 ∧ a.thread.nodes = 1
    · rw [if_pos nine]
    · rw [if_neg nine, UsbDisk.App.send_full (by omega)]
  · rw [if_neg full, if_neg (by omega)]

end AppQueue

/-- A handler's call to its end, or one step of the thread. -/
def Use.events (encode : Msg → List Byte) (size : Nat) : Use → List Event
  | .handler m => .call 1 (.send (encode m) 0) :: List.replicate (size + 2) (.run 1 0)
  | .recv => [.call 0 (.recv size (-1))]
  | .goOn => [.run 0 0]

/-! ## Runs of some events -/

section Runs

variable {priority : Nat → Nat} {s u v : Sys} {f g h : Fifo} {es fs : List Event} {e : Event}

/-- Some events lead from one state to another, and are seen to do so. -/
structure Goes (priority : Nat → Nat) (es : List Event) (s : Sys) (f : Fifo) (u : Sys) (g : Fifo) : Prop where
  run : Run.run (Sys.step priority) es s = some u
  seen : Run.run (Fifo.step s.mq.msgSize) (Run.trace (Sys.step priority) Sys.observe es s) f = some g
  shape : u.mq.shape = s.mq.shape
  inv : ∃ frees nodes, Inv u g frees nodes

theorem Goes.none (inv : ∃ frees nodes, Inv s f frees nodes) : Goes priority [] s f s f := ⟨rfl, rfl, rfl, inv⟩

theorem Goes.msgSize (goes : Goes priority es s f u g) : u.mq.msgSize = s.mq.msgSize := congrArg (fun x => x.2.1) goes.shape

/-- What one event leads to, as far as it is known. -/
theorem Goes.one (inv : ∃ frees nodes, Inv s f frees nodes) (go : Sys.step priority e s = some u)
    (seen : Run.run (Fifo.step s.mq.msgSize) (s.observe e) f = some g) : Goes priority [e] s f u g := by
  obtain ⟨frees, nodes, inv⟩ := inv
  obtain ⟨u', g', frees', nodes', same, shape, seen', inv'⟩ := inv.step priority e
  obtain rfl := Option.some.inj (go.symm.trans same)
  obtain rfl := Option.some.inj (seen.symm.trans seen')
  refine ⟨by rw [Run.run_cons go, Run.run_nil], ?_, shape, frees', nodes', inv'⟩
  rw [Run.trace, go]
  change Run.run _ (s.observe e ++ []) f = some g
  rw [List.append_nil]
  exact seen

theorem trace_append (first : Run.run (Sys.step priority) es s = some u) :
    Run.trace (Sys.step priority) Sys.observe (es ++ fs) s =
      Run.trace (Sys.step priority) Sys.observe es s ++ Run.trace (Sys.step priority) Sys.observe fs u := by
  induction es generalizing s with
  | nil =>
    cases first
    rfl
  | cons e es ih =>
    obtain ⟨t, next, rest⟩ := Run.run_split first
    rw [List.cons_append, Run.trace, Run.trace, next]
    change _ ++ Run.trace _ _ (es ++ fs) t = (_ ++ Run.trace _ _ es t) ++ _
    rw [ih rest, List.append_assoc]

theorem Goes.append (first : Goes priority es s f u g) (rest : Goes priority fs u g v h) : Goes priority (es ++ fs) s f v h := by
  refine ⟨(Run.run_append first.run).trans rest.run, ?_, rest.shape.trans first.shape, rest.inv⟩
  rw [trace_append first.run, Run.run_append first.seen, ← first.msgSize]
  exact rest.seen

end Runs

/-! ## A call that is not interrupted -/

section Alone

variable {priority : Nat → Nat} {s u v : Sys} {f g : Fifo} {t : Nat} {x y : Task} {buffer : List Byte}

theorem resumeReceiver_nobody (nobody : s.mq.receivers = []) : s.resumeReceiver = s := by
  rw [Sys.resumeReceiver, nobody]

theorem resumeSender_nobody (nobody : s.mq.senders = []) : s.resumeSender = s := by
  rw [Sys.resumeSender, nobody]

/-- A task has come to a new place while the others, the lists and the count stayed. -/
structure Came (t : Nat) (x : Task) (s u : Sys) : Prop where
  tasks : u.tasks = s.tasks.set t x
  receivers : u.mq.receivers = s.mq.receivers
  senders : u.mq.senders = s.mq.senders
  entry : u.mq.entry = s.mq.entry

theorem Came.trans (first : Came t x s u) (rest : Came t y u v) : Came t y s v where
  tasks := by rw [rest.tasks, first.tasks, List.set_set]
  receivers := rest.receivers.trans first.receivers
  senders := rest.senders.trans first.senders
  entry := rest.entry.trans first.entry

theorem Came.here (came : Came t x s u) (there : s.tasks[t]? = some y) : u.tasks[t]? = some x := by
  obtain ⟨less, -⟩ := List.getElem?_eq_some_iff.mp there
  rw [came.tasks, List.getElem?_set_self less]

/-- The bytes are copied one after the other. -/
theorem fill_runs (priority : Nat → Nat) (j : Nat) {n k : Nat} (inv : ∃ frees nodes, Inv s f frees nodes)
    (here : s.tasks[t]? = some (.filling n false buffer k)) (left : k + j = buffer.length) :
    ∃ u, Goes priority (List.replicate j (.run t 0)) s f u f ∧ Came t (.filling n false buffer buffer.length) s u := by
  induction j generalizing s k with
  | zero =>
    obtain rfl : k = buffer.length := left
    obtain ⟨less, same⟩ := List.getElem?_eq_some_iff.mp here
    refine ⟨s, .none inv, ?_, rfl, rfl, rfl⟩
    rw [← same, List.set_getElem_self]
  | succ j ih =>
    have more : k < buffer.length := by omega
    have quiet : s.observe (.run t 0) = [] := by simp only [Sys.observe, here, if_pos more]
    obtain ⟨u, go, came⟩ : ∃ u, Sys.step priority (.run t 0) s = some u ∧ Came t (.filling n false buffer (k + 1)) s u := by
      simp only [Sys.step, Sys.goOn, here, if_pos more]
      exact ⟨_, rfl, rfl, rfl, rfl, rfl⟩
    have first : Goes priority [.run t 0] s f u f := .one inv go (by rw [quiet]; rfl)
    obtain ⟨v, rest, came'⟩ := ih first.inv (came.here here) (by omega)
    exact ⟨v, first.append rest, came.trans came'⟩

/-- A task outside of the calls stays there. -/
theorem idle_runs (j : Nat) {last : Option Returned} (inv : ∃ frees nodes, Inv s f frees nodes)
    (here : s.tasks[t]? = some (.idle last)) : Goes priority (List.replicate j (.run t 0)) s f s f := by
  induction j with
  | zero => exact .none inv
  | succ j ih =>
    have quiet : s.observe (.run t 0) = [] := by simp only [Sys.observe, here]
    have stays : Sys.step priority (.run t 0) s = some s := by simp only [Sys.step, Sys.goOn, here]
    have first : Goes priority [.run t 0] s f s f := .one inv stays (by rw [quiet]; rfl)
    exact first.append ih

/-- **A send that is not interrupted**: with a free node the message is in the queue at its
end, else the call is refused and nothing has changed. -/
theorem send_alone (priority : Nat → Nat) {last : Option Returned} (inv : ∃ frees nodes, Inv s f frees nodes) (here : s.tasks[t]? = some (.idle last))
    (fits : buffer.length ≤ s.mq.msgSize) :
    (s.mq.free = none → ∃ u, Goes priority (.call t (.send buffer 0) :: List.replicate (buffer.length + 2) (.run t 0)) s f u f ∧
      Came t (.idle (some .efull)) s u) ∧
    (s.mq.free ≠ none → ∃ u : Sys, Goes priority (.call t (.send buffer 0) :: List.replicate (buffer.length + 2) (.run t 0)) s f
      u.resumeReceiver { f with queue := f.queue ++ [buffer] } ∧ u.tasks = s.tasks.set t (.idle (some (.eok []))) ∧
      u.mq.receivers = s.mq.receivers ∧ u.mq.senders = s.mq.senders) := by
  have short : decide (buffer.length ≤ s.mq.msgSize) = true := decide_eq_true fits
  have unseen : s.observe (.call t (.send buffer 0)) = [] := by
    simp only [Sys.observe, here, Call.fits, short, if_true, Sys.attemptSeen]
  constructor
  · intro full
    have go : Sys.step priority (.call t (.send buffer 0)) s = some (s.become t (.idle (some .efull))) := by
      simp only [Sys.step, here, Sys.enter, Sys.attempt, Call.fits, short, if_true, full]
    have first : Goes priority [.call t (.send buffer 0)] s f (s.become t (.idle (some .efull))) f :=
      .one inv go (by rw [unseen]; rfl)
    exact ⟨s.become t (.idle (some .efull)), first.append (idle_runs (buffer.length + 2) first.inv (become_same here)), rfl, rfl, rfl, rfl⟩
  · intro some
    obtain ⟨n, free⟩ := Option.ne_none_iff_exists'.mp some
    -- the node is taken, its link cleared, and the message copied
    obtain ⟨s₁, go₁, came₁⟩ : ∃ u, Sys.step priority (.call t (.send buffer 0)) s = .some u ∧ Came t (.taken n buffer) s u := by
      simp only [Sys.step, here, Sys.enter, Sys.attempt, Call.fits, short, if_true, free]
      exact ⟨_, rfl, rfl, rfl, rfl, rfl⟩
    have first : Goes priority [.call t (.send buffer 0)] s f s₁ f := .one inv go₁ (by rw [unseen]; rfl)
    have here₁ := came₁.here here
    obtain ⟨s₂, go₂, came₂⟩ : ∃ u, Sys.step priority (.run t 0) s₁ = .some u ∧ Came t (.filling n false buffer 0) s₁ u := by
      simp only [Sys.step, Sys.goOn, here₁]
      exact ⟨_, rfl, rfl, rfl, rfl, rfl⟩
    have unseen₁ : s₁.observe (.run t 0) = [] := by simp only [Sys.observe, here₁]
    have second : Goes priority [.run t 0] s₁ f s₂ f := .one first.inv go₂ (by rw [unseen₁]; rfl)
    have here₂ := came₂.here here₁
    obtain ⟨s₃, copied, came₃⟩ := fill_runs priority buffer.length second.inv here₂ (Nat.zero_add _)
    have here₃ := came₃.here here₂
    -- and then linked
    obtain ⟨frees, nodes, inv₃⟩ := copied.inv
    have room := inv₃.room here₃ rfl
    have counted : (s₃.mq.linkTail n).count = .some { s₃.mq.linkTail n with entry := s₃.mq.entry + 1 } := count_linked room
    have whole : ¬ buffer.length < buffer.length := Nat.lt_irrefl _
    have go₄ : Sys.step priority (.run t 0) s₃ = .some (s₃.link t n false) := by
      simp only [Sys.step, Sys.goOn, here₃, if_neg whole]
    have seen₃ : s₃.observe (.run t 0) = [.put buffer] := by
      simp only [Sys.observe, here₃, if_neg whole, if_pos room, Bool.false_eq_true, if_false]
    have last : Goes priority [.run t 0] s₃ f (s₃.link t n false) { f with queue := f.queue ++ [buffer] } :=
      .one copied.inv go₄ (by rw [seen₃]; rfl)
    have came := (came₁.trans came₂).trans came₃
    have events : (Event.call t (.send buffer 0) :: List.replicate (buffer.length + 2) (.run t 0)) =
        [.call t (.send buffer 0)] ++ ([.run t 0] ++ (List.replicate buffer.length (.run t 0) ++ [.run t 0])) := by
      rw [← List.replicate_succ', List.singleton_append, List.singleton_append, ← List.replicate_succ]
    refine ⟨Sys.become t (.idle (.some (.eok []))) { s₃ with mq := { s₃.mq.linkTail n with entry := s₃.mq.entry + 1 } },
      ?_, ?_, came.receivers, came.senders⟩
    · rw [events]
      have linked : s₃.link t n false = Sys.resumeReceiver (Sys.become t (.idle (.some (.eok [])))
          { s₃ with mq := { s₃.mq.linkTail n with entry := s₃.mq.entry + 1 } }) := by
        simp only [Sys.link, Bool.false_eq_true, if_false, counted]
      rw [← linked]
      exact first.append (second.append (copied.append last))
    · change s₃.tasks.set t _ = _
      rw [came.tasks, List.set_set]

end Alone

/-! ## The list and the kernel's queue -/

section Shows

variable (encode : Msg → List Byte) (size : Nat)

/-- Where the thread stands, in the kernel's words. -/
def Receiver.Stands (f : Fifo) (a : AppQueue) (x : Task) (receivers : List Nat) : Receiver → Prop
  | .idle => x = .idle (a.handled.getLast?.map fun m => .eok (encode m)) ∧ receivers = []
  | .waiting => x = .suspended (.recv size (-1)) ∧ receivers = [0] ∧ a.mq.msgs = []
  | .awake => x = .resumed (.recv size (-1)) ∧ receivers = []
  | .copying m k => (∃ n got, x = .draining n size got ∧ got.length = k ∧ f.received 0 = some (encode m, size)) ∧ receivers = []

/-- The kernel's queue with its thread and its handler shows the list. -/
structure Shows (s : Sys) (f : Fifo) (a : AppQueue) : Prop where
  inv : ∃ frees nodes, Inv s f frees nodes
  shape : s.mq.shape = (.fifo, size, 10)
  queue : f.queue = a.mq.msgs.map encode
  senders : s.mq.senders = []
  tasks : ∃ x last, s.tasks = [x, .idle last] ∧ a.thread.Stands encode size f a x s.mq.receivers

variable {encode size} {priority : Nat → Nat} {s : Sys} {f : Fifo} {a : AppQueue}

theorem Shows.msgSize (shows' : Shows encode size s f a) : s.mq.msgSize = size := congrArg (fun x => x.2.1) shows'.shape

theorem Shows.entry (shows' : Shows encode size s f a) : s.mq.entry = a.mq.msgs.length := by
  obtain ⟨frees, nodes, inv⟩ := shows'.inv
  rw [inv.entry, inv.contents.length_eq, shows'.queue, List.length_map]

/-- A node is free exactly while there are fewer than ten messages, with the one that is copied. -/
theorem Shows.free (shows' : Shows encode size s f a) :
    (s.mq.free = none ↔ a.mq.msgs.length + a.thread.nodes = 10) ∧ a.mq.msgs.length + a.thread.nodes ≤ 10 := by
  obtain ⟨frees, nodes, inv⟩ := shows'.inv
  obtain ⟨x, last, tasks, stands⟩ := shows'.tasks
  have max : s.mq.maxMsgs = 10 := congrArg (fun x => x.2.2) shows'.shape
  have shares := inv.shares
  rw [← inv.entry, shows'.entry, max] at shares
  have held : a.thread.nodes = s.held.length := by
    unfold Sys.held
    rw [tasks]
    cases mode : a.thread with
    | idle =>
      rw [mode] at stands
      rw [stands.1]
      rfl
    | waiting =>
      rw [mode] at stands
      rw [stands.1]
      rfl
    | awake =>
      rw [mode] at stands
      rw [stands.1]
      rfl
    | copying m k =>
      rw [mode] at stands
      obtain ⟨⟨n, got, rfl, -, -⟩, -⟩ := stands
      rfl
  rw [inv.free.empty, ← List.length_eq_zero_iff, held]
  constructor
  · omega
  · omega

theorem unlink_lists {n : Nat} {mq mq' : Mq} (unlinked : mq.unlink = some (n, mq')) :
    mq'.receivers = mq.receivers ∧ mq'.senders = mq.senders := by
  obtain ⟨k, head, same⟩ := Option.map_eq_some_iff.mp unlinked
  cases same
  exact ⟨rfl, rfl⟩

/-- The thread takes a message or waits, from wherever it comes. -/
theorem Shows.attempt (shows' : Shows encode size s f a) {x : Task} {last : Option Returned} (tasks : s.tasks = [x, .idle last])
    (nobody : s.mq.receivers = []) {e : Event} (seen : s.observe e = Sys.attemptSeen 0 (.recv size (-1)) s)
    (go : Sys.step priority e s = s.attempt priority 0 (.recv size (-1))) :
    ∃ u g, Goes priority [e] s f u g ∧ Shows encode size u g a.attempt := by
  have shape := shows'.shape
  have entry := shows'.entry
  cases list : a.mq.msgs with
  | nil =>
    rw [list, List.length_nil] at entry
    have suspends : Sys.step priority e s = some (Sys.become 0 (.suspended (.recv size (-1)))
        { s with mq := { s.mq with receivers := ipcListSuspend s.mq.flag priority s.mq.receivers 0 } }) := by
      rw [go]
      simp only [Sys.attempt, entry, if_true]
      rfl
    have goes : Goes priority [e] s f _ f := .one shows'.inv suspends (by
      rw [seen]
      simp only [Sys.attemptSeen, entry, if_true]
      rfl)
    refine ⟨_, f, goes, goes.inv, goes.shape.trans shape, ?_, shows'.senders, ?_⟩
    · simp only [AppQueue.attempt, list]
      rw [shows'.queue, list]
    · have flag : s.mq.flag = .fifo := congrArg (fun x => x.1) shape
      refine ⟨.suspended (.recv size (-1)), last, ?_, ?_⟩
      · change s.tasks.set 0 _ = _
        rw [tasks]
        rfl
      · simp only [AppQueue.attempt, list]
        refine ⟨rfl, ?_, list⟩
        change ipcListSuspend s.mq.flag priority s.mq.receivers 0 = [0]
        rw [flag, nobody]
        rfl
  | cons m rest =>
    have waiting : s.mq.entry ≠ 0 := by
      rw [entry, list]
      exact Nat.succ_ne_zero _
    obtain ⟨frees, nodes, inv⟩ := shows'.inv
    obtain ⟨u, g, frees', nodes', took, shape', done, inv'⟩ := inv.step priority e
    have seen' : s.observe e = [.take 0 size] := by
      rw [seen]
      simp only [Sys.attemptSeen, if_neg waiting]
    have queue : f.queue = encode m :: rest.map encode := by
      rw [shows'.queue, list]
      rfl
    have g' : g = ⟨rest.map encode, Function.update f.received 0 (some (encode m, size))⟩ := by
      have taken : Fifo.step s.mq.msgSize (.take 0 size) f =
          some ⟨rest.map encode, Function.update f.received 0 (some (encode m, size))⟩ := by
        simp only [Fifo.step, queue]
      rw [seen', Run.run_cons taken] at done
      exact (Option.some.inj done).symm
    obtain ⟨n, got⟩ : ∃ n, u.tasks = [.draining n size [], .idle last] ∧ u.mq.receivers = [] ∧ u.mq.senders = [] := by
      rw [go] at took
      simp only [Sys.attempt, if_neg waiting] at took
      obtain ⟨⟨k, mq'⟩, unlinked, rfl⟩ := Option.map_eq_some_iff.mp took
      obtain ⟨receivers, senders⟩ := unlink_lists unlinked
      refine ⟨k, ?_, receivers.trans nobody, senders.trans shows'.senders⟩
      change s.tasks.set 0 _ = _
      rw [tasks]
      rfl
    refine ⟨u, g, .one ⟨frees, nodes, inv⟩ took done, ⟨frees', nodes', inv'⟩, shape'.trans shape, ?_, got.2.2, ?_⟩
    · simp only [AppQueue.attempt, list]
      rw [g']
      change rest.map encode = (a.mq.msgs.drop 1).map encode
      rw [list, List.drop_one, List.tail_cons]
    · refine ⟨_, last, got.1, ?_⟩
      simp only [AppQueue.attempt, list]
      have received : g.received 0 = some (encode m, size) := by
        rw [g']
        exact Function.update_self (0 : Nat) (some (encode m, size)) f.received
      exact ⟨⟨n, [], rfl, rfl, received⟩, got.2.1⟩

/-- **The handler**: its message is at the end of both, or in neither. -/
theorem Shows.handler (shows' : Shows encode size s f a) (long : ∀ m, (encode m).length = size) (m : Msg) :
    ∃ u g, Goes priority ((Use.handler m).events encode size) s f u g ∧ Shows encode size u g (a.step size (.handler m)) := by
  obtain ⟨x, last, tasks, stands⟩ := shows'.tasks
  have here : s.tasks[1]? = some (.idle last) := by
    rw [tasks]
    rfl
  have alone := send_alone priority shows'.inv here (Nat.le_of_eq ((long m).trans shows'.msgSize.symm))
  rw [long m] at alone
  by_cases full : s.mq.free = none
  · obtain ⟨u, goes, came⟩ := alone.1 full
    have same : a.step size (.handler m) = a := if_pos (shows'.free.1.mp full)
    refine ⟨u, f, goes, ?_⟩
    rw [same]
    refine ⟨goes.inv, goes.shape.trans shows'.shape, shows'.queue, came.senders.trans shows'.senders, x, some .efull, ?_, ?_⟩
    · rw [came.tasks, tasks]
      rfl
    · rw [came.receivers]
      exact stands
  · obtain ⟨u, goes, tasks', receivers, senders⟩ := alone.2 full
    have fewer : a.mq.msgs.length + a.thread.nodes ≠ 10 := fun used => full (shows'.free.1.mpr used)
    have put : a.step size (.handler m) = { a with mq := a.mq.send m, thread := a.thread.woken } := if_neg fewer
    have most := shows'.free.2
    have list : (a.mq.send m).msgs = a.mq.msgs ++ [m] := UsbDisk.App.send_msgs (by omega) m
    refine ⟨_, _, goes, ?_⟩
    rw [put]
    have both : u.tasks = [x, .idle (some (.eok []))] := by
      rw [tasks', tasks]
      rfl
    have queue : f.queue ++ [encode m] = (a.mq.send m).msgs.map encode := by
      rw [list, shows'.queue, List.map_append, List.map_singleton]
    have shape := goes.shape.trans shows'.shape
    have inv := goes.inv
    cases mode : a.thread with
    | waiting =>
      rw [mode] at stands
      obtain ⟨rfl, waits, -⟩ := stands
      have resumed : u.resumeReceiver = { u with mq := { u.mq with receivers := [] }, tasks := u.tasks.modify 0 Task.resume } := by
        rw [Sys.resumeReceiver, receivers.trans waits]
      rw [resumed] at inv shape ⊢
      refine ⟨inv, shape, queue, senders.trans shows'.senders, .resumed (.recv size (-1)), some (.eok []), ?_, rfl, rfl⟩
      change u.tasks.modify 0 Task.resume = _
      rw [both]
      rfl
    | idle =>
      rw [mode] at stands
      have nobody : u.resumeReceiver = u := resumeReceiver_nobody (receivers.trans stands.2)
      rw [nobody] at inv shape ⊢
      exact ⟨inv, shape, queue, senders.trans shows'.senders, x, _, both, stands.1, receivers.trans stands.2⟩
    | awake =>
      rw [mode] at stands
      have nobody : u.resumeReceiver = u := resumeReceiver_nobody (receivers.trans stands.2)
      rw [nobody] at inv shape ⊢
      exact ⟨inv, shape, queue, senders.trans shows'.senders, x, _, both, stands.1, receivers.trans stands.2⟩
    | copying m' k =>
      rw [mode] at stands
      have nobody : u.resumeReceiver = u := resumeReceiver_nobody (receivers.trans stands.2)
      rw [nobody] at inv shape ⊢
      exact ⟨inv, shape, queue, senders.trans shows'.senders, x, _, both, stands.1, receivers.trans stands.2⟩

/-- The thread goes on with the message it copies, and returns with all of it. -/
theorem Shows.copy (shows' : Shows encode size s f a) (long : ∀ m, (encode m).length = size) {m : Msg} {k : Nat}
    (mode : a.thread = .copying m k) :
    ∃ u g, Goes priority [.run 0 0] s f u g ∧ Shows encode size u g (a.step size .goOn) := by
  obtain ⟨x, last, tasks, stands⟩ := shows'.tasks
  rw [mode] at stands
  obtain ⟨⟨n, got, rfl, rfl, received⟩, nobody⟩ := stands
  have here : s.tasks[0]? = some (.draining n size got) := by
    rw [tasks]
    rfl
  obtain ⟨frees, nodes, inv⟩ := shows'.inv
  have ask : min size s.mq.msgSize = size := by
    rw [shows'.msgSize, Nat.min_self]
  by_cases more : got.length < size
  · have onward : a.step size .goOn = { a with thread := .copying m (got.length + 1) } := by
      simp only [AppQueue.step, mode, if_pos more]
    have go : Sys.step priority (.run 0 0) s =
        some (s.become 0 (.draining n size (got ++ [s.mq.data n got.length]))) := by
      simp only [Sys.step, Sys.goOn, here, ask, if_pos more]
    have quiet : s.observe (.run 0 0) = [] := by
      simp only [Sys.observe, here, ask, if_pos more]
    have goes : Goes priority [.run 0 0] s f _ f := .one ⟨frees, nodes, inv⟩ go (by rw [quiet]; rfl)
    refine ⟨_, f, goes, ?_⟩
    rw [onward]
    refine ⟨goes.inv, goes.shape.trans shows'.shape, shows'.queue, shows'.senders,
      .draining n size (got ++ [s.mq.data n got.length]), last, ?_, ⟨n, _, rfl, ?_, received⟩, nobody⟩
    · change s.tasks.set 0 _ = _
      rw [tasks]
      rfl
    · rw [List.length_append, List.length_singleton]
  · have done : a.step size .goOn = { a with thread := .idle, handled := a.handled ++ [m] } := by
      simp only [AppQueue.step, mode, if_neg more]
    have go : Sys.step priority (.run 0 0) s = some (s.giveBack 0 n got) := by
      simp only [Sys.step, Sys.goOn, here, ask, if_neg more]
    have seen : s.observe (.run 0 0) = [.got 0 got] := by
      simp only [Sys.observe, here, ask, if_neg more]
    obtain ⟨u, g, frees', nodes', same, shape, took, inv'⟩ := inv.step priority (.run 0 0)
    obtain rfl := Option.some.inj (go.symm.trans same)
    have goes : Goes priority [.run 0 0] s f (s.giveBack 0 n got) g := .one ⟨frees, nodes, inv⟩ go took
    rw [seen] at took
    obtain ⟨g', checked, last'⟩ := Run.run_split took
    obtain rfl := Option.some.inj last'
    -- the queue has checked what is returned
    simp only [Fifo.step, received] at checked
    split at checked
    · rename_i agree
      obtain ⟨length, bytes⟩ := agree
      rw [ask] at length
      have whole : got = encode m := by
        rw [long m, length, ← length, List.take_length] at bytes
        rw [bytes, length, ← long m, List.take_length]
      cases checked
      have back : s.giveBack 0 n got = Sys.become 0 (.idle (some (.eok got))) { s with mq := s.mq.giveBack n } :=
        resumeSender_nobody shows'.senders
      refine ⟨_, _, goes, ?_⟩
      rw [done]
      refine ⟨goes.inv, goes.shape.trans shows'.shape, shows'.queue, ?_, .idle (some (.eok got)), last, ?_, ?_⟩
      · rw [back]
        exact shows'.senders
      · rw [back]
        change s.tasks.set 0 _ = _
        rw [tasks]
        rfl
      · rw [back]
        refine ⟨?_, nobody⟩
        rw [whole, List.getLast?_concat]
        rfl
    · cases checked

/-- **One use**. -/
theorem Shows.step (shows' : Shows encode size s f a) (priority : Nat → Nat) (long : ∀ m, (encode m).length = size) (use : Use) :
    ∃ u g, Goes priority (use.events encode size) s f u g ∧ Shows encode size u g (a.step size use) := by
  obtain ⟨x, last, tasks, stands⟩ := shows'.tasks
  have here : s.tasks[0]? = some x := by
    rw [tasks]
    rfl
  cases use with
  | handler m => exact shows'.handler long m
  | recv =>
    -- outside of the calls the thread calls, elsewhere it is not the event of this moment
    have stay : a.step size .recv = a → Sys.step priority (.call 0 (.recv size (-1))) s = some s →
        s.observe (.call 0 (.recv size (-1))) = [] →
        ∃ u g, Goes priority [.call 0 (.recv size (-1))] s f u g ∧ Shows encode size u g (a.step size .recv) := by
      intro same go quiet
      rw [same]
      exact ⟨s, f, .one shows'.inv go (by rw [quiet]; rfl), shows'⟩
    cases mode : a.thread with
    | idle =>
      rw [mode] at stands
      obtain ⟨rfl, nobody⟩ := stands
      have same : a.step size .recv = a.attempt := by simp only [AppQueue.step, mode]
      rw [same]
      refine shows'.attempt tasks nobody ?_ ?_
      · simp only [Sys.observe, here, Call.fits, if_true]
      · simp only [Sys.step, here, Sys.enter, Call.fits, if_true]
    | waiting =>
      rw [mode] at stands
      obtain ⟨rfl, -⟩ := stands
      exact stay (by simp only [AppQueue.step, mode]) (by simp only [Sys.step, here]) (by simp only [Sys.observe, here])
    | awake =>
      rw [mode] at stands
      obtain ⟨rfl, -⟩ := stands
      exact stay (by simp only [AppQueue.step, mode]) (by simp only [Sys.step, here]) (by simp only [Sys.observe, here])
    | copying m k =>
      rw [mode] at stands
      obtain ⟨⟨n, got, rfl, -⟩, -⟩ := stands
      exact stay (by simp only [AppQueue.step, mode]) (by simp only [Sys.step, here]) (by simp only [Sys.observe, here])
  | goOn =>
    have stay : a.step size .goOn = a → Sys.step priority (.run 0 0) s = some s → s.observe (.run 0 0) = [] →
        ∃ u g, Goes priority [.run 0 0] s f u g ∧ Shows encode size u g (a.step size .goOn) := by
      intro same go quiet
      rw [same]
      exact ⟨s, f, .one shows'.inv go (by rw [quiet]; rfl), shows'⟩
    cases mode : a.thread with
    | idle =>
      rw [mode] at stands
      obtain ⟨rfl, -⟩ := stands
      exact stay (by simp only [AppQueue.step, mode]) (by simp only [Sys.step, Sys.goOn, here]) (by simp only [Sys.observe, here])
    | waiting =>
      rw [mode] at stands
      obtain ⟨rfl, -⟩ := stands
      exact stay (by simp only [AppQueue.step, mode]) (by simp only [Sys.step, Sys.goOn, here]) (by simp only [Sys.observe, here])
    | awake =>
      rw [mode] at stands
      obtain ⟨rfl, nobody⟩ := stands
      have same : a.step size .goOn = a.attempt := by simp only [AppQueue.step, mode]
      -- it waits forever, so that no tick is counted
      have forever : (Call.recv size (-1)).after 0 = .recv size (-1) := rfl
      rw [same]
      refine shows'.attempt tasks nobody ?_ ?_
      · simp only [Sys.observe, here, forever]
      · simp only [Sys.step, Sys.goOn, here, forever]
    | copying m k => exact shows'.copy long mode

end Shows

/-! ## Runs -/

/-- **The queue that `UsbApp` uses is the kernel's**. Whatever the handler sends and wherever
it comes between the steps of the thread, the messages that wait, those that the thread has
been given, and where the thread stands are those of the list; and the list takes the next
message as `UsbApp` does, unless nine wait while the thread copies one. -/
theorem AppQueue.run_shows (priority : Nat → Nat) {encode : Msg → List Byte} {size : Nat} (long : ∀ m, (encode m).length = size)
    (small : size < 2 ^ 16) (next : Nat → Option Nat) (data : Nat → Nat → Byte) (us : List Use) :
    ∃ s f, Goes priority (us.flatMap (Use.events encode size)) (Sys.created .fifo size 10 next data 2) ⟨[], fun _ => none⟩ s f ∧
      Shows encode size s f (us.foldl (AppQueue.step size) AppQueue.start) ∧
      ∀ m, ((us ++ [Use.handler m]).foldl (AppQueue.step size) AppQueue.start).mq =
        let a := us.foldl (AppQueue.step size) AppQueue.start
        if a.mq.msgs.length = 9 ∧ a.thread.nodes = 1 then a.mq else a.mq.send m := by
  have created : Shows encode size (Sys.created .fifo size 10 next data 2) ⟨[], fun _ => none⟩ AppQueue.start := by
    refine ⟨⟨_, _, inv_create .fifo size 10 next data 2⟩, ?_, rfl, rfl, .idle none, none, rfl, rfl, rfl⟩
    change (IpcFlag.fifo, size % 2 ^ 16, 10 % 2 ^ 16) = _
    rw [Nat.mod_eq_of_lt small]
    rfl
  have runs : ∀ (us : List Use) {s : Sys} {f : Fifo} {a : AppQueue}, Shows encode size s f a →
      ∃ u g, Goes priority (us.flatMap (Use.events encode size)) s f u g ∧ Shows encode size u g (us.foldl (AppQueue.step size) a) := by
    intro us
    induction us with
    | nil => exact fun shows' => ⟨_, _, .none shows'.inv, shows'⟩
    | cons use us ih =>
      intro s f a shows'
      obtain ⟨u, g, first, next'⟩ := shows'.step priority long use
      obtain ⟨v, h, rest, last⟩ := ih next'
      exact ⟨v, h, first.append rest, last⟩
  obtain ⟨s, f, goes, shows'⟩ := runs us created
  refine ⟨s, f, goes, shows', fun m => ?_⟩
  rw [List.foldl_append]
  exact AppQueue.step_handler size _ m

/-- `struct usb_msg`: the length, for which the callbacks are given 0, and behind its padding
the type. -/
def usbMsg : Msg → List Byte
  | .udiskIn => [0, 0, 0, 0, 0, 0, 0, 0]
  | .udiskOut => [0, 0, 0, 0, 1, 0, 0, 0]

/-- The thread waits, is woken by a packet, and while it copies the message another comes. -/
theorem AppQueue.run_shows_woken :
    ∃ s f, Goes id ([Use.recv, .handler .udiskOut, .goOn, .goOn, .handler .udiskIn].flatMap (Use.events usbMsg 8))
        (Sys.created .fifo 8 10 (fun _ => none) (fun _ _ => 0) 2) ⟨[], fun _ => none⟩ s f ∧
      Shows usbMsg 8 s f ([Use.recv, .handler .udiskOut, .goOn, .goOn, .handler .udiskIn].foldl (AppQueue.step 8) AppQueue.start) := by
  obtain ⟨s, f, goes, shows', -⟩ := @AppQueue.run_shows id usbMsg 8 (fun m => by cases m <;> rfl) (by decide) (fun _ => none)
    (fun _ _ => 0) [.recv, .handler .udiskOut, .goOn, .goOn, .handler .udiskIn]
  exact ⟨s, f, goes, shows'⟩

end OffLineProgrammer.Kernel
