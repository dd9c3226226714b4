import OffLineProgrammer.Kernel.QueueMoves

/-!
# Every interleaving is that of a queue

What the calls put in and get out, in the order of their sections with interrupts disabled,
is what a queue of messages can do (`Sys.run_fifo`): no message is lost, doubled, torn or
overtaken, whatever task goes on between any two steps of another.
-/

namespace OffLineProgrammer.Kernel
set_option autoImplicit false
open OffLineProgrammer.Lib
open OffLineProgrammer.Lib.Linked (Chain)

namespace Sys

variable (priority : Nat → Nat)

/-- What a call takes when its loop ends. -/
def attemptSeen (t : Nat) (c : Call) (s : Sys) : List Obs :=
  match c with
  | .recv size _ => if s.mq.entry = 0 then [] else [.take t size]
  | _ => []

/-- What is seen of one event: a message when its call is about to return `RT_EOK`, its
receipt when it leaves the list, and what a call has copied when it returns. -/
def observe (e : Event) (s : Sys) : List Obs :=
  match e with
  | .call t c => match s.tasks[t]? with
    | some (.idle _) => if c.fits s.mq.msgSize then attemptSeen t c s else []
    | _ => []
  | .run t elapsed => match s.tasks[t]? with
    | some (.resumed c) => attemptSeen t (c.after elapsed) s
    | some (.filling _ urgent buffer k) =>
      if k < buffer.length then []
      else if s.mq.entry < RT_MQ_ENTRY_MAX then [if urgent then .putFront buffer else .put buffer]
      else []
    | some (.draining _ size got) => if got.length < min size s.mq.msgSize then [] else [.got t got]
    | _ => []
  | .expire _ => []

end Sys

/-! ## The loop of `rt_mq_create` -/

section Create

/-- All nodes are free, the last one first. -/
theorem freeList_chain (next : Nat → Option Nat) (k : Nat) :
    Chain (Mq.freeList next k).1 (Mq.freeList next k).2 (List.range k).reverse := by
  induction k with
  | zero => exact .done
  | succ k ih =>
    rw [List.range_succ, List.reverse_append, List.reverse_singleton, List.singleton_append]
    refine ih.push fun mem => ?_
    have less := List.mem_range.mp (List.mem_reverse.mp mem)
    omega

/-- A new queue is empty, and all its nodes are free. -/
theorem inv_create (flag : IpcFlag) (msgSize maxMsgs : Nat) (next : Nat → Option Nat) (data : Nat → Nat → Byte) (n : Nat) :
    Inv (Sys.create (Mq.rtMqCreate flag msgSize maxMsgs next data) n) ⟨[], fun _ => none⟩
      (List.range (maxMsgs % 2 ^ 16)).reverse [] where
  free := freeList_chain next (maxMsgs % 2 ^ 16)
  queue := .done
  tail := rfl
  entry := rfl
  small := by
    have : maxMsgs % 2 ^ 16 < 2 ^ 16 := Nat.mod_lt _ (by decide)
    change maxMsgs % 2 ^ 16 ≤ 0xFFFF
    omega
  contents := .nil
  cover k := by
    have none : (Sys.create (Mq.rtMqCreate flag msgSize maxMsgs next data) n).copying k = 0 := by
      refine List.countP_eq_zero.mpr fun x mem => ?_
      rw [List.eq_of_mem_replicate mem]
      exact fun seen => by cases of_decide_eq_true seen
    rw [none, List.count_reverse, List.count_nil]
    change _ = if k < maxMsgs % 2 ^ 16 then 1 else 0
    split
    · rename_i less
      exact List.count_eq_one_of_mem List.nodup_range (List.mem_range.mpr less)
    · rename_i beyond
      exact List.count_eq_zero_of_not_mem fun mem => beyond (List.mem_range.mp mem)
  knows t x there := by
    have mem := List.mem_of_getElem? there
    rw [List.eq_of_mem_replicate mem]
    trivial

end Create

/-! ## One step -/

section Step

variable {priority : Nat → Nat} {s : Sys} {f : Fifo} {frees nodes : List Nat} {t : Nat}

/-- What never changes. -/
def Mq.shape (mq : Mq) : IpcFlag × Nat × Nat := (mq.flag, mq.msgSize, mq.maxMsgs)

/-- A step that can be taken, seen as the queue sees it, with the invariant after it. -/
def Steps (s' : Option Sys) (mq : Mq) (seen : List Obs) (f : Fifo) : Prop :=
  ∃ u f' frees nodes, s' = some u ∧ u.mq.shape = mq.shape ∧ Run.run (Fifo.step mq.msgSize) seen f = some f' ∧ Inv u f' frees nodes

/-- Nothing is seen, and the tasks stay where they are. -/
theorem Steps.silent {u : Sys} (shape : u.mq.shape = s.mq.shape) (inv : Inv u f frees nodes) : Steps (some u) s.mq [] f :=
  ⟨u, f, frees, nodes, rfl, shape, rfl, inv⟩

/-- A task that has no node, or the same, gives nothing to see. -/
theorem Inv.become_steps {x y : Task} (inv : Inv s f frees nodes) (here : s.tasks[t]? = some x) (node : y.node = x.node)
    (knows : y.Knows s.mq f t) : Steps (some (s.become t y)) s.mq [] f :=
  .silent rfl (inv.task here node knows)

theorem Inv.suspend_steps {x : Task} (inv : Inv s f frees nodes) (here : s.tasks[t]? = some x) (none : x.node = none)
    (receivers senders : List Nat) {y : Task} (node : y.node = Option.none) (knows : y.Knows s.mq f t) :
    Steps (some (Sys.become t y { s with mq := { s.mq with receivers := receivers, senders := senders } })) s.mq [] f := by
  have inv' := inv.lists receivers senders
  exact .silent rfl (inv'.task here (node.trans none.symm) (knows.frame rfl (fun _ _ => ⟨rfl, rfl⟩) rfl))

/-- One turn of the loop of a call. -/
theorem Inv.attempt {x : Task} (inv : Inv s f frees nodes) (here : s.tasks[t]? = some x) (none : x.node = none) {c : Call}
    (fits : c.fits s.mq.msgSize = true) : Steps (s.attempt priority t c) s.mq (Sys.attemptSeen t c s) f := by
  have leave : ∀ last, Steps (some (s.become t (.idle last))) s.mq [] f := fun last => inv.become_steps here none.symm trivial
  cases c with
  | send buffer timeout =>
    simp only [Sys.attempt, Sys.attemptSeen]
    split
    · split
      · exact leave _
      · exact inv.suspend_steps here none _ _ rfl fits
    · rename_i n free
      have short : buffer.length ≤ s.mq.msgSize := of_decide_eq_true fits
      have knows : (Task.taken n buffer).Knows s.mq f t := short
      obtain ⟨frees', -, inv'⟩ := inv.takeFree here none free rfl knows
      exact .silent rfl inv'
  | urgent buffer =>
    simp only [Sys.attempt, Sys.attemptSeen]
    split
    · exact leave _
    · rename_i n free
      have knows : (Task.filling n true buffer 0).Knows s.mq f t :=
        ⟨of_decide_eq_true fits, Nat.zero_le _, rfl, fun isSend => by cases isSend⟩
      obtain ⟨frees', -, inv'⟩ := inv.takeFree here none free rfl knows
      exact .silent rfl inv'
  | recv size timeout =>
    simp only [Sys.attempt, Sys.attemptSeen]
    split
    · split
      · exact leave _
      · exact inv.suspend_steps here none _ _ rfl rfl
    · rename_i waiting
      obtain ⟨n, nodes', m, rest, mq', unlinked, queue, inv'⟩ := inv.unlink size here none waiting
      refine ⟨_, _, frees, nodes', by rw [unlinked]; rfl, ?_, ?_, inv'⟩
      · change mq'.shape = s.mq.shape
        obtain ⟨k, head, same⟩ := Option.map_eq_some_iff.mp unlinked
        rw [← (Prod.mk.inj same).2]
        rfl
      · have taken : Fifo.step s.mq.msgSize (.take t size) f = some ⟨rest, Function.update f.received t (some (m, size))⟩ := by
          simp only [Fifo.step, queue]
        exact Run.run_cons taken

/-- The first section of a call. -/
theorem Inv.enter {x : Task} (inv : Inv s f frees nodes) (here : s.tasks[t]? = some x) (none : x.node = none) (c : Call) :
    Steps (s.enter priority t c) s.mq (if c.fits s.mq.msgSize then Sys.attemptSeen t c s else []) f := by
  unfold Sys.enter
  split
  · exact inv.attempt here none ‹_›
  · exact inv.become_steps here none.symm trivial

@[simp] theorem fits_after (size elapsed : Nat) (c : Call) : (c.after elapsed).fits size = c.fits size := by
  cases c <;> rfl

/-- Resuming a thread is not seen. -/
theorem Steps.resumeReceiver {u : Sys} {mq : Mq} {seen : List Obs} (steps : Steps (some u) mq seen f) :
    Steps (some u.resumeReceiver) mq seen f := by
  obtain ⟨u', f', frees, nodes, same, kept, done, inv⟩ := steps
  obtain rfl := Option.some.inj same
  refine ⟨_, f', frees, nodes, rfl, ?_, done, inv.resumeReceiver⟩
  rw [← kept]
  unfold Sys.resumeReceiver
  split <;> rfl

theorem Steps.resumeSender {u : Sys} {mq : Mq} {seen : List Obs} (steps : Steps (some u) mq seen f) :
    Steps (some u.resumeSender) mq seen f := by
  obtain ⟨u', f', frees, nodes, same, kept, done, inv⟩ := steps
  obtain rfl := Option.some.inj same
  refine ⟨_, f', frees, nodes, rfl, ?_, done, inv.resumeSender⟩
  rw [← kept]
  unfold Sys.resumeSender
  split <;> rfl

/-- The second section of a send: the message is in, and a receiver may be resumed. -/
theorem Inv.link {n k : Nat} {urgent : Bool} {buffer : List Byte} (inv : Inv s f frees nodes)
    (here : s.tasks[t]? = some (.filling n urgent buffer k)) (whole : ¬ k < buffer.length) :
    Steps (some (s.link t n urgent)) s.mq [if urgent then .putFront buffer else .put buffer] f := by
  have room := inv.room here rfl
  cases urgent with
  | true =>
    have counted : (s.mq.linkHead n).count = some { s.mq.linkHead n with entry := s.mq.entry + 1 } := count_linked room
    simp only [Sys.link, if_true, counted]
    exact Steps.resumeReceiver ⟨_, _, _, _, rfl, rfl, rfl, inv.linkHead here whole⟩
  | false =>
    have counted : (s.mq.linkTail n).count = some { s.mq.linkTail n with entry := s.mq.entry + 1 } := count_linked room
    simp only [Sys.link, Bool.false_eq_true, if_false, counted]
    exact Steps.resumeReceiver ⟨_, _, _, _, rfl, rfl, rfl, inv.linkTail here whole⟩

/-- One more byte of the buffer. -/
theorem read_update {data : Nat → Nat → Byte} {n k : Nat} {buffer : List Byte} (before : Mem.read (data n) 0 k = buffer.take k)
    (more : k < buffer.length) :
    Mem.read (Function.update data n (Function.update (data n) k (buffer.getD k 0)) n) 0 (k + 1) = buffer.take (k + 1) := by
  have kept : Mem.read (Function.update (data n) k (buffer.getD k 0)) 0 k = buffer.take k := by
    rw [← before]
    refine Mem.read_congr fun i less => Function.update_of_ne ?_ ..
    omega
  have last : Mem.read (Function.update (data n) k (buffer.getD k 0)) (0 + k) 1 = [buffer[k]] := by
    change [Function.update (data n) k (buffer.getD k 0) (0 + k + 0)] = _
    rw [Nat.zero_add, Nat.add_zero, Function.update_self, List.getD_eq_getElem _ _ more]
  rw [Function.update_self, Mem.read_add, kept, last]
  exact List.take_append_getElem more

/-- The next step of a task, whatever it is. -/
theorem Inv.goOn (inv : Inv s f frees nodes) (elapsed : Nat) :
    Steps (s.goOn priority t elapsed) s.mq (s.observe (.run t elapsed)) f := by
  have stay : Steps (some s) s.mq [] f := .silent rfl inv
  cases here : s.tasks[t]? with
  | none =>
    simp only [Sys.goOn, Sys.observe, here]
    exact stay
  | some x =>
    cases x with
    | idle last =>
      simp only [Sys.goOn, Sys.observe, here]
      exact stay
    | suspended c =>
      simp only [Sys.goOn, Sys.observe, here]
      exact stay
    | resumed c =>
      simp only [Sys.goOn, Sys.observe, here]
      have fits : c.fits s.mq.msgSize = true := inv.knows t _ here
      exact inv.attempt here rfl ((fits_after ..).trans fits)
    | timedOut c =>
      simp only [Sys.goOn, Sys.observe, here]
      exact inv.become_steps here rfl trivial
    | taken n buffer =>
      simp only [Sys.goOn, Sys.observe, here]
      have fits : buffer.length ≤ s.mq.msgSize := inv.knows t _ here
      refine .silent rfl (inv.ownNode here rfl rfl (fun k apart => Function.update_of_ne apart ..) (fun _ _ => rfl) ?_)
      exact ⟨fits, Nat.zero_le _, rfl, fun _ => Function.update_self ..⟩
    | filling n urgent buffer k =>
      simp only [Sys.goOn, Sys.observe, here]
      by_cases more : k < buffer.length
      · rw [if_pos more, if_pos more]
        obtain ⟨fits, upTo, bytes, ends⟩ := inv.knows t _ here
        refine .silent rfl (inv.ownNode here rfl rfl (fun _ _ => rfl) (fun j apart => Function.update_of_ne apart ..) ?_)
        exact ⟨fits, more, read_update bytes more, ends⟩
      · rw [if_neg more, if_neg more, if_pos (inv.room here rfl)]
        exact inv.link here more
    | draining n size got =>
      simp only [Sys.goOn, Sys.observe, here]
      by_cases more : got.length < min size s.mq.msgSize
      · rw [if_pos more, if_pos more]
        obtain ⟨m, received, holds, upTo, copied⟩ := inv.knows t _ here
        refine inv.become_steps here rfl ⟨m, received, holds, ?_, ?_⟩
        · rw [List.length_append, List.length_singleton]
          exact more
        · rw [List.length_append, List.length_singleton, Mem.read_add, ← copied, Nat.zero_add]
          rfl
      · rw [if_neg more, if_neg more]
        obtain ⟨f', done, inv'⟩ := inv.giveBack here more
        exact Steps.resumeSender ⟨_, f', _, _, rfl, rfl, Run.run_cons done, inv'⟩

/-- **One event**: it can be taken, and what is seen of it the queue can do. -/
theorem Inv.step (inv : Inv s f frees nodes) (priority : Nat → Nat) (e : Event) : Steps (s.step priority e) s.mq (s.observe e) f := by
  have stay : Steps (some s) s.mq [] f := .silent rfl inv
  cases e with
  | call t c =>
    cases here : s.tasks[t]? with
    | none =>
      simp only [Sys.step, Sys.observe, here]
      exact stay
    | some x =>
      cases x with
      | idle last =>
        simp only [Sys.step, Sys.observe, here]
        exact inv.enter here rfl c
      | _ =>
        simp only [Sys.step, Sys.observe, here]
        exact stay
  | run t elapsed => exact inv.goOn elapsed
  | expire t =>
    simp only [Sys.step, Sys.observe]
    split
    · rename_i c here
      split
      · exact inv.suspend_steps here rfl _ _ rfl trivial
      · exact stay
    · exact stay

end Step

/-! ## What is seen and what is returned -/

/-- What an observation says of the tasks before and after its step. -/
def Obs.Shown (s u : Sys) : Obs → Prop
  | .put buffer => ∃ (t n k : Nat), s.tasks[t]? = some (.filling n false buffer k) ∧ u.tasks[t]? = some (.idle (some (.eok [])))
  | .putFront buffer => ∃ (t n k : Nat), s.tasks[t]? = some (.filling n true buffer k) ∧ u.tasks[t]? = some (.idle (some (.eok [])))
  | .take t size => ∃ n, u.tasks[t]? = some (.draining n size [])
  | .got t copied => ∃ n size, s.tasks[t]? = some (.draining n size copied) ∧ u.tasks[t]? = some (.idle (some (.eok copied)))

/-- What is seen of a task whose call returns `RT_EOK`, by where the task stood. -/
def Task.Ended (t : Nat) (got : List Byte) (seen : List Obs) : Task → Prop
  | .filling _ urgent buffer _ => got = [] ∧ seen = [if urgent then .putFront buffer else .put buffer]
  | .draining _ _ copied => got = copied ∧ seen = [.got t copied]
  | _ => False

/-- What is seen of an event is what the call returns, and a call that returns `RT_EOK` is seen. -/
structure Reported (e : Event) (s u : Sys) : Prop where
  shown : ∀ o ∈ s.observe e, o.Shown s u
  ended : ∀ (t : Nat) (x : Task) (got : List Byte), s.tasks[t]? = some x → (∀ last, x ≠ .idle last) →
    u.tasks[t]? = some (.idle (some (.eok got))) → x.Ended t got (s.observe e)

section Reports

variable {priority : Nat → Nat} {s u : Sys} {e : Event} {t : Nat} {x y : Task}

theorem Reported.stay (quiet : s.observe e = []) : Reported e s s where
  shown o mem := by
    rw [quiet] at mem
    cases mem
  ended t x got here away back := absurd (Option.some.inj (here.symm.trans back)) (away _)

/-- The others may be resumed, but no more. -/
theorem Reported.moved (there : s.tasks[t]? = some x) (here : u.tasks[t]? = some y)
    (others : ∀ t' last, t' ≠ t → u.tasks[t']? = some (.idle last) → s.tasks[t']? = some (.idle last))
    (shown : ∀ o ∈ s.observe e, o.Shown s u)
    (ended : ∀ got, y = .idle (some (.eok got)) → (∀ last, x ≠ .idle last) → x.Ended t got (s.observe e)) : Reported e s u where
  shown := shown
  ended t' x' got was away back := by
    by_cases self : t' = t
    · subst self
      obtain rfl := Option.some.inj (there.symm.trans was)
      exact ended got (Option.some.inj (here.symm.trans back)) away
    · exact absurd (Option.some.inj (was.symm.trans (others t' _ self back))) (away _)

/-- A task alone comes to a place where its call has not returned `RT_EOK`. -/
theorem Reported.become {mq : Mq} (there : s.tasks[t]? = some x) (busy : ∀ got, y ≠ .idle (some (.eok got)))
    (shown : ∀ o ∈ s.observe e, o.Shown s (Sys.become t y { s with mq := mq })) :
    Reported e s (Sys.become t y { s with mq := mq }) :=
  .moved there (@become_same { s with mq := mq } t x y there)
    (fun t' _ self back => (@become_other { s with mq := mq } t t' y self).symm.trans back) shown
    (fun got same => absurd same (busy got))

theorem Reported.attempt {c : Call} (there : s.tasks[t]? = some x) (seen : s.observe e = Sys.attemptSeen t c s)
    (go : s.attempt priority t c = some u) : Reported e s u := by
  have quiet : Sys.attemptSeen t c s = [] → ∀ v, ∀ o ∈ s.observe e, o.Shown s v := by
    intro none v o mem
    rw [seen, none] at mem
    cases mem
  cases c with
  | send buffer timeout =>
    simp only [Sys.attempt] at go
    split at go
    · split at go
      · cases go
        exact .become there (fun _ same => by cases same) (quiet rfl _)
      · cases go
        exact .become there (fun _ same => by cases same) (quiet rfl _)
    · cases go
      exact .become there (fun _ same => by cases same) (quiet rfl _)
  | urgent buffer =>
    simp only [Sys.attempt] at go
    split at go
    · cases go
      exact .become there (fun _ same => by cases same) (quiet rfl _)
    · cases go
      exact .become there (fun _ same => by cases same) (quiet rfl _)
  | recv size timeout =>
    simp only [Sys.attempt] at go
    split at go
    · rename_i empty
      have none : Sys.attemptSeen t (.recv size timeout) s = [] := if_pos empty
      split at go
      · cases go
        exact .become there (fun _ same => by cases same) (quiet none _)
      · cases go
        exact .become there (fun _ same => by cases same) (quiet none _)
    · rename_i waiting
      obtain ⟨⟨n, mq⟩, -, rfl⟩ := Option.map_eq_some_iff.mp go
      refine .become there (fun _ same => by cases same) fun o mem => ?_
      rw [seen, Sys.attemptSeen, if_neg waiting, List.mem_singleton] at mem
      subst mem
      exact ⟨n, @become_same { s with mq := mq } t x _ there⟩

end Reports

/-! ## Runs -/

namespace Sys

variable (priority : Nat → Nat) (flag : IpcFlag) (msgSize maxMsgs : Nat) (next : Nat → Option Nat) (data : Nat → Nat → Byte)
  (n : Nat)

/-- Tasks that share a queue from its creation on. -/
abbrev created : Sys := create (Mq.rtMqCreate flag msgSize maxMsgs next data) n

/-- A run from the creation on is seen as a run of the queue, and ends in a state with the
invariant. -/
theorem run_inv (es : List Event) :
    ∃ s f frees nodes, Run.run (step priority) es (created flag msgSize maxMsgs next data n) = some s ∧
      Run.run (Fifo.step (msgSize % 2 ^ 16))
        (Run.trace (step priority) observe es (created flag msgSize maxMsgs next data n)) ⟨[], fun _ => none⟩ = some f ∧
      s.mq.shape = (flag, msgSize % 2 ^ 16, maxMsgs % 2 ^ 16) ∧ Inv s f frees nodes := by
  have matched : ∀ (s : Sys) (f : Fifo) (e : Event),
      (s.mq.shape = (flag, msgSize % 2 ^ 16, maxMsgs % 2 ^ 16) ∧ ∃ frees nodes, Inv s f frees nodes) →
      ∃ u f', step priority e s = some u ∧ Run.run (Fifo.step (msgSize % 2 ^ 16)) (observe e s) f = some f' ∧
        (u.mq.shape = (flag, msgSize % 2 ^ 16, maxMsgs % 2 ^ 16) ∧ ∃ frees nodes, Inv u f' frees nodes) := by
    rintro s f e ⟨shape, frees, nodes, inv⟩
    obtain ⟨u, f', frees', nodes', go, kept, done, inv'⟩ := inv.step priority e
    have size : s.mq.msgSize = msgSize % 2 ^ 16 := congrArg (fun x => x.2.1) shape
    rw [size] at done
    exact ⟨u, f', go, done, kept.trans shape, frees', nodes', inv'⟩
  obtain ⟨s, f, go, done, shape, frees, nodes, inv⟩ := Run.simulation _ matched es
    ⟨rfl, _, _, inv_create flag msgSize maxMsgs next data n⟩
  exact ⟨s, f, frees, nodes, go, done, shape, inv⟩

variable {priority flag msgSize maxMsgs next data n} {es : List Event} {s : Sys}

/-- The invariant holds wherever a run ends, and the sizes are those of the creation. -/
theorem reached_inv (reached : Run.run (step priority) es (created flag msgSize maxMsgs next data n) = some s) :
    (∃ f frees nodes, Inv s f frees nodes) ∧ s.mq.shape = (flag, msgSize % 2 ^ 16, maxMsgs % 2 ^ 16) := by
  obtain ⟨s', f, frees, nodes, go, -, shape, inv⟩ := run_inv priority flag msgSize maxMsgs next data n es
  obtain rfl := Option.some.inj (reached.symm.trans go)
  exact ⟨⟨f, frees, nodes, inv⟩, shape⟩

/-- **A node is never lost**: the free nodes, the messages that wait and the tasks that copy
make up the pool. -/
theorem pool_whole (reached : Run.run (step priority) es (created flag msgSize maxMsgs next data n) = some s) :
    ∃ frees, Chain s.mq.next s.mq.free frees ∧ frees.length + s.mq.entry + s.held.length = maxMsgs % 2 ^ 16 := by
  obtain ⟨⟨f, frees, nodes, inv⟩, shape⟩ := reached_inv reached
  have all : s.mq.maxMsgs = maxMsgs % 2 ^ 16 := congrArg (fun x => x.2.2) shape
  have shares := inv.shares
  rw [← inv.entry, all] at shares
  exact ⟨frees, inv.free, shares⟩

/-- **A call that does not wait is refused** exactly where the messages that wait and the tasks
that copy have all of the pool. -/
theorem refused_iff_full (reached : Run.run (step priority) es (created flag msgSize maxMsgs next data n) = some s) :
    (∃ frees, Chain s.mq.next s.mq.free frees ∧ frees.length + s.mq.entry + s.held.length = maxMsgs % 2 ^ 16) ∧
      ∀ (t : Nat) (last : Option Returned), s.tasks[t]? = some (.idle last) →
        ∀ buffer : List Byte, buffer.length ≤ msgSize % 2 ^ 16 → ∀ urgent : Bool,
          ∃ u, step priority (.call t (if urgent then .urgent buffer else .send buffer 0)) s = some u ∧
            (u.tasks[t]? = some (.idle (some .efull)) ↔ s.mq.entry + s.held.length = maxMsgs % 2 ^ 16) := by
  refine ⟨pool_whole reached, fun t last here buffer fits urgent => ?_⟩
  obtain ⟨-, shape⟩ := reached_inv reached
  obtain ⟨frees, chain, shares⟩ := pool_whole reached
  have size : s.mq.msgSize = msgSize % 2 ^ 16 := congrArg (fun x => x.2.1) shape
  have fits : decide (buffer.length ≤ s.mq.msgSize) = true := decide_eq_true (by omega)
  have full : s.mq.free = none ↔ s.mq.entry + s.held.length = maxMsgs % 2 ^ 16 := by
    rw [chain.empty, ← List.length_eq_zero_iff]
    omega
  have goes : step priority (.call t (if urgent then .urgent buffer else .send buffer 0)) s =
      enter priority t (if urgent then .urgent buffer else .send buffer 0) s := by
    simp only [step, here]
  rw [goes, ← full]
  cases free : s.mq.free with
  | none =>
    refine ⟨s.become t (.idle (some .efull)), ?_, iff_of_true (become_same here) rfl⟩
    cases urgent <;> simp only [enter, attempt, Call.fits, fits, if_true, Bool.false_eq_true, if_false, free]
  | some k =>
    have away : ∀ u : Sys, ∀ x : Task, u.tasks[t]? = some x → x.node ≠ none →
        (u.tasks[t]? = some (.idle (some .efull)) ↔ some k = none) := by
      intro u x there node
      refine iff_of_false (fun idle => ?_) (fun absent => by cases absent)
      rw [there] at idle
      exact node (Option.some.inj idle ▸ rfl)
    cases urgent with
    | true =>
      simp only [enter, attempt, Call.fits, fits, if_true, free]
      exact ⟨_, rfl, away _ (.filling k true buffer 0) (become_same here) (fun absent => by cases absent)⟩
    | false =>
      simp only [enter, attempt, Call.fits, fits, if_true, Bool.false_eq_true, if_false, free]
      exact ⟨_, rfl, away _ (.taken k buffer) (become_same here) (fun absent => by cases absent)⟩

/-- A pool of one node, while another task fills it. -/
theorem refused_iff_full_taken :
    ∃ s, Run.run (step id) [.call 0 (.send [7] 0)] (created .fifo 4 1 (fun _ => none) (fun _ _ => 0) 2) = some s ∧
      s.mq.entry = 0 ∧ s.held.length = 1 ∧
      ((∃ frees, Chain s.mq.next s.mq.free frees ∧ frees.length + s.mq.entry + s.held.length = 1 % 2 ^ 16) ∧
        ∃ u, step id (.call 1 (if true then .urgent [9] else .send [9] 0)) s = some u ∧
          (u.tasks[1]? = some (.idle (some .efull)) ↔ s.mq.entry + s.held.length = 1 % 2 ^ 16)) := by
  obtain ⟨s, go, entry, held, here⟩ : ∃ s, Run.run (step id) [.call 0 (.send [7] 0)]
      (created .fifo 4 1 (fun _ => none) (fun _ _ => 0) 2) = some s ∧ s.mq.entry = 0 ∧ s.held.length = 1 ∧
        s.tasks[1]? = some (.idle none) := ⟨_, rfl, rfl, rfl, rfl⟩
  obtain ⟨pool, refused⟩ := refused_iff_full go
  exact ⟨s, go, entry, held, pool, refused 1 none here [9] (by decide) true⟩

end Sys

end OffLineProgrammer.Kernel
