import OffLineProgrammer.Kernel.MessageQueue
import Mathlib.Data.List.Perm.Basic

/-!
# The nodes of a queue

Whatever the tasks do in whatever order, every node of the pool is in exactly one place: on
the free list, in the queue, or with one task that copies (`Inv.cover`).
-/

namespace OffLineProgrammer.Kernel
set_option autoImplicit false
open OffLineProgrammer.Lib
open OffLineProgrammer.Lib.Linked (Chain)

/-! ## The queue it stands for -/

/-- The messages that wait, the first to be received first, and those a task has received
but not yet copied, with the size it asks for. -/
structure Fifo where
  queue : List (List Byte)
  received : Nat → Option (List Byte × Nat)

/-- What is seen of the queue: a message is put at its end or its front, a task takes the
first, and a call returns what it has copied. -/
inductive Obs where
  | put (message : List Byte)
  | putFront (message : List Byte)
  | take (t size : Nat)
  | got (t : Nat) (buffer : List Byte)

/-- What a queue of messages of at most `msgSize` bytes does. A call returns as many bytes as
it has asked for and a message can have; they are those of the message it has taken, as
far as that goes. -/
def Fifo.step (msgSize : Nat) (o : Obs) (f : Fifo) : Option Fifo :=
  match o with
  | .put m => some { f with queue := f.queue ++ [m] }
  | .putFront m => some { f with queue := m :: f.queue }
  | .take t size => match f.queue with
    | [] => none
    | m :: rest => some ⟨rest, Function.update f.received t (some (m, size))⟩
  | .got t buffer => match f.received t with
    | none => none
    | some (m, size) =>
      if buffer.length = min size msgSize ∧ buffer.take m.length = m.take buffer.length then
        some { f with received := Function.update f.received t none }
      else none

/-! ## The invariant -/

/-- The node a task copies to or from. -/
def Task.node : Task → Option Nat
  | .taken n _ => some n
  | .filling n _ _ _ => some n
  | .draining n _ _ => some n
  | _ => none

/-- A node holds a message. -/
def Holds (data : Nat → Nat → Byte) (n : Nat) (m : List Byte) : Prop := Mem.read (data n) 0 m.length = m

/-- What a task that waits or copies knows of its message and its node. -/
def Task.Knows (mq : Mq) (f : Fifo) (t : Nat) : Task → Prop
  | .suspended c => c.fits mq.msgSize = true
  | .resumed c => c.fits mq.msgSize = true
  | .taken _ buffer => buffer.length ≤ mq.msgSize
  | .filling n urgent buffer k => buffer.length ≤ mq.msgSize ∧ k ≤ buffer.length ∧ Mem.read (mq.data n) 0 k = buffer.take k ∧
      (urgent = false → mq.next n = none)
  | .draining n size got => ∃ m, f.received t = some (m, size) ∧ Holds mq.data n m ∧ got.length ≤ min size mq.msgSize ∧
      got = Mem.read (mq.data n) 0 got.length
  | _ => True

/-- How many tasks copy to or from a node. -/
def Sys.copying (s : Sys) (n : Nat) : Nat := s.tasks.countP fun x => decide (x.node = some n)

/-- The two lists, and where the nodes are. -/
structure Inv (s : Sys) (f : Fifo) (frees nodes : List Nat) : Prop where
  free : Chain s.mq.next s.mq.free frees
  queue : Chain s.mq.next s.mq.head nodes
  tail : s.mq.tail = nodes.getLast?
  entry : s.mq.entry = nodes.length
  cover : ∀ n, frees.count n + nodes.count n + s.copying n = if n < s.mq.maxMsgs then 1 else 0
  small : s.mq.maxMsgs ≤ RT_MQ_ENTRY_MAX
  contents : List.Forall₂ (Holds s.mq.data) nodes f.queue
  knows : ∀ (t : Nat) (x : Task), s.tasks[t]? = some x → x.Knows s.mq f t

/-! ## Counting tasks -/

section Count

variable {β : Type} {p : β → Bool} {x y : β}

/-- One element of a list is replaced. -/
theorem countP_set_add {l : List β} {t : Nat} (here : l[t]? = some x) :
    (l.set t y).countP p + (if p x then 1 else 0) = l.countP p + (if p y then 1 else 0) := by
  induction l generalizing t with
  | nil => simp at here
  | cons z l ih =>
    cases t with
    | zero =>
      obtain rfl : z = x := by simpa using here
      rw [List.set_cons_zero, List.countP_cons, List.countP_cons]
      omega
    | succ t =>
      rw [List.set_cons_succ, List.countP_cons, List.countP_cons]
      have := ih (t := t) (by simpa using here)
      omega

/-- A change that `p` does not see. -/
theorem countP_modify {l : List β} {g : β → β} (same : ∀ z, p (g z) = p z) (t : Nat) : (l.modify t g).countP p = l.countP p := by
  induction l generalizing t with
  | nil => simp
  | cons z l ih =>
    cases t with
    | zero => simp [List.countP_cons, same]
    | succ t => simp [List.countP_cons, ih]

theorem countP_pos_of {l : List β} {t : Nat} (here : l[t]? = some x) (has : p x = true) : 0 < l.countP p :=
  List.countP_pos_iff.mpr ⟨x, List.mem_of_getElem? here, has⟩

/-- Two places that have `p`. -/
theorem countP_two {l : List β} {t u : Nat} (here : l[t]? = some x) (there : l[u]? = some y) (apart : t ≠ u) (has : p x = true)
    (has' : p y = true) : 2 ≤ l.countP p := by
  induction l generalizing t u with
  | nil => simp at here
  | cons z l ih =>
    rw [List.countP_cons]
    cases t with
    | zero =>
      obtain ⟨u, rfl⟩ : ∃ k, u = k + 1 := ⟨u - 1, by omega⟩
      have := countP_pos_of (l := l) (by simpa using there) has'
      obtain rfl : z = x := by simpa using here
      rw [if_pos has]
      omega
    | succ t =>
      cases u with
      | zero =>
        have := countP_pos_of (l := l) (by simpa using here) has
        obtain rfl : z = y := by simpa using there
        rw [if_pos has']
        omega
      | succ u =>
        have := ih (t := t) (u := u) (by simpa using here) (by simpa using there) (by omega)
        omega

end Count

/-! ## Nodes and tasks -/

section Nodes

variable {s : Sys} {f f' : Fifo} {mq : Mq} {frees nodes : List Nat} {t u n : Nat} {x y z : Task}

@[simp] theorem become_mq (t : Nat) (x : Task) (s : Sys) : (s.become t x).mq = s.mq := rfl

/-- A task other than the one that goes on. -/
theorem become_other (apart : u ≠ t) : (s.become t x).tasks[u]? = s.tasks[u]? := List.getElem?_set_ne apart.symm

theorem become_same (here : s.tasks[t]? = some x) : (s.become t y).tasks[t]? = some y := by
  obtain ⟨less, -⟩ := List.getElem?_eq_some_iff.mp here
  exact List.getElem?_set_self less

/-- What moves in or out of a node. -/
theorem copying_become (here : s.tasks[t]? = some x) (n : Nat) :
    (s.become t y).copying n + (if x.node = some n then 1 else 0) = s.copying n + if y.node = some n then 1 else 0 := by
  have counted := countP_set_add (p := fun x : Task => decide (x.node = some n)) (y := y) here
  simp only [decide_eq_true_eq] at counted
  exact counted

theorem copying_pos (here : s.tasks[t]? = some x) (node : x.node = some n) : 0 < s.copying n :=
  countP_pos_of here (decide_eq_true node)

/-- A node is with one task. -/
theorem Inv.apart (inv : Inv s f frees nodes) (here : s.tasks[t]? = some x) (node : x.node = some n) (there : s.tasks[u]? = some z)
    (node' : z.node = some n) : u = t := by
  by_contra other
  have two : 2 ≤ s.copying n := countP_two here there (Ne.symm other) (decide_eq_true node) (decide_eq_true node')
  have one := inv.cover n
  split at one <;> omega

/-- A node of a task is on neither list. -/
theorem Inv.off (inv : Inv s f frees nodes) (here : s.tasks[t]? = some x) (node : x.node = some n) : n ∉ frees ∧ n ∉ nodes := by
  have one := inv.cover n
  have := copying_pos here node
  constructor
  · intro mem
    have := List.count_pos_iff.mpr mem
    split at one <;> omega
  · intro mem
    have := List.count_pos_iff.mpr mem
    split at one <;> omega

/-- A free node is with no task, and not in the queue. -/
theorem Inv.free_off (inv : Inv s f frees nodes) (mem : n ∈ frees) : s.copying n = 0 ∧ n ∉ nodes := by
  have one := inv.cover n
  have := List.count_pos_iff.mpr mem
  constructor
  · split at one <;> omega
  · intro mem'
    have := List.count_pos_iff.mpr mem'
    split at one <;> omega

/-- What a task knows depends on its own node and its own place only. -/
theorem Task.Knows.frame (knows : x.Knows s.mq f t) (size : mq.msgSize = s.mq.msgSize)
    (node : ∀ n, x.node = some n → mq.next n = s.mq.next n ∧ mq.data n = s.mq.data n) (received : f'.received t = f.received t) :
    x.Knows mq f' t := by
  cases x with
  | taken n buffer =>
    change buffer.length ≤ mq.msgSize
    rw [size]
    exact knows
  | filling n urgent buffer k =>
    obtain ⟨next, data⟩ := node n rfl
    change buffer.length ≤ mq.msgSize ∧ _ ∧ Mem.read (mq.data n) 0 k = _ ∧ (_ → mq.next n = none)
    rw [size, data, next]
    exact knows
  | draining n size' got =>
    obtain ⟨-, data⟩ := node n rfl
    change ∃ m, f'.received t = some (m, size') ∧ Mem.read (mq.data n) 0 m.length = m ∧ got.length ≤ min size' mq.msgSize ∧
      got = Mem.read (mq.data n) 0 got.length
    rw [size, data, received]
    exact knows
  | suspended c =>
    change c.fits mq.msgSize = true
    rw [size]
    exact knows
  | resumed c =>
    change c.fits mq.msgSize = true
    rw [size]
    exact knows
  | idle last => trivial
  | timedOut c => trivial

/-- One task goes on with its node, and nothing else changes. -/
theorem Inv.task (inv : Inv s f frees nodes) (here : s.tasks[t]? = some x) (node : y.node = x.node) (knows : y.Knows s.mq f t) :
    Inv (s.become t y) f frees nodes where
  free := inv.free
  queue := inv.queue
  tail := inv.tail
  entry := inv.entry
  small := inv.small
  contents := inv.contents
  cover n := by
    have moved := copying_become (y := y) here n
    rw [node] at moved
    have same : (s.become t y).copying n = s.copying n := by omega
    rw [same]
    exact inv.cover n
  knows u z there := by
    by_cases self : u = t
    · subst self
      rw [become_same here] at there
      cases there
      exact knows
    · rw [become_other self] at there
      exact (inv.knows u z there).frame rfl (fun _ _ => ⟨rfl, rfl⟩) rfl

/-- Suspending and resuming moves no node. -/
theorem Inv.lists (inv : Inv s f frees nodes) (receivers senders : List Nat) :
    Inv { s with mq := { s.mq with receivers := receivers, senders := senders } } f frees nodes where
  free := inv.free
  queue := inv.queue
  tail := inv.tail
  entry := inv.entry
  small := inv.small
  contents := inv.contents
  cover := inv.cover
  knows u z there := (inv.knows u z there).frame rfl (fun _ _ => ⟨rfl, rfl⟩) rfl

theorem resume_node (x : Task) : x.resume.node = x.node := by
  cases x <;> rfl

theorem Inv.resume (inv : Inv s f frees nodes) (u : Nat) : Inv { s with tasks := s.tasks.modify u Task.resume } f frees nodes where
  free := inv.free
  queue := inv.queue
  tail := inv.tail
  entry := inv.entry
  small := inv.small
  contents := inv.contents
  cover n := by
    have same : Sys.copying { s with tasks := s.tasks.modify u Task.resume } n = s.copying n :=
      countP_modify (fun z => by rw [resume_node]) u
    rw [same]
    exact inv.cover n
  knows t z there := by
    have there : (s.tasks.modify u Task.resume)[t]? = some z := there
    rw [List.getElem?_modify] at there
    obtain ⟨x, before, after⟩ := Option.map_eq_some_iff.mp there
    have knows := inv.knows t x before
    split at after
    · subst after
      cases x <;> exact knows
    · subst after
      exact knows

theorem Inv.resumeReceiver (inv : Inv s f frees nodes) : Inv s.resumeReceiver f frees nodes := by
  unfold Sys.resumeReceiver
  split
  · exact inv
  · exact (inv.lists _ _).resume _

theorem Inv.resumeSender (inv : Inv s f frees nodes) : Inv s.resumeSender f frees nodes := by
  unfold Sys.resumeSender
  split
  · exact inv
  · exact (inv.lists _ _).resume _

/-! ## Moves of a node -/

/-- What a move of task `t` may change of the queue: nothing that the other tasks copy. -/
structure Moved (s : Sys) (t : Nat) (mq : Mq) (f f' : Fifo) : Prop where
  msgSize : mq.msgSize = s.mq.msgSize
  maxMsgs : mq.maxMsgs = s.mq.maxMsgs
  others : ∀ (u : Nat) (z : Task) (n : Nat), u ≠ t → s.tasks[u]? = some z → z.node = some n →
    mq.next n = s.mq.next n ∧ mq.data n = s.mq.data n
  received : ∀ u, u ≠ t → f'.received u = f.received u

/-- **A node moves**: it leaves one of its places and comes to another. -/
theorem Inv.move (inv : Inv s f frees nodes) (here : s.tasks[t]? = some x) (moved : Moved s t mq f f') {frees' nodes' : List Nat}
    (free : Chain mq.next mq.free frees') (queue : Chain mq.next mq.head nodes') (tail : mq.tail = nodes'.getLast?)
    (entry : mq.entry = nodes'.length)
    (cover : ∀ n, frees'.count n + nodes'.count n + (if y.node = some n then 1 else 0) =
      frees.count n + nodes.count n + if x.node = some n then 1 else 0)
    (contents : List.Forall₂ (Holds mq.data) nodes' f'.queue) (knows : y.Knows mq f' t) :
    Inv (Sys.become t y { s with mq := mq }) f' frees' nodes' where
  free := free
  queue := queue
  tail := tail
  entry := entry
  small := moved.maxMsgs ▸ inv.small
  contents := contents
  cover n := by
    have counted := copying_become (y := y) here n
    have before := inv.cover n
    have change := cover n
    change frees'.count n + nodes'.count n + (s.become t y).copying n = if n < mq.maxMsgs then 1 else 0
    rw [moved.maxMsgs]
    omega
  knows u z there := by
    have there : (s.become t y).tasks[u]? = some z := there
    by_cases self : u = t
    · subst self
      rw [become_same here] at there
      cases there
      exact knows
    · rw [become_other self] at there
      exact (inv.knows u z there).frame moved.msgSize (fun n node => moved.others u z n self there node) (moved.received u self)

theorem count_cons_node (as : List Nat) (n k : Nat) : (n :: as).count k = as.count k + if some n = some k then 1 else 0 := by
  rw [List.count_cons]
  simp

theorem contents_frame {data data' : Nat → Nat → Byte} {q : List (List Byte)} (kept : ∀ n ∈ nodes, data' n = data n)
    (contents : List.Forall₂ (Holds data) nodes q) : List.Forall₂ (Holds data') nodes q := by
  induction contents with
  | nil => exact .nil
  | cons holds _ ih =>
    refine .cons ?_ (ih fun n mem => kept n (List.mem_cons_of_mem _ mem))
    rw [Holds, kept _ List.mem_cons_self]
    exact holds

/-- The first free node is taken. -/
theorem Inv.takeFree (inv : Inv s f frees nodes) (here : s.tasks[t]? = some x) (none : x.node = none) (free : s.mq.free = some n)
    (node : y.node = some n) (knows : y.Knows s.mq f t) :
    ∃ frees', frees = n :: frees' ∧ Inv (Sys.become t y { s with mq := { s.mq with free := s.mq.next n } }) f frees' nodes := by
  obtain ⟨frees', split, rest⟩ := (free ▸ inv.free).rest
  have moved : Moved s t { s.mq with free := s.mq.next n } f f :=
    ⟨rfl, rfl, fun _ _ _ _ _ _ => ⟨rfl, rfl⟩, fun _ _ => rfl⟩
  refine ⟨frees', split, inv.move here moved rest inv.queue inv.tail inv.entry ?_ inv.contents
    (knows.frame rfl (fun _ _ => ⟨rfl, rfl⟩) rfl)⟩
  intro k
  rw [split, count_cons_node, node, none]
  simp only [reduceCtorEq, if_false]
  omega

/-- A task changes its own node. -/
theorem Inv.ownNode (inv : Inv s f frees nodes) (here : s.tasks[t]? = some x) (node : x.node = some n) (node' : y.node = some n)
    {next : Nat → Option Nat} {data : Nat → Nat → Byte} (links : ∀ k, k ≠ n → next k = s.mq.next k)
    (bytes : ∀ k, k ≠ n → data k = s.mq.data k) (knows : y.Knows { s.mq with next := next, data := data } f t) :
    Inv (Sys.become t y { s with mq := { s.mq with next := next, data := data } }) f frees nodes := by
  obtain ⟨offFree, offQueue⟩ := inv.off here node
  have moved : Moved s t { s.mq with next := next, data := data } f f := by
    refine ⟨rfl, rfl, fun u z k apart there own => ?_, fun _ _ => rfl⟩
    have other : k ≠ n := by
      rintro rfl
      exact apart (inv.apart here node there own)
    exact ⟨links k other, bytes k other⟩
  refine inv.move here moved ?_ ?_ inv.tail inv.entry ?_ ?_ knows
  · exact inv.free.congr fun k mem => links k (ne_of_mem_of_not_mem mem offFree)
  · exact inv.queue.congr fun k mem => links k (ne_of_mem_of_not_mem mem offQueue)
  · intro k
    rw [node, node']
  · exact contents_frame (fun k mem => bytes k (ne_of_mem_of_not_mem mem offQueue)) inv.contents

end Nodes

end OffLineProgrammer.Kernel
