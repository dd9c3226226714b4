import OffLineProgrammer.Kernel.QueueRuns

/-!
# Waiting for a message or for a node

A thread is suspended exactly while it is in one of the two lists, and what it waits for
does not lie unused: for every message that waits while a receiver is suspended another
receiver has been resumed, and likewise for the free nodes and the senders.
-/

namespace OffLineProgrammer.Kernel
set_option autoImplicit false
open OffLineProgrammer.Lib

def Call.isRecv : Call → Bool
  | .recv _ _ => true
  | _ => false

/-- The thread waits in a list of such calls. -/
def Task.waitsFor (recv : Bool) : Task → Bool
  | .suspended c => c.isRecv == recv
  | _ => false

/-- The thread has been resumed in such a call and has not gone on. -/
def Task.awake (recv : Bool) : Task → Bool
  | .resumed c => c.isRecv == recv
  | _ => false

/-- How many threads have been resumed in such a call and have not gone on. -/
def Sys.awake (recv : Bool) (s : Sys) : Nat := s.tasks.countP (Task.awake recv)

/-- A list of suspended threads: who waits in it, each once, by priority if the queue asks
for that. -/
structure Listed (priority : Nat → Nat) (flag : IpcFlag) (recv : Bool) (tasks : List Task) (list : List Nat) : Prop where
  member : ∀ t, t ∈ list ↔ ∃ x, tasks[t]? = some x ∧ x.waitsFor recv = true
  once : list.Nodup
  sorted : flag = .prio → list.Pairwise fun a b => priority a ≤ priority b

/-- Who waits, and what may lie unused: `messages` and `nodes` more than there are resumed
threads for them. -/
structure Waits (priority : Nat → Nat) (messages nodes : Nat) (s : Sys) : Prop where
  receivers : Listed priority s.mq.flag true s.tasks s.mq.receivers
  senders : Listed priority s.mq.flag false s.tasks s.mq.senders
  unread : s.mq.receivers ≠ [] → s.mq.entry ≤ s.awake true + messages
  unused : s.mq.senders ≠ [] → s.mq.maxMsgs ≤ s.mq.entry + s.held.length + s.awake false + nodes

/-! ## The lists -/

section Lists

variable {priority : Nat → Nat} {flag : IpcFlag} {recv : Bool} {tasks : List Task} {list ts : List Nat} {t : Nat} {x y : Task}

/-- A thread that does not wait there, before and after. -/
theorem Listed.other (listed : Listed priority flag recv tasks list) (here : tasks[t]? = some x) (before : x.waitsFor recv = false)
    (after : y.waitsFor recv = false) : Listed priority flag recv (tasks.set t y) list where
  once := listed.once
  sorted := listed.sorted
  member u := by
    rw [listed.member u]
    by_cases self : u = t
    · subst self
      obtain ⟨less, -⟩ := List.getElem?_eq_some_iff.mp here
      rw [here, List.getElem?_set_self less]
      constructor
      · rintro ⟨z, same, waits⟩
        cases same
        rw [before] at waits
        cases waits
      · rintro ⟨z, same, waits⟩
        cases same
        rw [after] at waits
        cases waits
    · rw [List.getElem?_set_ne (Ne.symm self)]

theorem mem_suspend (u : Nat) : u ∈ ipcListSuspend flag priority list t ↔ u ∈ list ∨ u = t := by
  cases flag with
  | fifo => simp [ipcListSuspend]
  | prio =>
    have split := List.takeWhile_append_dropWhile (p := fun s => decide (¬ priority t < priority s)) (l := list)
    conv_rhs => rw [← split]
    simp only [ipcListSuspend, List.mem_append, List.mem_cons]
    tauto

theorem nodup_suspend (once : list.Nodup) (fresh : t ∉ list) : (ipcListSuspend flag priority list t).Nodup := by
  cases flag with
  | fifo =>
    have single : [t].Nodup := List.nodup_singleton t
    refine once.append single fun u mem mem' => ?_
    rw [List.mem_singleton.mp mem'] at mem
    exact fresh mem
  | prio =>
    have split := List.takeWhile_append_dropWhile (p := fun s => decide (¬ priority t < priority s)) (l := list)
    rw [ipcListSuspend, List.nodup_middle, split]
    exact List.nodup_cons.mpr ⟨fresh, once⟩

/-- The thread goes before the first one with a greater number. -/
theorem sorted_suspend (sorted : list.Pairwise fun a b => priority a ≤ priority b) :
    (ipcListSuspend .prio priority list t).Pairwise fun a b => priority a ≤ priority b := by
  induction list with
  | nil => exact List.pairwise_singleton _ _
  | cons a rest ih =>
    obtain ⟨first, rest'⟩ := List.pairwise_cons.mp sorted
    by_cases less : priority t < priority a
    · have split : ipcListSuspend .prio priority (a :: rest) t = t :: a :: rest := by
        simp only [ipcListSuspend, List.takeWhile_cons, List.dropWhile_cons, less, not_true_eq_false, decide_false, Bool.false_eq_true,
          if_false, List.nil_append]
      rw [split]
      refine List.pairwise_cons.mpr ⟨fun b mem => ?_, sorted⟩
      rcases List.mem_cons.mp mem with rfl | mem
      · omega
      · have := first b mem
        omega
    · have split : ipcListSuspend .prio priority (a :: rest) t = a :: ipcListSuspend .prio priority rest t := by
        simp only [ipcListSuspend, List.takeWhile_cons, List.dropWhile_cons, less, not_false_eq_true, decide_true, if_true,
          List.cons_append]
      rw [split]
      refine List.pairwise_cons.mpr ⟨fun b mem => ?_, ih rest'⟩
      rcases (mem_suspend b).mp mem with mem | rfl
      · exact first b mem
      · omega

/-- A thread comes to wait. -/
theorem Listed.suspend (listed : Listed priority flag recv tasks list) (here : tasks[t]? = some x) (before : x.waitsFor recv = false)
    (after : y.waitsFor recv = true) : Listed priority flag recv (tasks.set t y) (ipcListSuspend flag priority list t) := by
  obtain ⟨less, -⟩ := List.getElem?_eq_some_iff.mp here
  have fresh : t ∉ list := fun mem => by
    obtain ⟨z, there, waits⟩ := (listed.member t).mp mem
    obtain rfl := Option.some.inj (here.symm.trans there)
    rw [before] at waits
    cases waits
  refine ⟨fun u => ?_, nodup_suspend listed.once fresh, fun prio => ?_⟩
  · rw [mem_suspend]
    by_cases self : u = t
    · subst self
      rw [List.getElem?_set_self less]
      exact iff_of_true (.inr rfl) ⟨y, rfl, after⟩
    · rw [List.getElem?_set_ne (Ne.symm self), ← listed.member u]
      exact or_iff_left self
  · subst prio
    exact sorted_suspend (listed.sorted rfl)

theorem modify_here {g : Task → Task} (here : tasks[t]? = some x) : tasks.modify t g = tasks.set t (g x) := by
  apply List.ext_getElem?
  intro u
  by_cases self : t = u
  · subst self
    obtain ⟨less, -⟩ := List.getElem?_eq_some_iff.mp here
    rw [List.getElem?_modify_eq, List.getElem?_set_self less, here]
    rfl
  · rw [List.getElem?_modify_ne _ _ self, List.getElem?_set_ne self]

theorem resume_waits (x : Task) (recv : Bool) : x.resume.waitsFor recv = false := by
  cases x <;> rfl

/-- The first thread no longer waits. -/
theorem Listed.resume (listed : Listed priority flag recv tasks (t :: ts)) : Listed priority flag recv (tasks.modify t Task.resume) ts := by
  obtain ⟨fresh, once⟩ := List.nodup_cons.mp listed.once
  refine ⟨fun u => ?_, once, fun prio => (List.pairwise_cons.mp (listed.sorted prio)).2⟩
  by_cases self : t = u
  · subst self
    refine iff_of_false fresh ?_
    rintro ⟨z, there, waits⟩
    rw [List.getElem?_modify_eq] at there
    obtain ⟨x, -, rfl⟩ := Option.map_eq_some_iff.mp there
    rw [resume_waits] at waits
    cases waits
  · have member := listed.member u
    rw [List.mem_cons, or_iff_right (Ne.symm self)] at member
    rw [List.getElem?_modify_ne _ _ self, member]

/-- A thread of the other list is resumed. -/
theorem Listed.resumeOther (listed : Listed priority flag recv tasks list) (here : tasks[t]? = some x) (other : x.waitsFor recv = false) :
    Listed priority flag recv (tasks.modify t Task.resume) list := by
  rw [modify_here here]
  exact listed.other here other (resume_waits _ _)

/-- A thread whose timer runs out leaves the list, wherever it stands. -/
theorem Listed.erase (listed : Listed priority flag recv tasks list) (here : tasks[t]? = some x) (after : y.waitsFor recv = false) :
    Listed priority flag recv (tasks.set t y) (list.erase t) := by
  obtain ⟨less, -⟩ := List.getElem?_eq_some_iff.mp here
  refine ⟨fun u => ?_, listed.once.erase t, fun prio => (listed.sorted prio).sublist List.erase_sublist⟩
  rw [listed.once.mem_erase_iff]
  by_cases self : u = t
  · subst self
    rw [List.getElem?_set_self less]
    refine iff_of_false (fun mem => mem.1 rfl) ?_
    rintro ⟨z, same, waits⟩
    cases same
    rw [after] at waits
    cases waits
  · rw [List.getElem?_set_ne (Ne.symm self), listed.member u]
    exact and_iff_right self

end Lists

/-! ## The numbers -/

section Numbers

variable {priority : Nat → Nat} {m k : Nat} {s : Sys} {t : Nat} {x y : Task}

theorem held_length (s : Sys) : s.held.length = s.tasks.countP fun x => x.node.isSome := List.length_filterMap_eq_countP

theorem one_or_none (b : Bool) : (if b = true then 1 else 0) = b.toNat := by
  cases b <;> rfl

theorem awake_become (here : s.tasks[t]? = some x) (mq : Mq) (y : Task) (recv : Bool) :
    (Sys.become t y { s with mq := mq }).awake recv + (x.awake recv).toNat = s.awake recv + (y.awake recv).toNat := by
  have counted := countP_set_add (p := Task.awake recv) (y := y) here
  rw [one_or_none, one_or_none] at counted
  exact counted

theorem held_become (here : s.tasks[t]? = some x) (mq : Mq) (y : Task) :
    (Sys.become t y { s with mq := mq }).held.length + x.node.isSome.toNat = s.held.length + y.node.isSome.toNat := by
  have counted := countP_set_add (p := fun x : Task => x.node.isSome) (y := y) here
  rw [one_or_none, one_or_none] at counted
  rw [held_length, held_length]
  exact counted

/-- A thread that does not wait, before and after, and leaves the lists as they are. -/
theorem Waits.become (waits : Waits priority m k s) {mq : Mq} (flag : mq.flag = s.mq.flag) (receivers : mq.receivers = s.mq.receivers)
    (senders : mq.senders = s.mq.senders) (here : s.tasks[t]? = some x) (before : ∀ recv, x.waitsFor recv = false)
    (after : ∀ recv, y.waitsFor recv = false) {m' k' : Nat} {u : Sys} (goes : u = Sys.become t y { s with mq := mq })
    (unread : s.mq.entry ≤ s.awake true + m → mq.entry ≤ u.awake true + m')
    (unused : s.mq.maxMsgs ≤ s.mq.entry + s.held.length + s.awake false + k →
      mq.maxMsgs ≤ mq.entry + u.held.length + u.awake false + k') : Waits priority m' k' u := by
  subst goes
  refine ⟨?_, ?_, fun some => unread (waits.unread (receivers ▸ some)), fun some => unused (waits.unused (senders ▸ some))⟩
  · change Listed priority mq.flag true (s.tasks.set t y) mq.receivers
    rw [flag, receivers]
    exact waits.receivers.other here (before true) (after true)
  · change Listed priority mq.flag false (s.tasks.set t y) mq.senders
    rw [flag, senders]
    exact waits.senders.other here (before false) (after false)

/-- One more thread is awake. -/
theorem resume_awake {c : Call} (here : s.tasks[t]? = some (.suspended c)) (mq : Mq) :
    Sys.awake c.isRecv ⟨mq, s.tasks.modify t Task.resume⟩ = s.awake c.isRecv + 1 ∧
      Sys.awake (!c.isRecv) ⟨mq, s.tasks.modify t Task.resume⟩ = s.awake (!c.isRecv) ∧
      (Sys.held ⟨mq, s.tasks.modify t Task.resume⟩).length = s.held.length := by
  have up : (s.become t (.resumed c)).awake c.isRecv = s.awake c.isRecv + 1 := by
    simpa [Task.awake] using awake_become here s.mq (.resumed c) c.isRecv
  have same : (s.become t (.resumed c)).awake (!c.isRecv) = s.awake (!c.isRecv) := by
    simpa [Task.awake] using awake_become here s.mq (.resumed c) (!c.isRecv)
  have held : (s.become t (.resumed c)).held.length = s.held.length := held_become here s.mq (.resumed c)
  have moved : s.tasks.modify t Task.resume = (s.become t (.resumed c)).tasks := modify_here here
  rw [moved]
  exact ⟨up, same, held⟩

/-- A thread at the front of a list waits there. -/
theorem Listed.front {flag : IpcFlag} {recv : Bool} {tasks : List Task} {ts : List Nat}
    (listed : Listed priority flag recv tasks (t :: ts)) : ∃ c, tasks[t]? = some (.suspended c) ∧ c.isRecv = recv := by
  obtain ⟨x, here, waiting⟩ := (listed.member t).mp List.mem_cons_self
  cases x with
  | suspended c => exact ⟨c, here, eq_of_beq waiting⟩
  | _ => cases waiting

/-- A receiver is resumed for a message, if one waits. -/
theorem Waits.resumeReceiver (waits : Waits priority 1 k s) : Waits priority 0 k s.resumeReceiver := by
  unfold Sys.resumeReceiver
  split
  · rename_i none
    exact { waits with unread := fun some => absurd none some }
  · rename_i t ts list
    have receivers := waits.receivers
    rw [list] at receivers
    obtain ⟨c, here, recv⟩ := receivers.front
    have other : (Task.suspended c).waitsFor false = false := by
      rw [Task.waitsFor, recv]
      rfl
    obtain ⟨up, same, held⟩ := resume_awake here { s.mq with receivers := ts }
    rw [recv] at up same
    refine ⟨receivers.resume, waits.senders.resumeOther here other, fun _ => ?_, fun some => ?_⟩
    · have less := waits.unread (by rw [list]; exact List.cons_ne_nil _ _)
      rw [up]
      exact less
    · have less := waits.unused some
      rw [Bool.not_true] at same
      rw [same, held]
      exact less

/-- A sender is resumed for a node, if one waits. -/
theorem Waits.resumeSender (waits : Waits priority m 1 s) : Waits priority m 0 s.resumeSender := by
  unfold Sys.resumeSender
  split
  · rename_i none
    exact { waits with unused := fun some => absurd none some }
  · rename_i t ts list
    have senders := waits.senders
    rw [list] at senders
    obtain ⟨c, here, send⟩ := senders.front
    have other : (Task.suspended c).waitsFor true = false := by
      rw [Task.waitsFor, send]
      rfl
    obtain ⟨up, same, held⟩ := resume_awake here { s.mq with senders := ts }
    rw [send] at up same
    refine ⟨waits.receivers.resumeOther here other, senders.resume, fun some => ?_, fun _ => ?_⟩
    · have less := waits.unread some
      rw [Bool.not_false] at same
      rw [same]
      exact less
    · have less := waits.unused (by rw [list]; exact List.cons_ne_nil _ _)
      rw [up, held]
      change s.mq.maxMsgs ≤ s.mq.entry + s.held.length + (s.awake false + 1) + 0
      omega

end Numbers

/-! ## One step -/

section Step

variable {priority : Nat → Nat} {s u : Sys} {t : Nat} {x : Task} {c : Call} {f : Fifo} {frees nodes : List Nat}

/-- A task in front of the loop of a call: it has just called, or has been resumed in it. -/
def Before (c : Call) (x : Task) : Prop := (∃ last, x = .idle last) ∨ ∃ c', x = .resumed c' ∧ c'.isRecv = c.isRecv

theorem Before.waits (before : Before c x) (recv : Bool) : x.waitsFor recv = false := by
  obtain ⟨last, rfl⟩ | ⟨c', rfl, -⟩ := before <;> rfl

theorem Before.node (before : Before c x) : x.node = none := by
  obtain ⟨last, rfl⟩ | ⟨c', rfl, -⟩ := before <;> rfl

/-- It counts as awake for its own kind of call only. -/
theorem Before.awake (before : Before c x) {recv : Bool} (other : c.isRecv ≠ recv) : x.awake recv = false := by
  obtain ⟨last, rfl⟩ | ⟨c', rfl, same⟩ := before
  · rfl
  · exact beq_false_of_ne (same ▸ other)

/-- A task that leaves the front of the loop was at most one of those awake for its kind. -/
theorem Before.counts (before : Before c x) (here : s.tasks[t]? = some x) (mq : Mq) {y : Task} (quiet : ∀ recv, y.awake recv = false) :
    (Sys.become t y { s with mq := mq }).awake (!c.isRecv) = s.awake (!c.isRecv) ∧
      s.awake c.isRecv ≤ (Sys.become t y { s with mq := mq }).awake c.isRecv + 1 ∧
      (Sys.become t y { s with mq := mq }).held.length = s.held.length + y.node.isSome.toNat := by
  have other := awake_become here mq y (!c.isRecv)
  have own := awake_become here mq y c.isRecv
  have held := held_become here mq y
  rw [quiet, before.awake (fun same => by cases h : c.isRecv <;> rw [h] at same <;> cases same)] at other
  rw [quiet] at own
  rw [before.node] at held
  have most := Bool.toNat_le (x.awake c.isRecv)
  refine ⟨other, ?_, held⟩
  change _ = s.awake c.isRecv + 0 at own
  omega

/-- A thread that suspends: nothing lies unused that it could have had. -/
theorem Waits.suspendSender (waits : Waits priority 0 0 s) (here : s.tasks[t]? = some x) (before : Before c x) (send : c.isRecv = false)
    (full : s.mq.entry + s.held.length = s.mq.maxMsgs) :
    Waits priority 0 0 (Sys.become t (.suspended c)
      { s with mq := { s.mq with senders := ipcListSuspend s.mq.flag priority s.mq.senders t } }) := by
  have waitsFor : ∀ recv, (Task.suspended c).waitsFor recv = (false == recv) := fun recv => by rw [← send]; rfl
  obtain ⟨same, -, held⟩ := before.counts here { s.mq with senders := ipcListSuspend s.mq.flag priority s.mq.senders t }
    (y := .suspended c) fun _ => rfl
  rw [send] at same
  refine ⟨waits.receivers.other here (before.waits _) (waitsFor true), waits.senders.suspend here (before.waits _) (waitsFor false),
    fun some => ?_, fun _ => ?_⟩
  · have less := waits.unread some
    rw [Bool.not_false] at same
    rw [same]
    exact less
  · rw [held]
    change s.mq.maxMsgs ≤ s.mq.entry + (s.held.length + 0) + _ + 0
    omega

theorem Waits.suspendReceiver (waits : Waits priority 0 0 s) (here : s.tasks[t]? = some x) (before : Before c x) (recv : c.isRecv = true)
    (empty : s.mq.entry = 0) :
    Waits priority 0 0 (Sys.become t (.suspended c)
      { s with mq := { s.mq with receivers := ipcListSuspend s.mq.flag priority s.mq.receivers t } }) := by
  have waitsFor : ∀ recv, (Task.suspended c).waitsFor recv = (true == recv) := fun recv' => by rw [← recv]; rfl
  obtain ⟨same, -, held⟩ := before.counts here { s.mq with receivers := ipcListSuspend s.mq.flag priority s.mq.receivers t }
    (y := .suspended c) fun _ => rfl
  rw [recv] at same
  refine ⟨waits.receivers.suspend here (before.waits _) (waitsFor true), waits.senders.other here (before.waits _) (waitsFor false),
    fun _ => ?_, fun some => ?_⟩
  · change s.mq.entry ≤ _
    omega
  · have less := waits.unused some
    rw [Bool.not_true] at same
    rw [same, held]
    exact less

/-- A task that leaves the loop takes what it was awake for, or there is none. -/
theorem Waits.leave (waits : Waits priority 0 0 s) (here : s.tasks[t]? = some x) (before : Before c x) {mq : Mq} {y : Task}
    (quiet : ∀ recv, y.awake recv = false) (after : ∀ recv, y.waitsFor recv = false) (flag : mq.flag = s.mq.flag)
    (receivers : mq.receivers = s.mq.receivers) (senders : mq.senders = s.mq.senders) (max : mq.maxMsgs = s.mq.maxMsgs)
    (message : mq.entry + c.isRecv.toNat ≤ s.mq.entry ∨ mq.entry = 0)
    (node : s.mq.entry + (!c.isRecv).toNat ≤ mq.entry + y.node.isSome.toNat ∨
      s.mq.entry + s.held.length = s.mq.maxMsgs ∧ mq.entry = s.mq.entry) :
    Waits priority 0 0 (Sys.become t y { s with mq := mq }) := by
  obtain ⟨other, own, held⟩ := before.counts here mq quiet
  refine waits.become flag receivers senders here before.waits after rfl (fun unread => ?_) (fun unused => ?_)
  · cases recv : c.isRecv with
    | true =>
      rw [recv] at own message
      change s.awake true ≤ _ at own
      change mq.entry + 1 ≤ _ ∨ _ at message
      omega
    | false =>
      rw [recv] at other message
      rw [Bool.not_false] at other
      change mq.entry + 0 ≤ _ ∨ _ at message
      omega
  · cases recv : c.isRecv with
    | true =>
      rw [recv] at other node
      rw [Bool.not_true] at other
      change s.mq.entry + 0 ≤ _ ∨ _ at node
      omega
    | false =>
      rw [recv] at own node
      change s.awake false ≤ _ at own
      change s.mq.entry + 1 ≤ _ ∨ _ at node
      omega

/-- **One turn of the loop of a call**. A thread that suspends again finds nothing unused. -/
theorem Waits.attempt (waits : Waits priority 0 0 s) (inv : Inv s f frees nodes) (here : s.tasks[t]? = some x) (before : Before c x)
    (go : s.attempt priority t c = some u) : Waits priority 0 0 u := by
  have shares := inv.shares
  rw [← inv.entry] at shares
  have full : s.mq.free = none → s.mq.entry + s.held.length = s.mq.maxMsgs := by
    intro free
    rw [inv.free.empty.mp free, List.length_nil] at shares
    omega
  cases c with
  | send buffer timeout =>
    simp only [Sys.attempt] at go
    split at go
    · rename_i free
      split at go
      · cases go
        exact waits.leave here before (fun _ => rfl) (fun _ => rfl) rfl rfl rfl rfl (.inl le_rfl) (.inr ⟨full free, rfl⟩)
      · cases go
        exact waits.suspendSender here before rfl (full free)
    · cases go
      exact waits.leave here before (fun _ => rfl) (fun _ => rfl) rfl rfl rfl rfl (.inl le_rfl) (.inl le_rfl)
  | urgent buffer =>
    simp only [Sys.attempt] at go
    split at go
    · rename_i free
      cases go
      exact waits.leave here before (fun _ => rfl) (fun _ => rfl) rfl rfl rfl rfl (.inl le_rfl) (.inr ⟨full free, rfl⟩)
    · cases go
      exact waits.leave here before (fun _ => rfl) (fun _ => rfl) rfl rfl rfl rfl (.inl le_rfl) (.inl le_rfl)
  | recv size timeout =>
    simp only [Sys.attempt] at go
    split at go
    · rename_i empty
      split at go
      · cases go
        exact waits.leave here before (fun _ => rfl) (fun _ => rfl) rfl rfl rfl rfl (.inr empty) (.inl le_rfl)
      · cases go
        exact waits.suspendReceiver here before rfl empty
    · rename_i waiting
      obtain ⟨⟨n, mq'⟩, unlinked, rfl⟩ := Option.map_eq_some_iff.mp go
      obtain ⟨k, head, same⟩ := Option.map_eq_some_iff.mp unlinked
      have less : (if 0 < s.mq.entry then s.mq.entry - 1 else s.mq.entry) = s.mq.entry - 1 := if_pos (Nat.pos_of_ne_zero waiting)
      have positive := Nat.pos_of_ne_zero waiting
      cases same
      refine waits.leave here before (fun _ => rfl) (fun _ => rfl) rfl rfl rfl rfl (.inl ?_) (.inl ?_)
      · change (if 0 < s.mq.entry then s.mq.entry - 1 else s.mq.entry) + 1 ≤ s.mq.entry
        omega
      · change s.mq.entry + 0 ≤ (if 0 < s.mq.entry then s.mq.entry - 1 else s.mq.entry) + 1
        omega

/-- A task that has nothing, before and after. -/
theorem Waits.quiet (waits : Waits priority 0 0 s) (here : s.tasks[t]? = some x)
    (before : ∀ recv, x.waitsFor recv = false ∧ x.awake recv = false) (off : x.node = none) {y : Task}
    (after : ∀ recv, y.waitsFor recv = false ∧ y.awake recv = false) (off' : y.node = none) {mq : Mq} (flag : mq.flag = s.mq.flag)
    (receivers : mq.receivers = s.mq.receivers) (senders : mq.senders = s.mq.senders) (max : mq.maxMsgs = s.mq.maxMsgs)
    (entry : mq.entry = s.mq.entry) : Waits priority 0 0 (Sys.become t y { s with mq := mq }) := by
  have recv := awake_become here mq y true
  have send := awake_become here mq y false
  have held := held_become here mq y
  rw [(before _).2, (after _).2] at recv send
  rw [off, off'] at held
  refine waits.become flag receivers senders here (fun recv => (before recv).1) (fun recv => (after recv).1) rfl
    (fun unread => ?_) (fun unused => ?_)
  · omega
  · omega

theorem Waits.enter (waits : Waits priority 0 0 s) (inv : Inv s f frees nodes) {last : Option Returned}
    (here : s.tasks[t]? = some (.idle last)) (go : s.enter priority t c = some u) : Waits priority 0 0 u := by
  unfold Sys.enter at go
  split at go
  · exact waits.attempt inv here (.inl ⟨last, rfl⟩) go
  · cases go
    exact waits.quiet here (fun _ => ⟨rfl, rfl⟩) rfl (fun _ => ⟨rfl, rfl⟩) rfl rfl rfl rfl rfl rfl

/-- A task with a node neither waits nor has been resumed. -/
theorem busy {n : Nat} (node : x.node = some n) (recv : Bool) : x.waitsFor recv = false ∧ x.awake recv = false := by
  cases x with
  | taken => exact ⟨rfl, rfl⟩
  | filling => exact ⟨rfl, rfl⟩
  | draining => exact ⟨rfl, rfl⟩
  | _ => cases node

/-- A task that copies, up to the giving back of its node. -/
theorem Waits.copy {m k n : Nat} (waits : Waits priority 0 0 s) (here : s.tasks[t]? = some x) (node : x.node = some n) {mq : Mq}
    {y : Task} (quiet : ∀ recv, y.awake recv = false) (after : ∀ recv, y.waitsFor recv = false) (flag : mq.flag = s.mq.flag)
    (receivers : mq.receivers = s.mq.receivers) (senders : mq.senders = s.mq.senders) (max : mq.maxMsgs = s.mq.maxMsgs)
    (message : mq.entry ≤ s.mq.entry + m) (given : s.mq.entry + 1 ≤ mq.entry + y.node.isSome.toNat + k) :
    Waits priority m k (Sys.become t y { s with mq := mq }) := by
  have recv := awake_become here mq y true
  have send := awake_become here mq y false
  have held := held_become here mq y
  rw [quiet, (busy node _).2] at recv send
  rw [node] at held
  change _ + 1 = _ at held
  refine waits.become flag receivers senders here (fun recv => (busy node recv).1) after rfl (fun unread => ?_) (fun unused => ?_)
  · omega
  · omega

/-- The second section of a send. -/
theorem Waits.link {n k : Nat} {urgent : Bool} {buffer : List Byte} (waits : Waits priority 0 0 s) (inv : Inv s f frees nodes)
    (here : s.tasks[t]? = some (.filling n urgent buffer k)) : Waits priority 0 0 (s.link t n urgent) := by
  have room := inv.room here rfl
  cases urgent with
  | true =>
    have counted : (s.mq.linkHead n).count = some { s.mq.linkHead n with entry := s.mq.entry + 1 } := count_linked room
    have linked : Waits priority 1 0
        (Sys.become t (.idle (some (.eok []))) { s with mq := { s.mq.linkHead n with entry := s.mq.entry + 1 } }) :=
      waits.copy here rfl (fun _ => rfl) (fun _ => rfl) rfl rfl rfl rfl le_rfl le_rfl
    simp only [Sys.link, if_true, counted]
    exact linked.resumeReceiver
  | false =>
    have counted : (s.mq.linkTail n).count = some { s.mq.linkTail n with entry := s.mq.entry + 1 } := count_linked room
    have linked : Waits priority 1 0
        (Sys.become t (.idle (some (.eok []))) { s with mq := { s.mq.linkTail n with entry := s.mq.entry + 1 } }) :=
      waits.copy here rfl (fun _ => rfl) (fun _ => rfl) rfl rfl rfl rfl le_rfl le_rfl
    simp only [Sys.link, Bool.false_eq_true, if_false, counted]
    exact linked.resumeReceiver

theorem isRecv_after (elapsed : Nat) (c : Call) : (c.after elapsed).isRecv = c.isRecv := by
  cases c <;> rfl

theorem Waits.goOn (waits : Waits priority 0 0 s) (inv : Inv s f frees nodes) {elapsed : Nat}
    (go : s.goOn priority t elapsed = some u) : Waits priority 0 0 u := by
  cases here : s.tasks[t]? with
  | none =>
    simp only [Sys.goOn, here] at go
    exact Option.some.inj go ▸ waits
  | some x =>
    cases x with
    | idle last =>
      simp only [Sys.goOn, here] at go
      exact Option.some.inj go ▸ waits
    | suspended c =>
      simp only [Sys.goOn, here] at go
      exact Option.some.inj go ▸ waits
    | resumed c =>
      simp only [Sys.goOn, here] at go
      exact waits.attempt inv here (.inr ⟨c, rfl, (isRecv_after elapsed c).symm⟩) go
    | timedOut c =>
      simp only [Sys.goOn, here] at go
      cases go
      exact waits.quiet here (fun _ => ⟨rfl, rfl⟩) rfl (fun _ => ⟨rfl, rfl⟩) rfl rfl rfl rfl rfl rfl
    | taken n buffer =>
      simp only [Sys.goOn, here] at go
      cases go
      exact waits.copy here rfl (fun _ => rfl) (fun _ => rfl) rfl rfl rfl rfl le_rfl le_rfl
    | filling n urgent buffer k =>
      simp only [Sys.goOn, here] at go
      split at go
      · cases go
        exact waits.copy here rfl (fun _ => rfl) (fun _ => rfl) rfl rfl rfl rfl le_rfl le_rfl
      · cases go
        exact waits.link inv here
    | draining n size got =>
      simp only [Sys.goOn, here] at go
      split at go
      · cases go
        exact waits.copy here rfl (fun _ => rfl) (fun _ => rfl) rfl rfl rfl rfl le_rfl le_rfl
      · cases go
        have given : Waits priority 0 1 (Sys.become t (.idle (some (.eok got))) { s with mq := s.mq.giveBack n }) :=
          waits.copy here rfl (fun _ => rfl) (fun _ => rfl) rfl rfl rfl rfl le_rfl le_rfl
        exact given.resumeSender

/-- A timer runs out: its thread leaves the list it waits in. -/
theorem Waits.expire (waits : Waits priority 0 0 s) (here : s.tasks[t]? = some (.suspended c)) :
    Waits priority 0 0 (Sys.become t (.timedOut c) { s with mq := { s.mq with
      receivers := s.mq.receivers.erase t
      senders := s.mq.senders.erase t } }) where
  receivers := waits.receivers.erase here rfl
  senders := waits.senders.erase here rfl
  unread some := by
    have awake := awake_become here { s.mq with receivers := s.mq.receivers.erase t, senders := s.mq.senders.erase t } (.timedOut c) true
    have less := waits.unread fun none => some (by rw [none]; rfl)
    exact Nat.le_trans less (Nat.le_of_eq awake.symm)
  unused some := by
    have awake := awake_become here { s.mq with receivers := s.mq.receivers.erase t, senders := s.mq.senders.erase t } (.timedOut c) false
    have held := held_become here { s.mq with receivers := s.mq.receivers.erase t, senders := s.mq.senders.erase t } (.timedOut c)
    have less := waits.unused fun none => some (by rw [none]; rfl)
    change _ = s.awake false at awake
    change _ = s.held.length at held
    rw [← held, ← awake] at less
    exact less

/-- **One event** leaves nothing unused that a suspended thread could have. -/
theorem Waits.step (waits : Waits priority 0 0 s) (inv : Inv s f frees nodes) (e : Event) (go : s.step priority e = some u) :
    Waits priority 0 0 u := by
  cases e with
  | call t c =>
    simp only [Sys.step] at go
    split at go
    · exact waits.enter inv ‹_› go
    · exact Option.some.inj go ▸ waits
  | run t elapsed => exact waits.goOn inv go
  | expire t =>
    simp only [Sys.step] at go
    split at go
    · split at go
      · cases go
        exact waits.expire ‹_›
      · exact Option.some.inj go ▸ waits
    · exact Option.some.inj go ▸ waits

end Step

/-! ## Runs -/

section Runs

variable {priority : Nat → Nat} {flag : IpcFlag} {msgSize maxMsgs : Nat} {next : Nat → Option Nat} {data : Nat → Nat → Byte} {n : Nat}
  {es : List Event} {s : Sys}

theorem listed_nobody (recv : Bool) : Listed priority flag recv (List.replicate n (.idle none)) [] where
  member t := by
    refine iff_of_false (List.not_mem_nil) ?_
    rintro ⟨x, here, waits⟩
    rw [List.eq_of_mem_replicate (List.mem_of_getElem? here)] at waits
    cases waits
  once := List.nodup_nil
  sorted _ := List.Pairwise.nil

/-- **No wakeup is lost**. In every state that is reached the suspended threads are exactly
those of the two lists, each once and by priority where the queue asks for it; and while a
thread waits, every message, or every free node, has a resumed thread that comes for it. -/
theorem Sys.run_waits (reached : Run.run (step priority) es (created flag msgSize maxMsgs next data n) = some s) :
    Waits priority 0 0 s := by
  have kept : ∀ s e u, ((∃ f frees nodes, Inv s f frees nodes) ∧ Waits priority 0 0 s) → step priority e s = some u →
      (∃ f frees nodes, Inv u f frees nodes) ∧ Waits priority 0 0 u := by
    rintro s e u ⟨⟨f, frees, nodes, inv⟩, waits⟩ go
    obtain ⟨u', f', frees', nodes', same, -, -, inv'⟩ := inv.step priority e
    obtain rfl := Option.some.inj (go.symm.trans same)
    exact ⟨⟨f', frees', nodes', inv'⟩, waits.step inv e go⟩
  have init : Waits priority 0 0 (created flag msgSize maxMsgs next data n) :=
    ⟨listed_nobody true, listed_nobody false, fun some => absurd rfl some, fun some => absurd rfl some⟩
  exact (Run.reachable_inv (fun s => (∃ f frees nodes, Inv s f frees nodes) ∧ Waits priority 0 0 s) kept
    ⟨⟨_, _, _, inv_create flag msgSize maxMsgs next data n⟩, init⟩ ⟨es, reached⟩).2

/-- A receiver waits, and a message is being copied. -/
theorem Sys.run_waits_receiver :
    ∃ s, Run.run (step id) [.call 0 (.recv 4 (-1)), .call 1 (.send [7] 0)] (created .prio 4 2 (fun _ => none) (fun _ _ => 0) 2) = some s ∧
      s.mq.receivers = [0] ∧ Waits id 0 0 s := by
  obtain ⟨s, go, waiting⟩ : ∃ s, Run.run (step id) [.call 0 (.recv 4 (-1)), .call 1 (.send [7] 0)]
      (created .prio 4 2 (fun _ => none) (fun _ _ => 0) 2) = some s ∧ s.mq.receivers = [0] := ⟨_, rfl, rfl⟩
  exact ⟨s, go, waiting, run_waits go⟩

/-- When every resumed thread has gone on, a receiver waits only at an empty queue, and a
sender only while every node is in the queue or with a task that copies. -/
theorem Sys.settled (reached : Run.run (step priority) es (created flag msgSize maxMsgs next data n) = some s)
    (none : ∀ c, Task.resumed c ∉ s.tasks) :
    (s.mq.receivers ≠ [] → s.mq.entry = 0) ∧ (s.mq.senders ≠ [] → s.mq.free = Option.none) := by
  have waits := run_waits reached
  obtain ⟨⟨f, frees, nodes, inv⟩, -⟩ := reached_inv reached
  have asleep : ∀ recv, s.awake recv = 0 := by
    intro recv
    refine List.countP_eq_zero.mpr fun x mem awake => ?_
    cases x with
    | resumed c => exact none c mem
    | _ => cases awake
  have shares := inv.shares
  rw [← inv.entry] at shares
  constructor
  · intro some
    have less := waits.unread some
    rw [asleep] at less
    omega
  · intro some
    have less := waits.unused some
    rw [asleep] at less
    rw [inv.free.empty, ← List.length_eq_zero_iff]
    omega

end Runs

end OffLineProgrammer.Kernel
