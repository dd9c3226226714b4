import OffLineProgrammer.Lib.ByteMem
import OffLineProgrammer.Lib.Run
import OffLineProgrammer.Lib.Linked

/-!
# Message queues, from ipc.c

A message lies in a node of the pool of its queue. The nodes that are free and those
that wait to be received are two linked lists. A call of `rt_mq_send`, `rt_mq_urgent` or
`rt_mq_recv` works on the lists with interrupts disabled, but copies its message with
interrupts enabled: between any two steps of one task every other may run. An interrupt
handler is a task that never waits.
-/

namespace OffLineProgrammer.Kernel
set_option autoImplicit false
open OffLineProgrammer.Lib

abbrev RT_MQ_ENTRY_MAX : Nat := 0xFFFF

/-- `RT_IPC_FLAG_FIFO` and `RT_IPC_FLAG_PRIO` -/
inductive IpcFlag where
  | fifo
  | prio
  deriving DecidableEq

/-- A call with its arguments; the buffer of a send is as long as its size says. -/
inductive Call where
  | send (buffer : List Byte) (timeout : Int)
  | urgent (buffer : List Byte)
  | recv (size : Nat) (timeout : Int)

/-- What a call returns; `eok` comes with what has been copied to the caller's buffer. -/
inductive Returned where
  | eok (buffer : List Byte)
  | error
  | efull
  | etimeout

/-- Where a task stands. -/
inductive Task where
  /-- Outside of the calls, with what the last one returned. -/
  | idle (last : Option Returned)
  /-- In the list of suspended threads. -/
  | suspended (c : Call)
  /-- Resumed with `RT_EOK`: the loop goes round again. -/
  | resumed (c : Call)
  /-- Resumed by its timer with `-RT_ETIMEOUT`. -/
  | timedOut (c : Call)
  /-- `rt_mq_send` has taken a node off the free list. -/
  | taken (node : Nat) (buffer : List Byte)
  /-- `rt_memcpy(msg + 1, buffer, size)` -/
  | filling (node : Nat) (urgent : Bool) (buffer : List Byte) (copied : Nat)
  /-- `rt_memcpy(buffer, msg + 1, ..)` -/
  | draining (node size : Nat) (got : List Byte)

/-- `struct rt_messagequeue`, with the nodes of its pool: `next` and what follows it. -/
structure Mq where
  flag : IpcFlag
  msgSize : Nat
  maxMsgs : Nat
  entry : Nat
  head : Option Nat
  tail : Option Nat
  free : Option Nat
  next : Nat → Option Nat
  data : Nat → Nat → Byte
  /-- `suspend_thread` and `suspend_sender_thread` -/
  receivers : List Nat
  senders : List Nat

namespace Mq

/-- The loop of `rt_mq_create` over the nodes. -/
def freeList (next : Nat → Option Nat) : Nat → (Nat → Option Nat) × Option Nat
  | 0 => (next, none)
  | temp + 1 =>
    let rest := freeList next temp
    (Function.update rest.1 temp rest.2, some temp)

/-- `rt_mq_create`, with what its pool holds; the sizes are kept in 16 bits. -/
def rtMqCreate (flag : IpcFlag) (msgSize maxMsgs : Nat) (next : Nat → Option Nat) (data : Nat → Nat → Byte) : Mq where
  flag := flag
  msgSize := msgSize % 2 ^ 16
  maxMsgs := maxMsgs % 2 ^ 16
  entry := 0
  head := none
  tail := none
  free := (freeList next (maxMsgs % 2 ^ 16)).2
  next := (freeList next (maxMsgs % 2 ^ 16)).1
  data := data
  receivers := []
  senders := []

/-- The end of `rt_mq_send`: the message is the last. -/
def linkTail (n : Nat) (mq : Mq) : Mq where
  __ := mq
  next := match mq.tail with
    | some l => Function.update mq.next l (some n)
    | none => mq.next
  tail := some n
  head := if mq.head = none then some n else mq.head

/-- The end of `rt_mq_urgent`: the message is the first. -/
def linkHead (n : Nat) (mq : Mq) : Mq where
  __ := mq
  next := Function.update mq.next n mq.head
  head := some n
  tail := if mq.tail = none then some n else mq.tail

/-- `mq->entry ++`, unless the value would overflow. -/
def count (mq : Mq) : Option Mq := if mq.entry < RT_MQ_ENTRY_MAX then some { mq with entry := mq.entry + 1 } else none

/-- `rt_mq_recv` takes the first message, unless the head is null. -/
def unlink (mq : Mq) : Option (Nat × Mq) :=
  mq.head.map fun n => (n, { mq with
    head := mq.next n
    tail := if mq.tail = some n then none else mq.tail
    entry := if 0 < mq.entry then mq.entry - 1 else mq.entry })

/-- The node goes back to the free list. -/
def giveBack (n : Nat) (mq : Mq) : Mq := { mq with next := Function.update mq.next n mq.free, free := some n }

end Mq

namespace Call

/-- Not greater than one message size. -/
def fits (msgSize : Nat) : Call → Bool
  | .send buffer _ => buffer.length ≤ msgSize
  | .urgent buffer => buffer.length ≤ msgSize
  | .recv _ _ => true

/-- The timeout after some ticks of waiting. -/
def left (timeout : Int) (elapsed : Nat) : Int := if 0 < timeout then max (timeout - elapsed) 0 else timeout

/-- A call that goes round again. -/
def after (elapsed : Nat) : Call → Call
  | .send buffer timeout => .send buffer (left timeout elapsed)
  | .urgent buffer => .urgent buffer
  | .recv size timeout => .recv size (left timeout elapsed)

/-- The timer of the thread has been started. -/
def timed : Call → Bool
  | .send _ timeout => 0 < timeout
  | .urgent _ => false
  | .recv _ timeout => 0 < timeout

end Call

/-- `_ipc_list_resume` for the thread it takes from the list. -/
def Task.resume : Task → Task
  | .suspended c => .resumed c
  | x => x

/-- `_ipc_list_suspend`: where a thread waits among those that wait already. -/
def ipcListSuspend (flag : IpcFlag) (priority : Nat → Nat) (list : List Nat) (t : Nat) : List Nat :=
  match flag with
  | .fifo => list ++ [t]
  | .prio =>
    list.takeWhile (fun s => decide (¬ priority t < priority s)) ++ t :: list.dropWhile fun s => decide (¬ priority t < priority s)

/-- A queue with the tasks that use it. -/
structure Sys where
  mq : Mq
  tasks : List Task

/-- What happens: a task calls, a task goes on (after some ticks if it has waited), the
timer of a thread runs out. -/
inductive Event where
  | call (t : Nat) (c : Call)
  | run (t elapsed : Nat)
  | expire (t : Nat)

namespace Sys

def become (t : Nat) (x : Task) (s : Sys) : Sys := { s with tasks := s.tasks.set t x }

/-- The first thread that waits for a message is resumed, if there is one. -/
def resumeReceiver (s : Sys) : Sys :=
  match s.mq.receivers with
  | [] => s
  | t :: ts => { s with mq := { s.mq with receivers := ts }, tasks := s.tasks.modify t Task.resume }

/-- The first thread that waits for a free node is resumed, if there is one. -/
def resumeSender (s : Sys) : Sys :=
  match s.mq.senders with
  | [] => s
  | t :: ts => { s with mq := { s.mq with senders := ts }, tasks := s.tasks.modify t Task.resume }

variable (priority : Nat → Nat)

/-- The loop of a call, from the test of its condition with interrupts disabled on; it fails
where a null head would be followed. -/
def attempt (t : Nat) (c : Call) (s : Sys) : Option Sys :=
  match c with
  | .send buffer timeout => match s.mq.free with
    | none =>
      if timeout = 0 then some (s.become t (.idle (some .efull)))
      else some ({ s with mq := { s.mq with
        senders := ipcListSuspend s.mq.flag priority s.mq.senders t } }.become t (.suspended c))
    | some n => some ({ s with mq := { s.mq with free := s.mq.next n } }.become t (.taken n buffer))
  | .urgent buffer => match s.mq.free with
    | none => some (s.become t (.idle (some .efull)))
    | some n => some ({ s with mq := { s.mq with free := s.mq.next n } }.become t (.filling n true buffer 0))
  | .recv size timeout =>
    if s.mq.entry = 0 then
      if timeout = 0 then some (s.become t (.idle (some .etimeout)))
      else some ({ s with mq := { s.mq with
        receivers := ipcListSuspend s.mq.flag priority s.mq.receivers t } }.become t (.suspended c))
    else s.mq.unlink.map fun r => { s with mq := r.2 }.become t (.draining r.1 size [])

/-- A call up to the end of its first section with interrupts disabled. -/
def enter (t : Nat) (c : Call) (s : Sys) : Option Sys :=
  if c.fits s.mq.msgSize then s.attempt priority t c else some (s.become t (.idle (some .error)))

/-- The second section with interrupts disabled of a send. -/
def link (t n : Nat) (urgent : Bool) (s : Sys) : Sys :=
  let mq := if urgent then s.mq.linkHead n else s.mq.linkTail n
  match mq.count with
  | none => { s with mq := mq }.become t (.idle (some .efull))
  | some mq => ({ s with mq := mq }.become t (.idle (some (.eok [])))).resumeReceiver

/-- The second section with interrupts disabled of `rt_mq_recv`. -/
def giveBack (t n : Nat) (got : List Byte) (s : Sys) : Sys :=
  ({ s with mq := s.mq.giveBack n }.become t (.idle (some (.eok got)))).resumeSender

/-- The next step of a task. -/
def goOn (t elapsed : Nat) (s : Sys) : Option Sys :=
  match s.tasks[t]? with
  | some (.resumed c) => s.attempt priority t (c.after elapsed)
  | some (.timedOut _) => some (s.become t (.idle (some .etimeout)))
  | some (.taken n buffer) =>
    some ({ s with mq := { s.mq with next := Function.update s.mq.next n none } }.become t (.filling n false buffer 0))
  | some (.filling n urgent buffer k) =>
    some (if k < buffer.length then
      { s with mq := { s.mq with
        data := Function.update s.mq.data n (Function.update (s.mq.data n) k (buffer.getD k 0)) } }.become t
          (.filling n urgent buffer (k + 1))
    else s.link t n urgent)
  | some (.draining n size got) =>
    some (if got.length < min size s.mq.msgSize then s.become t (.draining n size (got ++ [s.mq.data n got.length]))
    else s.giveBack t n got)
  | _ => some s

/-- One event; one that cannot happen changes nothing. -/
def step (e : Event) (s : Sys) : Option Sys :=
  match e with
  | .call t c => match s.tasks[t]? with
    | some (.idle _) => s.enter priority t c
    | _ => some s
  | .run t elapsed => s.goOn priority t elapsed
  | .expire t => match s.tasks[t]? with
    | some (.suspended c) => some (if c.timed then
        { s with mq := { s.mq with
          receivers := s.mq.receivers.erase t
          senders := s.mq.senders.erase t } }.become t (.timedOut c)
      else s)
    | _ => some s

/-- Some tasks with a new queue. -/
def create (mq : Mq) (n : Nat) : Sys := ⟨mq, List.replicate n (.idle none)⟩

end Sys

end OffLineProgrammer.Kernel
