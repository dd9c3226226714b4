import OffLineProgrammer.Lib.Run
import OffLineProgrammer.UsbDisk.Device

/-!
# The USB application

`UsbApp.c` and the endpoint callbacks of `usb_endp.c`: the interrupt side puts a
packet in `USBD_Endp5_BUFF` and a message in a queue of ten, the thread takes the
messages and calls the handlers of the disk. `USBD_Reset` of `usb_prop.c` sets the
endpoints up again. Of the endpoint registers the model keeps the transmit status
of EP4 and the receive status of EP5, which decide what the host can do next.
-/

namespace OffLineProgrammer.UsbDisk
set_option autoImplicit false
open OffLineProgrammer.Lib

/-- The two messages the callbacks send. -/
inductive Msg where
  | udiskIn | udiskOut
  deriving DecidableEq, Repr

/-- `rt_mq_create("usb", sizeof(struct usb_msg), 10, RT_IPC_FLAG_FIFO)` -/
structure MsgQueue where
  msgs : List Msg
  bound : msgs.length ≤ 10

namespace MsgQueue

/-- `rt_mq_send`: a full queue drops the message. -/
def send (q : MsgQueue) (m : Msg) : MsgQueue :=
  if room : q.msgs.length < 10 then ⟨q.msgs ++ [m], by rw [List.length_append]; exact room⟩ else q

/-- The queue after `rt_mq_recv`. -/
def rest (q : MsgQueue) : MsgQueue :=
  ⟨q.msgs.drop 1, by have := q.bound; rw [List.length_drop]; omega⟩

end MsgQueue

/-- The status of one direction of an endpoint. -/
inductive EpStat where
  | dis | stall | nak | valid
  deriving DecidableEq, Repr

/-- The disk behind its queue and its two bulk endpoints. -/
structure App where
  disk : Udisk
  mq : MsgQueue
  /-- `USBD_Endp5_BUFF` and `USB_Rx_Cnt`. -/
  buff : Vector Byte packSize
  rxCnt : BitVec 16
  ep4Tx : EpStat
  ep5Rx : EpStat

namespace App

/-- What the calls of a handler leave in the transmit status of EP4. -/
def armed (s : EpStat) (calls : List Action) : EpStat :=
  calls.foldl (fun s call =>
    match call with
    | .usbSend .. | .usbSendPack .. => .valid
    | .txStall => .stall
    | _ => s) s

/-- `EP5_OUT_Callback` after the peripheral has received `data`: the packet is
copied by halfwords, and EP5 answers NAK until the thread makes it valid. -/
def usbOut (data : Vector Byte packSize) (count : BitVec 16) (a : App) : App :=
  if a.ep5Rx = .valid then
    { a with
      buff := Vector.ofFn fun i => if i.val < (count.toNat + 1) / 2 * 2 then data[i.val] else a.buff[i.val]
      rxCnt := count
      mq := a.mq.send .udiskOut
      ep5Rx := .nak }
  else a

/-- `EP4_IN_Callback` after the host has read the packet. -/
def usbIn (a : App) : App :=
  if a.ep4Tx = .valid then { a with mq := a.mq.send .udiskIn, ep4Tx := .nak } else a

/-- One turn of `UsbApp_Thread`; an empty queue makes it wait. -/
def thread (f : UdiskFunction) (a : App) : App × List Action :=
  match a.mq.msgs with
  | [] => (a, [])
  | .udiskIn :: _ =>
    let r := a.disk.inEpDeal f
    ({ a with disk := r.1, mq := a.mq.rest, ep4Tx := armed a.ep4Tx r.2 }, r.2)
  | .udiskOut :: _ =>
    let r := a.disk.outEpDeal f a.buff a.rxCnt
    ({ a with disk := r.1, mq := a.mq.rest, ep4Tx := armed a.ep4Tx r.2, ep5Rx := .valid }, r.2)

/-- `n` turns of the thread. -/
def turns (f : UdiskFunction) : Nat → App → App × List Action
  | 0, a => (a, [])
  | n + 1, a =>
    let r := thread f a
    let s := turns f n r.1
    (s.1, r.2 ++ s.2)

/-- `USBD_Reset`: EP4 answers NAK, EP5 takes packets again; the disk, the queue
and the packet buffer are not touched. -/
def usbdReset (a : App) : App := { a with ep4Tx := .nak, ep5Rx := .valid }

/-- The application after `Udisk_Init` and the first reset. -/
def start : App where
  disk := udiskInit
  mq := ⟨[], Nat.zero_le _⟩
  buff := Vector.replicate packSize 0
  rxCnt := 0
  ep4Tx := .nak
  ep5Rx := .valid

/-- The steps of a run. -/
inductive Step where
  | usbOut (data : Vector Byte packSize) (count : BitVec 16)
  | usbIn
  | thread
  | reset

def step (f : UdiskFunction) : Step → App → Option App
  | .usbOut data count, a => some (a.usbOut data count)
  | .usbIn, a => some a.usbIn
  | .thread, a => some (a.thread f).1
  | .reset, a => some a.usbdReset

/-! ## One turn -/

section Thread

variable {f : UdiskFunction} {a : App} {ms : List Msg}

theorem thread_wait (queue : a.mq.msgs = []) : thread f a = (a, []) := by
  unfold thread
  split <;> rename_i other
  · rfl
  · rw [queue] at other; cases other
  · rw [queue] at other; cases other

theorem thread_in (queue : a.mq.msgs = .udiskIn :: ms) :
    thread f a =
      ({ a with disk := (a.disk.inEpDeal f).1, mq := a.mq.rest, ep4Tx := armed a.ep4Tx (a.disk.inEpDeal f).2 },
        (a.disk.inEpDeal f).2) := by
  unfold thread
  split <;> rename_i other
  · rw [queue] at other; cases other
  · rfl
  · rw [queue] at other; cases other

theorem thread_out (queue : a.mq.msgs = .udiskOut :: ms) :
    thread f a =
      ({ a with
          disk := (a.disk.outEpDeal f a.buff a.rxCnt).1, mq := a.mq.rest,
          ep4Tx := armed a.ep4Tx (a.disk.outEpDeal f a.buff a.rxCnt).2, ep5Rx := .valid },
        (a.disk.outEpDeal f a.buff a.rxCnt).2) := by
  unfold thread
  split <;> rename_i other
  · rw [queue] at other; cases other
  · rw [queue] at other; cases other
  · rfl

theorem rest_msgs {m : Msg} (queue : a.mq.msgs = m :: ms) : a.mq.rest.msgs = ms := by
  simp [MsgQueue.rest, queue]

theorem send_msgs {q : MsgQueue} (room : q.msgs.length < 10) (m : Msg) : (q.send m).msgs = q.msgs ++ [m] := by
  simp [MsgQueue.send, room]

theorem turns_add (j k : Nat) : ∀ a : App, turns f (j + k) a =
    ((turns f k (turns f j a).1).1, (turns f j a).2 ++ (turns f k (turns f j a).1).2) := by
  induction j with
  | zero => intro a; simp [turns]
  | succ j ih =>
    intro a
    rw [Nat.succ_add, turns]
    simp only [ih, turns, List.append_assoc]

/-- EP5 stays valid until a packet arrives. -/
theorem turns_valid (n : Nat) : ∀ {a : App}, a.ep5Rx = .valid → (turns f n a).1.ep5Rx = .valid := by
  induction n with
  | zero => exact fun valid => valid
  | succ n ih =>
    intro a valid
    apply ih
    cases queue : a.mq.msgs with
    | nil => rw [thread_wait queue]; exact valid
    | cons m ms =>
      cases m with
      | udiskIn => rw [thread_in queue]; exact valid
      | udiskOut => rw [thread_out queue]

theorem send_full {q : MsgQueue} (full : ¬ q.msgs.length < 10) (m : Msg) : q.send m = q := by
  simp [MsgQueue.send, full]

theorem turns_one : turns f 1 a = thread f a := by
  simp [turns]

end Thread

end App

end OffLineProgrammer.UsbDisk
