import OffLineProgrammer.UsbDisk.Turns

/-!
# The hand-off between the interrupts and the thread

The host, the two endpoints, the queue and `UsbApp_Thread` one atomic step at a
time: between any two steps of the thread (taking a message, entering a handler,
each of its calls, `SetEPRxValid`) a packet can arrive or be read. `Turn` is the
token that exactly one party holds; from it every interleaving is safe
(`handoff_safe`).
-/

namespace OffLineProgrammer.UsbDisk
set_option autoImplicit false
open OffLineProgrammer.Lib Udisk

/-- Where `UsbApp_Thread` is. -/
inductive Thread where
  /-- In `rt_mq_recv`. -/
  | waiting
  /-- With a message, before the handler. -/
  | got (m : Msg)
  /-- In the handler of a message, with these calls to make. -/
  | calling (m : Msg) (calls : List Action)

structure Handoff where
  app : App
  thread : Thread
  /-- The call that has filled the packet memory of EP4. -/
  loaded : Option Action
  /-- The data packets the host has still to send for its command; none between two commands. -/
  host : Option (List (Vector Byte packSize))
  /-- The packets EP5 has received, and those `UDISK_Out_EP_Deal` was entered with. -/
  received : List (List Byte)
  handled : List (List Byte)

/-- A command block, the next data packet, the host reading EP4, or a step of the thread. -/
inductive HandoffEvent where
  | command (c : Command)
  | data
  | read
  | thread

/-- The bytes of a packet. -/
def packetBytes (data : Vector Byte packSize) (count : BitVec 16) : List Byte := data.toList.take count.toNat

/-- INQUIRY of 36 bytes. -/
def inquiryAll : Command where
  cbw := packet [0x55, 0x53, 0x42, 0x43, 0x01, 0x00, 0x00, 0x00, 0x24, 0x00, 0x00, 0x00, 0x80, 0x00, 0x06, 0x12, 0x00, 0x00,
    0x00, 0x24]
  payload := []
  wellFormed := by decide +kernel
  length := by decide +kernel

namespace Handoff

/-! ## The machine -/

/-- A packet arrives at EP5. -/
def arrive (data : Vector Byte packSize) (count : BitVec 16) (host : List (Vector Byte packSize)) (s : Handoff) : Handoff :=
  { s with app := s.app.usbOut data count, host := some host, received := s.received ++ [packetBytes data count] }

/-- A call of the handler. -/
def perform (a : Action) (s : Handoff) : Handoff :=
  { s with
    app := { s.app with ep4Tx := App.armed s.app.ep4Tx [a] }
    loaded := if a.isSend then some a else s.loaded }

/-- The next step of `UsbApp_Thread`. -/
def threadStep (f : UdiskFunction) (s : Handoff) : Option Handoff :=
  match s.thread with
  | .waiting =>
    match s.app.mq.msgs with
    | [] => none
    | m :: _ => some { s with app := { s.app with mq := s.app.mq.rest }, thread := .got m }
  | .got .udiskIn =>
    let r := s.app.disk.inEpDeal f
    some { s with app := { s.app with disk := r.1 }, thread := .calling .udiskIn r.2 }
  | .got .udiskOut =>
    let r := s.app.disk.outEpDeal f s.app.buff s.app.rxCnt
    some { s with
      app := { s.app with disk := r.1 }
      thread := .calling .udiskOut r.2
      handled := s.handled ++ [packetBytes s.app.buff s.app.rxCnt] }
  -- `Uidsk_Rx_Stall` does not return
  | .calling _ (.rxStall :: _) => none
  | .calling m (a :: calls) => some { s.perform a with thread := .calling m calls }
  | .calling .udiskIn [] => some { s with thread := .waiting }
  -- `SetEPRxValid(ENDP5)`
  | .calling .udiskOut [] => some { s with app := { s.app with ep5Rx := .valid }, thread := .waiting }

/-- The host sends a block once it has read the CSW of the command before. -/
def step (f : UdiskFunction) : HandoffEvent → Handoff → Option Handoff
  | .command c, s =>
    if s.host.isNone ∧ s.app.ep5Rx = .valid then some (s.arrive c.cbw 0x1F c.payload) else none
  | .data, s =>
    match s.host with
    | some (p :: ps) => if s.app.ep5Rx = .valid then some (s.arrive p 0x40 ps) else none
    | _ => none
  | .read, s =>
    if s.app.ep4Tx = .valid then
      some { s with app := s.app.usbIn, host := if (s.loaded.bind Action.csw?).isSome then none else s.host }
    else none
  | .thread, s => s.threadStep f

/-- After `Udisk_Init` and `USBD_Reset`. -/
def start : Handoff := ⟨App.start, .waiting, none, none, [], []⟩

/-! ## The token -/

/-- The messages that are not handled yet. -/
def pending (s : Handoff) : List Msg :=
  match s.thread with
  | .got m => m :: s.app.mq.msgs
  | _ => s.app.mq.msgs

/-- The packets the handler has still to send. -/
def sending (s : Handoff) : List Action :=
  match s.thread with
  | .calling _ calls => calls.filter Action.isSend
  | _ => []

/-- The thread is in `UDISK_Out_EP_Deal`, or between it and `SetEPRxValid`. -/
def inOut (s : Handoff) : Bool :=
  match s.thread with
  | .calling .udiskOut _ => true
  | _ => false

/-- EP5 takes packets but during `UDISK_Out_EP_Deal`. -/
def Open (s : Handoff) : Prop := s.app.ep5Rx = if s.inOut then .nak else .valid

/-- The packet in the buffer is the one the disk waits for. -/
inductive Expected (f : UdiskFunction) (s : Handoff) : Prop where
  | command (c : Command) (host : s.host = some c.payload) (rest : s.app.disk.Rest) (count : s.app.rxCnt = 0x1F)
      (block : blockOf s.app.buff = blockOf c.cbw) (before : s.pending = [.udiskOut] ∨ s.pending = [.udiskIn, .udiskOut])
  | data (ps : List (Vector Byte packSize)) (host : s.host = some ps) (waits : FromHost f (ps.length + 1) s.app.disk)
      (count : s.app.rxCnt = 0x40) (alone : s.pending = [.udiskOut])

/-- Who has to act. -/
inductive Turn (f : UdiskFunction) (s : Handoff) : Prop where
  /-- The host, with a command block; an IN message may be left over from the CSW. -/
  | command (host : s.host = none) (rest : s.app.disk.Rest) (ep4 : s.app.ep4Tx = .nak) (silent : s.sending = [])
      (idle : s.pending = [] ∨ s.pending = [.udiskIn]) (all : s.received = s.handled) (ep5 : s.Open)
  /-- The host, with a data packet. -/
  | data (ps : List (Vector Byte packSize)) (host : s.host = some ps) (some_ : ps ≠ [])
      (waits : FromHost f ps.length s.app.disk) (ep4 : s.app.ep4Tx = .nak) (silent : s.sending = [])
      (idle : s.pending = []) (all : s.received = s.handled) (ep5 : s.Open)
  /-- The thread, with the packet in the buffer. -/
  | out (expected : Expected f s) (ep4 : s.app.ep4Tx = .nak) (silent : s.sending = []) (free : s.inOut = false)
      (last : s.received = s.handled ++ [packetBytes s.app.buff s.app.rxCnt]) (ep5 : s.app.ep5Rx = .nak)
  /-- The thread, with a packet to send. -/
  | send (k : Nat) (host : s.host = some []) (sends : ToHost f k s.app.disk) (ep4 : s.app.ep4Tx = .nak)
      (a : Action) (one : s.sending = [a]) (csw : a.csw?.isSome = true ↔ k = 0) (idle : s.pending = [])
      (all : s.received = s.handled) (ep5 : s.Open)
  /-- The host, with a packet to read. -/
  | read (k : Nat) (host : s.host = some []) (sends : ToHost f k s.app.disk) (ep4 : s.app.ep4Tx = .valid)
      (a : Action) (loaded : s.loaded = some a) (silent : s.sending = []) (csw : a.csw?.isSome = true ↔ k = 0)
      (idle : s.pending = []) (all : s.received = s.handled) (ep5 : s.Open)
  /-- The thread, with the message that the packet is read. -/
  | next (k : Nat) (host : s.host = some []) (sends : ToHost f (k + 1) s.app.disk) (ep4 : s.app.ep4Tx = .nak)
      (silent : s.sending = []) (one : s.pending = [.udiskIn]) (all : s.received = s.handled) (ep5 : s.Open)

/-- The calls that the thread has still to make stall no endpoint. -/
def Unstalled (s : Handoff) : Prop := ∀ m calls, s.thread = .calling m calls → Plain calls

theorem start_turn (f : UdiskFunction) : Turn f start ∧ Unstalled start :=
  ⟨.command rfl Rest.init rfl rfl (Or.inl rfl) rfl rfl, fun _ _ same => by cases same⟩

/-! ## The host -/

section Host

variable {f : UdiskFunction} {s s' : Handoff}

/-- EP5 has received a packet. -/
structure Arrived (data : Vector Byte packSize) (count : BitVec 16) (a a' : App) : Prop where
  disk : a'.disk = a.disk
  ep4 : a'.ep4Tx = a.ep4Tx
  ep5 : a'.ep5Rx = .nak
  length : a'.rxCnt = count
  bytes : packetBytes a'.buff a'.rxCnt = packetBytes data count
  block : 31 ≤ count.toNat → blockOf a'.buff = blockOf data
  queue : a.mq.msgs.length < 10 → a'.mq.msgs = a.mq.msgs ++ [.udiskOut]

theorem usbOut_arrived {a : App} (valid : a.ep5Rx = .valid) (data : Vector Byte packSize) (count : BitVec 16) :
    Arrived data count a (a.usbOut data count) := by
  have run : a.usbOut data count =
      { a with
        buff := Vector.ofFn fun i => if i.val < (count.toNat + 1) / 2 * 2 then data[i.val] else a.buff[i.val]
        rxCnt := count, mq := a.mq.send .udiskOut, ep5Rx := .nak } := by
    rw [App.usbOut, if_pos valid]
  rw [run]
  refine ⟨rfl, rfl, rfl, rfl, ?_, ?_, fun room => App.send_msgs room .udiskOut⟩
  · apply List.ext_getElem
    · simp only [packetBytes, List.length_take, Vector.length_toList]
    · intro i hi _
      simp only [packetBytes, List.length_take, Vector.length_toList] at hi
      simp only [packetBytes, List.getElem_take, Vector.getElem_toList, Vector.getElem_ofFn]
      rw [if_pos (by omega)]
  · intro long
    apply Vector.ext
    intro i hi
    simp only [blockOf, Vector.getElem_ofFn]
    rw [if_pos (by omega)]

/-- A packet is appended to the pending messages. -/
theorem arrive_pending (valid : s.app.ep5Rx = .valid) (room : s.app.mq.msgs.length < 10) (data : Vector Byte packSize)
    (count : BitVec 16) (host : List (Vector Byte packSize)) :
    (s.arrive data count host).pending = s.pending ++ [.udiskOut] := by
  have queue := (usbOut_arrived valid data count).queue room
  unfold pending arrive
  simp only
  split <;> simp only [queue, List.cons_append]

/-- No message is lost. -/
theorem queue_le (s : Handoff) : s.app.mq.msgs.length ≤ s.pending.length := by
  unfold pending
  split
  · exact Nat.le_succ _
  · exact Nat.le_refl _

/-- EP5 takes packets only outside `UDISK_Out_EP_Deal`. -/
theorem Open.free (ep5 : s.Open) (valid : s.app.ep5Rx = .valid) : s.inOut = false := by
  cases inOut : s.inOut with
  | false => rfl
  | true =>
    rw [Open, inOut, if_pos rfl, valid] at ep5
    cases ep5

/-- The packet that arrives is the one the disk waits for. -/
theorem arrive_turn (valid : s.app.ep5Rx = .valid) (ep5 : s.Open) (ep4 : s.app.ep4Tx = .nak)
    (silent : s.sending = []) (all : s.received = s.handled) {data : Vector Byte packSize} {count : BitVec 16}
    {host : List (Vector Byte packSize)} (expected : Expected f (s.arrive data count host)) :
    Turn f (s.arrive data count host) := by
  have arrived := usbOut_arrived valid data count
  refine .out expected (arrived.ep4.trans ep4) silent (ep5.free valid) ?_ arrived.ep5
  show s.received ++ [packetBytes data count] = s.handled ++ [packetBytes (s.app.usbOut data count).buff _]
  rw [all]
  exact congrArg (fun l => s.handled ++ [l]) arrived.bytes.symm

theorem command_turn (turn : Turn f s) {c : Command} (go : step f (.command c) s = some s') : Turn f s' := by
  rw [step] at go
  split at go
  · rename_i may
    obtain ⟨none, valid⟩ := may
    rw [Option.isNone_iff_eq_none] at none
    cases go
    cases turn with
    | command host rest ep4 silent idle all ep5 =>
      have few : s.pending.length ≤ 1 := by rcases idle with idle | idle <;> rw [idle] <;> decide
      have room : s.app.mq.msgs.length < 10 := by have := queue_le s; omega
      have arrived := usbOut_arrived valid c.cbw 0x1F
      have before := arrive_pending valid room c.cbw 0x1F c.payload
      refine arrive_turn valid ep5 ep4 silent all (.command c rfl ?_ arrived.length (arrived.block (by decide)) ?_)
      · exact arrived.disk.symm ▸ rest
      · rw [before]
        rcases idle with idle | idle <;> rw [idle]
        · exact Or.inl rfl
        · exact Or.inr rfl
    | data ps host _ _ _ _ _ _ _ => rw [none] at host; cases host
    | out expected _ _ _ _ ep5 => rw [valid] at ep5; cases ep5
    | send k host _ _ _ _ _ _ _ _ => rw [none] at host; cases host
    | read k host _ _ _ _ _ _ _ _ _ => rw [none] at host; cases host
    | next k host _ _ _ _ _ _ => rw [none] at host; cases host
  · cases go

theorem data_turn (turn : Turn f s) (go : step f .data s = some s') : Turn f s' := by
  rw [step] at go
  split at go
  · rename_i p ps sends
    split at go
    · rename_i valid
      cases go
      cases turn with
      | command host _ _ _ _ _ _ => rw [sends] at host; cases host
      | data qs host _ waits ep4 silent idle all ep5 =>
        rw [sends] at host
        cases host
        have few : s.pending.length ≤ 1 := by rw [idle]; decide
        have room : s.app.mq.msgs.length < 10 := by have := queue_le s; omega
        have arrived := usbOut_arrived valid p 0x40
        refine arrive_turn valid ep5 ep4 silent all (.data ps rfl ?_ arrived.length ?_)
        · exact arrived.disk.symm ▸ waits
        · rw [arrive_pending valid room p 0x40 ps, idle]
          rfl
      | out expected _ _ _ _ ep5 => rw [valid] at ep5; cases ep5
      | send k host _ _ _ _ _ _ _ _ => rw [sends] at host; cases host
      | read k host _ _ _ _ _ _ _ _ _ => rw [sends] at host; cases host
      | next k host _ _ _ _ _ _ => rw [sends] at host; cases host
    · cases go
  · cases go

/-- The host reads the packet of EP4. -/
theorem read_turn (turn : Turn f s) (go : step f .read s = some s') : Turn f s' := by
  rw [step] at go
  split at go
  · rename_i valid
    cases go
    cases turn with
    | read k host sends ep4 a loaded silent csw idle all ep5 =>
      have room : s.app.mq.msgs.length < 10 := by have := queue_le s; rw [idle] at this; exact Nat.lt_of_le_of_lt this (by decide)
      have run : s.app.usbIn = { s.app with mq := s.app.mq.send .udiskIn, ep4Tx := .nak } := by rw [App.usbIn, if_pos valid]
      have bound : s.loaded.bind Action.csw? = a.csw? := by rw [loaded, Option.bind_some]
      rw [run, bound]
      have queue := App.send_msgs room .udiskIn
      have before : ∀ h, Handoff.pending { s with app := { s.app with mq := s.app.mq.send .udiskIn, ep4Tx := .nak }, host := h } =
          [.udiskIn] := by
        intro h
        unfold pending at idle ⊢
        split at idle
        · cases idle
        · simp only [queue, idle, List.nil_append]
      cases k with
      | zero =>
        rw [if_pos (csw.mpr rfl)]
        exact .command rfl sends rfl silent (Or.inr (before _)) all ep5
      | succ k =>
        rw [if_neg (fun is => absurd (csw.mp is) (Nat.succ_ne_zero k))]
        exact .next k host sends rfl silent (before _) all ep5
    | command _ _ ep4 _ _ _ _ => rw [valid] at ep4; cases ep4
    | data _ _ _ _ ep4 _ _ _ _ => rw [valid] at ep4; cases ep4
    | out _ ep4 _ _ _ _ => rw [valid] at ep4; cases ep4
    | send _ _ _ ep4 _ _ _ _ _ _ => rw [valid] at ep4; cases ep4
    | next _ _ _ ep4 _ _ _ _ => rw [valid] at ep4; cases ep4
  · cases go

end Host

/-! ## The thread -/

section Thread

variable {f : UdiskFunction} {s s' : Handoff}

/-- A step that hands the token to nobody. -/
structure Keeps (s s' : Handoff) : Prop where
  disk : s'.app.disk = s.app.disk
  ep4 : s'.app.ep4Tx = s.app.ep4Tx
  buff : s'.app.buff = s.app.buff
  rxCnt : s'.app.rxCnt = s.app.rxCnt
  loaded : s'.loaded = s.loaded
  host : s'.host = s.host
  received : s'.received = s.received
  handled : s'.handled = s.handled
  pending : s'.pending = s.pending
  sending : s'.sending = s.sending
  opens : s.Open → s'.Open
  closed : s.inOut = false → s'.inOut = false ∧ s'.app.ep5Rx = s.app.ep5Rx

theorem Keeps.expected (keeps : Keeps s s') (expected : Expected f s) : Expected f s' := by
  cases expected with
  | command c host rest count block before =>
    exact .command c (keeps.host.trans host) (keeps.disk ▸ rest) (keeps.rxCnt.trans count)
      (by rw [keeps.buff]; exact block) (by rw [keeps.pending]; exact before)
  | data ps host waits count alone =>
    exact .data ps (keeps.host.trans host) (keeps.disk ▸ waits) (keeps.rxCnt.trans count) (keeps.pending.trans alone)

theorem Keeps.turn (keeps : Keeps s s') (turn : Turn f s) : Turn f s' := by
  have all : s.received = s.handled → s'.received = s'.handled := by
    rw [keeps.received, keeps.handled]
    exact id
  cases turn with
  | command host rest ep4 silent idle done ep5 =>
    exact .command (keeps.host.trans host) (keeps.disk ▸ rest) (keeps.ep4.trans ep4) (keeps.sending.trans silent)
      (by rw [keeps.pending]; exact idle) (all done) (keeps.opens ep5)
  | data ps host some_ waits ep4 silent idle done ep5 =>
    exact .data ps (keeps.host.trans host) some_ (keeps.disk ▸ waits) (keeps.ep4.trans ep4) (keeps.sending.trans silent)
      (keeps.pending.trans idle) (all done) (keeps.opens ep5)
  | out expected ep4 silent free last ep5 =>
    refine .out (keeps.expected expected) (keeps.ep4.trans ep4) (keeps.sending.trans silent) (keeps.closed free).1 ?_
      ((keeps.closed free).2.trans ep5)
    rw [keeps.received, keeps.handled, keeps.buff, keeps.rxCnt]
    exact last
  | send k host sends ep4 a one csw idle done ep5 =>
    exact .send k (keeps.host.trans host) (keeps.disk ▸ sends) (keeps.ep4.trans ep4) a (keeps.sending.trans one) csw
      (keeps.pending.trans idle) (all done) (keeps.opens ep5)
  | read k host sends ep4 a loaded silent csw idle done ep5 =>
    exact .read k (keeps.host.trans host) (keeps.disk ▸ sends) (keeps.ep4.trans ep4) a (keeps.loaded.trans loaded)
      (keeps.sending.trans silent) csw (keeps.pending.trans idle) (all done) (keeps.opens ep5)
  | next k host sends ep4 silent one done ep5 =>
    exact .next k (keeps.host.trans host) (keeps.disk ▸ sends) (keeps.ep4.trans ep4) (keeps.sending.trans silent)
      (keeps.pending.trans one) (all done) (keeps.opens ep5)

/-- `rt_mq_recv` returns. -/
theorem recv_keeps (waits : s.thread = .waiting) {m : Msg} {ms : List Msg} (queue : s.app.mq.msgs = m :: ms) :
    Keeps s { s with app := { s.app with mq := s.app.mq.rest }, thread := .got m } := by
  have rest := App.rest_msgs queue
  refine ⟨rfl, rfl, rfl, rfl, rfl, rfl, rfl, rfl, ?_, ?_, ?_, ?_⟩
  · simp only [pending, waits, rest, queue]
  · simp only [sending, waits]
  · simp only [Open, inOut, waits]
    exact id
  · intro _
    exact ⟨rfl, rfl⟩

/-- A call that sends nothing. -/
theorem call_keeps {m : Msg} {a : Action} {calls : List Action} (at_ : s.thread = .calling m (a :: calls))
    (silent : a.isSend = false) (other : a ≠ .txStall) : Keeps s { s.perform a with thread := .calling m calls } := by
  have same : App.armed s.app.ep4Tx [a] = s.app.ep4Tx := by
    cases a <;> first | rfl | (exact absurd rfl other) | cases silent
  refine ⟨rfl, same, rfl, rfl, ?_, rfl, rfl, rfl, ?_, ?_, ?_, ?_⟩
  · simp only [perform, silent, Bool.false_eq_true, if_false]
  · simp only [pending, at_, perform]
  · simp only [sending, at_, List.filter_cons, silent, Bool.false_eq_true, if_false]
  · cases m <;> simp only [Open, inOut, at_, perform] <;> exact id
  · cases m <;> simp only [inOut, at_, perform] <;> exact fun h => ⟨h, trivial⟩

/-- The handler returns. -/
theorem inDone_keeps (at_ : s.thread = .calling .udiskIn []) : Keeps s { s with thread := .waiting } := by
  refine ⟨rfl, rfl, rfl, rfl, rfl, rfl, rfl, rfl, ?_, ?_, ?_, fun _ => ⟨rfl, rfl⟩⟩
  · simp only [pending, at_]
  · simp only [sending, at_, List.filter_nil]
  · simp only [Open, inOut, at_]
    exact id

/-- `SetEPRxValid(ENDP5)` -/
theorem outDone_keeps (at_ : s.thread = .calling .udiskOut []) :
    Keeps s { s with app := { s.app with ep5Rx := .valid }, thread := .waiting } := by
  refine ⟨rfl, rfl, rfl, rfl, rfl, rfl, rfl, rfl, ?_, ?_, fun _ => rfl, ?_⟩
  · simp only [pending, at_]
  · simp only [sending, at_, List.filter_nil]
  · simp only [inOut, at_]
    exact fun h => Bool.noConfusion h

/-- The packet goes to EP4. -/
theorem send_turn (turn : Turn f s) {m : Msg} {a : Action} {calls : List Action}
    (at_ : s.thread = .calling m (a :: calls)) (sends : a.isSend = true) :
    Turn f { s.perform a with thread := .calling m calls } := by
  have busy : s.sending = a :: calls.filter Action.isSend := by simp only [sending, at_, List.filter_cons, sends, if_true]
  have some_ : s.sending ≠ [] := by rw [busy]; exact List.cons_ne_nil _ _
  cases turn with
  | send k host more ep4 b one csw idle all ep5 =>
    rw [busy, List.cons.injEq] at one
    obtain ⟨rfl, rest⟩ := one
    have armed : App.armed s.app.ep4Tx [a] = .valid := by cases a <;> first | rfl | cases sends
    refine .read k host more armed a ?_ ?_ csw ?_ all ?_
    · simp only [perform, sends, if_true]
    · simp only [sending, rest]
    · simp only [pending, at_] at idle
      simp only [pending, perform, idle]
    · cases m <;> simp only [Open, inOut, at_] at ep5 ⊢ <;> exact ep5
  | command _ _ _ silent _ _ _ => exact absurd silent some_
  | data _ _ _ _ _ silent _ _ _ => exact absurd silent some_
  | out _ _ silent _ _ _ => exact absurd silent some_
  | read _ _ _ _ _ _ silent _ _ _ _ => exact absurd silent some_
  | next _ _ _ _ silent _ _ _ => exact absurd silent some_

/-- `UDISK_In_EP_Deal` is entered. -/
theorem enterIn_turn {flashId : Byte} (turn : Turn (udiskFun flashId) s) (at_ : s.thread = .got .udiskIn)
    {r : Udisk × List Action} (deal : inEpDeal (udiskFun flashId) s.app.disk = r) :
    Turn (udiskFun flashId) { s with app := { s.app with disk := r.1 }, thread := .calling .udiskIn r.2 } ∧ Plain r.2 := by
  have plain : Plain r.2 := by
    rw [← deal]
    exact Port.upload_plain (inEpDeal_upload _ _)
  have before : s.pending = .udiskIn :: s.app.mq.msgs := by simp only [pending, at_]
  have opens : s.Open → Open { s with app := { s.app with disk := r.1 }, thread := .calling .udiskIn r.2 } := by
    simp only [Open, inOut, at_]
    exact id
  refine ⟨?_, plain⟩
  cases turn with
  | command host rest ep4 silent idle all ep5 =>
    rw [rest.inEpDeal] at deal
    cases deal
    rcases idle with idle | idle <;> rw [before] at idle
    · cases idle
    · rw [List.cons.injEq] at idle
      exact .command host rest ep4 rfl (Or.inl idle.2) all (opens ep5)
  | out expected ep4 silent free last ep5 =>
    cases expected with
    | command c host rest count block behind =>
      rw [rest.inEpDeal] at deal
      cases deal
      rcases behind with behind | behind <;> rw [before, List.cons.injEq] at behind
      · cases behind.1
      · exact .out (.command c host rest count block (Or.inl behind.2)) ep4 rfl rfl last ep5
    | data ps host waits count alone =>
      rw [before, List.cons.injEq] at alone
      cases alone.1
  | next k host sends ep4 silent one all ep5 =>
    rw [before, List.cons.injEq] at one
    rw [ToHost, deal] at sends
    obtain ⟨⟨-, a, sent, csw⟩, later⟩ := sends
    exact .send k host later ep4 a sent csw one.2 all (opens ep5)
  | data _ _ _ _ _ _ idle _ _ => rw [before] at idle; cases idle
  | send _ _ _ _ _ _ _ idle _ _ => rw [before] at idle; cases idle
  | read _ _ _ _ _ _ _ _ idle _ _ => rw [before] at idle; cases idle

/-- Of the packet only the block counts in the command state. -/
theorem outEpDeal_block (f : UdiskFunction) {d : Udisk} (idle : d.down = false) {pbuf pbuf' : Vector Byte packSize}
    (block : blockOf pbuf = blockOf pbuf') : outEpDeal f pbuf 0x1F d = outEpDeal f pbuf' 0x1F d := by
  have same : receive pbuf d = receive pbuf' d := by rw [receive, receive, block]
  rw [outEpDeal_command f idle, outEpDeal_command f idle, same]

/-- `UDISK_Out_EP_Deal` is entered. -/
theorem enterOut_turn {flashId : Byte} (turn : Turn (udiskFun flashId) s) (at_ : s.thread = .got .udiskOut)
    {r : Udisk × List Action} (deal : outEpDeal (udiskFun flashId) s.app.buff s.app.rxCnt s.app.disk = r) :
    Turn (udiskFun flashId)
      { s with
        app := { s.app with disk := r.1 }
        thread := .calling .udiskOut r.2
        handled := s.handled ++ [packetBytes s.app.buff s.app.rxCnt] } ∧ Plain r.2 := by
  have before : s.pending = .udiskOut :: s.app.mq.msgs := by simp only [pending, at_]
  cases turn with
  | out expected ep4 silent free last ep5 =>
    cases expected with
    | command c host rest count block behind =>
      have queue : s.app.mq.msgs = [] := by
        rcases behind with behind | behind <;> rw [before, List.cons.injEq] at behind
        · exact behind.2
        · cases behind.1
      rw [count, outEpDeal_block _ rest.down block] at deal
      have leads := rest.command flashId c
      rw [deal] at leads
      rcases leads with ⟨none, k, ⟨plain, a, sent, csw⟩, later⟩ | ⟨some_, ⟨plain, sent⟩, later⟩
      · rw [none] at host
        exact ⟨.send k host later ep4 a sent csw queue last ep5, plain⟩
      · exact ⟨.data c.payload host some_ later ep4 sent queue last ep5, plain⟩
    | data ps host waits count alone =>
      rw [before, List.cons.injEq] at alone
      rw [count] at deal
      obtain ⟨-, each⟩ := waits
      obtain ⟨sends, later⟩ := each s.app.buff
      rw [deal] at sends later
      by_cases none : ps.length = 0
      · rw [if_pos none] at sends
        obtain ⟨plain, a, sent, csw⟩ := sends
        rw [List.eq_nil_of_length_eq_zero none] at host later
        exact ⟨.send 0 host later ep4 a sent (csw.trans (iff_of_true trivial rfl)) alone.2 last ep5, plain⟩
      · rw [if_neg none] at sends
        obtain ⟨plain, sent⟩ := sends
        exact ⟨.data ps host (fun nil => none (by rw [nil]; rfl)) later ep4 sent alone.2 last ep5, plain⟩
  | command _ _ _ _ idle _ _ => rcases idle with idle | idle <;> rw [before] at idle <;> cases idle
  | next _ _ _ _ _ one _ _ => rw [before, List.cons.injEq] at one; cases one.1
  | data _ _ _ _ _ _ idle _ _ => rw [before] at idle; cases idle
  | send _ _ _ _ _ _ _ idle _ _ => rw [before] at idle; cases idle
  | read _ _ _ _ _ _ _ _ idle _ _ => rw [before] at idle; cases idle

/-- How far the thread is from taking its next message. -/
def steps (s : Handoff) : Nat :=
  match s.thread with
  | .got _ => 0
  | .waiting => 1
  | .calling _ calls => calls.length + 2

/-- The thread goes on: it enters a handler, or comes nearer to the next message. -/
def Onward (s s' : Handoff) : Prop :=
  s'.pending.length < s.pending.length ∨ (s'.pending.length = s.pending.length ∧ s'.steps < s.steps)

/-- **A step of the thread**: it is there but with an empty queue, keeps the token
in one hand, and goes on. -/
theorem thread_turn {flashId : Byte} (turn : Turn (udiskFun flashId) s) (unstalled : s.Unstalled) :
    (s.thread = .waiting ∧ s.app.mq.msgs = []) ∨
    ∃ s', s.threadStep (udiskFun flashId) = some s' ∧ Turn (udiskFun flashId) s' ∧ s'.Unstalled ∧
      s'.received = s.received ∧ Onward s s' := by
  cases at_ : s.thread with
  | waiting =>
    cases queue : s.app.mq.msgs with
    | nil => exact Or.inl ⟨rfl, rfl⟩
    | cons m ms =>
      have keeps := recv_keeps at_ queue
      refine Or.inr ⟨_, ?_, keeps.turn turn, ?_, rfl, Or.inr ⟨congrArg List.length keeps.pending, ?_⟩⟩
      · simp only [threadStep, at_, queue]
      · intro n calls same
        cases same
      · simp only [steps, at_, Nat.zero_lt_one]
  | got m =>
    right
    cases m with
    | udiskIn =>
      obtain ⟨turn', plain⟩ := enterIn_turn turn at_ rfl
      refine ⟨_, by rw [threadStep, at_], turn', ?_, rfl, Or.inl ?_⟩
      · intro n calls same
        cases same
        exact plain
      · simp only [pending, at_, List.length_cons, Nat.lt_succ_self]
    | udiskOut =>
      obtain ⟨turn', plain⟩ := enterOut_turn turn at_ rfl
      refine ⟨_, by rw [threadStep, at_], turn', ?_, rfl, Or.inl ?_⟩
      · intro n calls same
        cases same
        exact plain
      · simp only [pending, at_, List.length_cons, Nat.lt_succ_self]
  | calling m calls =>
    right
    have plain := unstalled m calls at_
    cases calls with
    | nil =>
      obtain ⟨s', go, keeps, waiting⟩ :
          ∃ s', s.threadStep (udiskFun flashId) = some s' ∧ Keeps s s' ∧ s'.thread = .waiting := by
        cases m with
        | udiskIn => exact ⟨_, by rw [threadStep, at_], inDone_keeps at_, rfl⟩
        | udiskOut => exact ⟨_, by rw [threadStep, at_], outDone_keeps at_, rfl⟩
      refine ⟨s', go, keeps.turn turn, ?_, keeps.received, Or.inr ⟨congrArg List.length keeps.pending, ?_⟩⟩
      · intro n calls same
        rw [waiting] at same
        cases same
      · simp only [steps, waiting, at_, List.length_nil]
        decide
    | cons a calls =>
      have go : s.threadStep (udiskFun flashId) = some { s.perform a with thread := .calling m calls } := by
        cases a <;> first | (simp only [threadStep, at_]; done) | (exact absurd List.mem_cons_self plain.2)
      have rest : Unstalled { s.perform a with thread := .calling m calls } := by
        intro n calls' same
        cases same
        exact ⟨fun mem => plain.1 (List.mem_cons_of_mem a mem), fun mem => plain.2 (List.mem_cons_of_mem a mem)⟩
      have less : steps { s.perform a with thread := .calling m calls } < s.steps := by
        simp only [steps, at_, List.length_cons]
        omega
      have same : pending { s.perform a with thread := .calling m calls } = s.pending := by
        simp only [pending, at_, perform]
      refine ⟨_, go, ?_, rest, rfl, Or.inr ⟨congrArg List.length same, less⟩⟩
      cases sends : a.isSend with
      | true => exact send_turn turn at_ sends
      | false =>
        have other : a ≠ .txStall := by
          rintro rfl
          exact plain.1 List.mem_cons_self
        exact (call_keeps at_ sends other).turn turn

end Thread

/-! ## Every interleaving -/

/-- What holds at every step. -/
structure Safe (s : Handoff) : Prop where
  /-- `rt_mq_send` finds room. -/
  queue : s.app.mq.msgs.length ≤ 2
  /-- The packets received are handed to the handler in order, each once: one at
  most is not yet, it lies in `USBD_Endp5_BUFF`, and its one message is pending. -/
  order : ∃ waiting, s.received = s.handled ++ waiting ∧ s.pending.count .udiskOut = waiting.length ∧
    (waiting = [] ∨ waiting = [packetBytes s.app.buff s.app.rxCnt])
  /-- EP5 takes a packet only when the buffer is free. -/
  buffer : s.app.ep5Rx = .valid → .udiskOut ∉ s.pending ∧ s.inOut = false
  /-- A packet is given to EP4 only when the host has read the one before. -/
  packet : ∀ m a calls, s.thread = .calling m (a :: calls) → a.isSend = true → s.app.ep4Tx ≠ .valid

section Runs

variable {flashId : Byte} {s s' : Handoff}

theorem Turn.safe {f : UdiskFunction} (turn : Turn f s) : Safe s := by
  have few := queue_le s
  have quiet : s.sending = [] → ∀ m a calls, s.thread = .calling m (a :: calls) → a.isSend = true → s.app.ep4Tx ≠ .valid := by
    intro silent m a calls at_ sends
    simp only [sending, at_, List.filter_cons, sends, if_true] at silent
    cases silent
  have without : .udiskOut ∉ s.pending → s.received = s.handled →
      ∃ waiting, s.received = s.handled ++ waiting ∧ s.pending.count .udiskOut = waiting.length ∧
        (waiting = [] ∨ waiting = [packetBytes s.app.buff s.app.rxCnt]) := by
    intro none all
    exact ⟨[], by rw [all, List.append_nil], List.count_eq_zero.mpr none, Or.inl rfl⟩
  cases turn with
  | command host rest ep4 silent idle all ep5 =>
    have none : .udiskOut ∉ s.pending := by rcases idle with idle | idle <;> rw [idle] <;> decide
    have small : s.pending.length ≤ 1 := by rcases idle with idle | idle <;> rw [idle] <;> decide
    exact ⟨by omega, without none all, fun valid => ⟨none, ep5.free valid⟩, quiet silent⟩
  | data ps host some_ waits ep4 silent idle all ep5 =>
    rw [idle] at few
    have none : .udiskOut ∉ s.pending := by rw [idle]; exact List.not_mem_nil
    exact ⟨Nat.le_trans few (by decide), without none all, fun valid => ⟨none, ep5.free valid⟩, quiet silent⟩
  | out expected ep4 silent free last ep5 =>
    have shape : s.pending = [.udiskOut] ∨ s.pending = [.udiskIn, .udiskOut] := by
      cases expected with
      | command c host rest count block before => exact before
      | data ps host waits count alone => exact Or.inl alone
    have small : s.pending.length ≤ 2 := by rcases shape with shape | shape <;> rw [shape] <;> decide
    refine ⟨by omega, ⟨_, last, ?_, Or.inr rfl⟩, fun valid => ?_, quiet silent⟩
    · rcases shape with shape | shape <;> rw [shape] <;> rfl
    · rw [ep5] at valid
      cases valid
  | send k host sends ep4 a one csw idle all ep5 =>
    rw [idle] at few
    have none : .udiskOut ∉ s.pending := by rw [idle]; exact List.not_mem_nil
    refine ⟨Nat.le_trans few (by decide), without none all, fun valid => ⟨none, ep5.free valid⟩, ?_⟩
    intro _ _ _ _ _ valid
    rw [ep4] at valid
    cases valid
  | read k host sends ep4 a loaded silent csw idle all ep5 =>
    rw [idle] at few
    have none : .udiskOut ∉ s.pending := by rw [idle]; exact List.not_mem_nil
    exact ⟨Nat.le_trans few (by decide), without none all, fun valid => ⟨none, ep5.free valid⟩, quiet silent⟩
  | next k host sends ep4 silent one all ep5 =>
    rw [one] at few
    have none : .udiskOut ∉ s.pending := by rw [one]; decide
    exact ⟨Nat.le_trans few (by decide), without none all, fun valid => ⟨none, ep5.free valid⟩, quiet silent⟩

/-- The host leaves the thread where it is. -/
theorem host_thread {f : UdiskFunction} {e : HandoffEvent} (other : e ≠ .thread) (go : step f e s = some s') :
    s'.thread = s.thread := by
  unfold step at go
  split at go
  · split at go
    · cases go
      rfl
    · cases go
  · split at go
    · split at go
      · cases go
        rfl
      · cases go
    · cases go
  · split at go
    · cases go
      rfl
    · cases go
  · exact absurd rfl other

theorem step_turn {e : HandoffEvent} (inv : Turn (udiskFun flashId) s ∧ s.Unstalled)
    (go : step (udiskFun flashId) e s = some s') : Turn (udiskFun flashId) s' ∧ s'.Unstalled := by
  obtain ⟨turn, unstalled⟩ := inv
  have same : e ≠ .thread → s'.Unstalled := by
    intro other m calls at_
    rw [host_thread other go] at at_
    exact unstalled m calls at_
  cases e with
  | command c => exact ⟨command_turn turn go, same (fun h => by cases h)⟩
  | data => exact ⟨data_turn turn go, same (fun h => by cases h)⟩
  | read => exact ⟨read_turn turn go, same (fun h => by cases h)⟩
  | thread =>
    rw [step] at go
    rcases thread_turn turn unstalled with ⟨waits, empty⟩ | ⟨t, next, turn', unstalled', -⟩
    · simp only [threadStep, waits, empty] at go
      cases go
    · rw [next] at go
      cases go
      exact ⟨turn', unstalled'⟩

/-- By itself the thread hands every packet received to its handler. -/
theorem thread_drains (flashId : Byte) (s : Handoff) (turn : Turn (udiskFun flashId) s) (unstalled : s.Unstalled) :
    ∃ n s', Run.run (step (udiskFun flashId)) (List.replicate n .thread) s = some s' ∧ s'.received = s.received ∧
      s'.handled = s.received := by
  obtain ⟨waiting, all, count, -⟩ := turn.safe.order
  by_cases none : waiting = []
  · exact ⟨0, s, rfl, rfl, by rw [all, none, List.append_nil]⟩
  · rcases thread_turn turn unstalled with ⟨waits, empty⟩ | ⟨t, go, turn', unstalled', received, onward⟩
    · -- the message of the packet is pending
      have nothing : s.pending = [] := by simp only [pending, waits, empty]
      rw [nothing] at count
      exact absurd (List.eq_nil_of_length_eq_zero count.symm) none
    · obtain ⟨n, s', run, same, handled⟩ := thread_drains flashId t turn' unstalled'
      refine ⟨n + 1, s', ?_, same.trans received, handled.trans received⟩
      rw [List.replicate_succ, Run.run_cons (show step (udiskFun flashId) .thread s = some t from go), run]
termination_by (s.pending.length, s.steps)
decreasing_by
  rcases onward with fewer | ⟨equal, nearer⟩
  · exact Prod.Lex.left _ _ fewer
  · rw [equal]
    exact Prod.Lex.right _ nearer

/-- **Every interleaving is safe**, and the thread by itself hands every packet
received to its handler. -/
theorem handoff_safe (flashId : Byte) (reached : Run.Reachable (step (udiskFun flashId)) start s) :
    Safe s ∧ ∃ n s', Run.run (step (udiskFun flashId)) (List.replicate n .thread) s = some s' ∧
      s'.received = s.received ∧ s'.handled = s.received := by
  obtain ⟨turn, unstalled⟩ := Run.reachable_inv (fun s => Turn (udiskFun flashId) s ∧ s.Unstalled)
    (fun _ _ _ inv go => step_turn inv go) (start_turn (udiskFun flashId)) reached
  exact ⟨turn.safe, thread_drains flashId s turn unstalled⟩

/-- INQUIRY arrives and is handled while the host reads its first packet. -/
theorem handoff_safe_inquiry :
    ∃ s, Run.run (step (udiskFun 0x17)) [.command inquiryAll, .thread, .thread, .thread, .read, .thread] start = some s ∧
      Safe s := by
  obtain ⟨s, run⟩ : ∃ s, Run.run (step (udiskFun 0x17)) [.command inquiryAll, .thread, .thread, .thread, .read, .thread] start =
      some s := Option.isSome_iff_exists.mp (by decide +kernel)
  exact ⟨s, run, (handoff_safe 0x17 ⟨_, run⟩).1⟩

end Runs

end Handoff

end OffLineProgrammer.UsbDisk
