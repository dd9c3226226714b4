import OffLineProgrammer.UsbCore.Control

/-!
# The data stage of a read

`DataStageIn` queues one packet after the other (`dataStageIn_queues`), and a host that
goes on until it has what it asked for or a short packet gets all of them (`hostIn_reads`).
-/

namespace OffLineProgrammer.UsbCore
set_option autoImplicit false
open OffLineProgrammer.Lib

namespace Control

/-! ## What a read leaves alone -/

/-- The request and what belongs to the device. -/
structure Held where
  bmRequestType : Byte
  bRequest : Byte
  wValue : BitVec 16
  wIndex : BitVec 16
  wLength : BitVec 16
  currentFeature : Byte
  currentConfiguration : Byte
  currentInterface : Byte
  currentAlternateSetting : Byte
  uartConfig : List Byte
  stringSerial : List Byte
  udiskMaxLun : Byte
  deviceState : DeviceState
  daddr : Byte
  others : Nat → Endpoint

def held (d : Control) : Held where
  bmRequestType := d.info.bmRequestType
  bRequest := d.info.bRequest
  wValue := d.info.wValue
  wIndex := d.info.wIndex
  wLength := d.info.wLength
  currentFeature := d.info.currentFeature
  currentConfiguration := d.info.currentConfiguration
  currentInterface := d.info.currentInterface
  currentAlternateSetting := d.info.currentAlternateSetting
  uartConfig := d.uartConfig
  stringSerial := d.stringSerial
  udiskMaxLun := d.udiskMaxLun
  deviceState := d.deviceState
  daddr := d.daddr
  others n := d.ep (n + 1)

@[simp] theorem held_setState (s : ControlState) (d : Control) : (d.setState s).held = d.held := rfl
@[simp] theorem held_setCtrlInfo (c : EndpointInfo) (d : Control) : (d.setCtrlInfo c).held = d.held := rfl
@[simp] theorem held_setEp (e : Endpoint) (d : Control) : (d.setEp 0 e).held = d.held := by
  simp [held, setEp]
@[simp] theorem held_statusInfo (w : BitVec 16) (d : Control) : ({ d with statusInfo := w } : Control).held = d.held := rfl

/-! ## One packet -/

/-- `CopyData` hands out `bs`, in packets from multiples of the packet size on. -/
structure Serves (m : Around) (r : CopyRoutine) (bs : List Byte) (h : Held) : Prop where
  short : bs.length < 2 ^ 16
  copy : ∀ (d : Control) (offset : Nat) (length : BitVec 16), d.held = h → d.ep 0 = ⟨.nak, .nak⟩ →
    (r ≠ .getMaxLun → d.info.ctrlInfo.usbWOffset.toNat = offset) → offset % 64 = 0 → 0 < length.toNat →
    offset + length.toNat ≤ bs.length →
    ∃ p w, copyData m r length d = (p, { d with statusInfo := w }) ∧
      (List.range length.toNat).map (({ d with statusInfo := w } : Control).read m p) = (bs.drop offset).take length.toNat

/-- `CopyData` is set, with `left` bytes to come from `offset` on. -/
structure Pending (r : CopyRoutine) (left offset : Nat) (c : EndpointInfo) : Prop where
  usbWLength : c.usbWLength.toNat = left
  usbWOffset : r ≠ .getMaxLun → c.usbWOffset.toNat = offset
  packetSize : c.packetSize = MAX_PACKET_SIZE
  copyData : c.copyData = some r

/-- What `DataStageIn` leaves when it has queued the packet from `offset` on. -/
structure Queued (m : Around) (r : CopyRoutine) (bs : List Byte) (offset : Nat) (d e : Control) : Prop where
  held : e.held = d.held
  ep : e.ep = d.ep
  saveR : e.saveR = .valid
  saveT : e.saveT = .valid
  mul : e.dataMulMaxPacketSize = d.dataMulMaxPacketSize
  count : e.txCount.toNat = min 64 (bs.length - offset)
  packet : e.pma.bytes ENDP0_TXADDR.toNat e.txCount.toNat = (bs.drop offset).take 64
  pending : offset + 64 < bs.length → Pending r (bs.length - (offset + 64)) (offset + 64) e.info.ctrlInfo
  last : bs.length ≤ offset + 64 → e.info.ctrlInfo.usbWLength = 0
  state : e.info.controlState = if bs.length ≤ offset + 64 then .lastInData else .inData

/-- The length of the next packet. -/
theorem packet_length {save : BitVec 16} {left : Nat} (here : save.toNat = left) :
    (if MAX_PACKET_SIZE > save then save else MAX_PACKET_SIZE).toNat = min 64 left := by
  have size : (MAX_PACKET_SIZE).toNat = 64 := rfl
  split
  · next less =>
    have small : save.toNat < 64 := less
    omega
  · next more =>
    have big : ¬ save.toNat < 64 := more
    omega

theorem read_setCtrlInfo (m : Around) (c : EndpointInfo) (d : Control) (p : Pointer) : (d.setCtrlInfo c).read m p = d.read m p := by
  funext i
  cases p with
  | descriptor t offset => cases t <;> rfl
  | null => rfl
  | statusInfo => rfl
  | currentConfiguration => rfl
  | currentAlternateSetting => rfl
  | uartConfig => rfl
  | udiskMaxLun => rfl

/-- **`DataStageIn`** queues the next packet. -/
theorem dataStageIn_queues {m : Around} {r : CopyRoutine} {bs : List Byte} {d : Control} {offset : Nat}
    (serves : Serves m r bs d.held) (ep : d.ep 0 = ⟨.nak, .nak⟩) (block : offset % 64 = 0) (inside : offset < bs.length)
    (pending : Pending r (bs.length - offset) offset d.info.ctrlInfo) :
    ∃ e, d.dataStageIn m = some e ∧ Queued m r bs offset d e := by
  have size : (MAX_PACKET_SIZE).toNat = 64 := rfl
  have short := serves.short
  have left := pending.usbWLength
  have more : d.info.ctrlInfo.usbWLength ≠ 0 := by
    intro none
    rw [none] at left
    simp at left
    omega
  have count := packet_length left
  unfold dataStageIn
  rw [if_neg fun both => more both.1, pending.copyData, pending.packetSize]
  generalize lengthIs : (if MAX_PACKET_SIZE > d.info.ctrlInfo.usbWLength then d.info.ctrlInfo.usbWLength else MAX_PACKET_SIZE) =
    length at count
  obtain ⟨p, w, copied, bytes⟩ := serves.copy d offset length rfl ep pending.usbWOffset block (by omega) (by omega)
  have sent : (bs.drop offset).take length.toNat = (bs.drop offset).take 64 := by
    rw [count, ← List.length_drop]
    exact List.take_eq_take_min.symm
  have less : length.toNat ≤ d.info.ctrlInfo.usbWLength.toNat := by omega
  refine ⟨_, rfl, ?_⟩
  simp only [lengthIs, copied]
  refine ⟨rfl, rfl, rfl, rfl, rfl, count, ?_, ?_, ?_, ?_⟩
  · rw [← sent, ← bytes, read_setCtrlInfo]
    exact bytes_copied rfl
  · intro another
    refine ⟨?_, ?_, pending.packetSize, pending.copyData⟩
    · change (d.info.ctrlInfo.usbWLength - length).toNat = _
      rw [BitVec.toNat_sub_of_le less]
      omega
    · intro other
      have place := pending.usbWOffset other
      change (d.info.ctrlInfo.usbWOffset + length).toNat = _
      rw [BitVec.toNat_add, Nat.mod_eq_of_lt (by omega)]
      omega
  · intro last
    change d.info.ctrlInfo.usbWLength - length = 0
    apply BitVec.eq_of_toNat_eq
    rw [BitVec.toNat_sub_of_le less]
    change _ = 0
    omega
  · change (if d.info.ctrlInfo.usbWLength ≤ MAX_PACKET_SIZE then ControlState.lastInData else .inData) = _
    have same : d.info.ctrlInfo.usbWLength ≤ MAX_PACKET_SIZE ↔ bs.length ≤ offset + 64 := by
      rw [BitVec.le_def, left, size]
      omega
    simp only [same]

/-! ## Token by token -/

@[simp] theorem setEp_setEp (n : Nat) (e e' : Endpoint) (d : Control) : (d.setEp n e).setEp n e' = d.setEp n e' := by
  simp only [setEp]
  congr 1
  funext k
  split <;> rfl

@[simp] theorem setEp_same (n : Nat) (e : Endpoint) (d : Control) : (d.setEp n e).ep n = e := if_pos rfl

section Handlers

variable {m : Around} {d e : Control}

@[simp] theorem held_taken : d.taken.held = d.held := held_setEp ⟨.nak, .nak⟩ d

@[simp] theorem taken_ep : d.taken.ep 0 = ⟨.nak, .nak⟩ := setEp_same 0 _ d

theorem post0_running (running : d.info.controlState ≠ .stalled) : d.post0Process = d := if_neg running

theorem in0_data (state : d.info.controlState = .inData ∨ d.info.controlState = .lastInData) :
    d.in0Process m = (d.dataStageIn m).map post0Process := by
  rw [in0Process, if_pos state]

end Handlers

end Control

namespace Usb
open Control (Held Pending Queued Serves)

variable {m : Around}

/-! ## The host -/

/-- An IN token, with the interrupt after it: the packet the host gets. -/
def inTransaction (m : Around) (u : Usb) : Option (List Byte × Usb) := do
  let packet ← u.sends
  let u ← u.run m [.inToken, .interrupt]
  some (packet, u)

/-- The data stage, as long as there are rounds left. -/
def hostIn (m : Around) (wLength : Nat) : Nat → List Byte → Usb → Option (List Byte × Usb)
  | 0, _, _ => none
  | rounds + 1, got, u => do
    let (packet, u) ← u.inTransaction m
    let got := got ++ packet
    if packet.length < DEF_USBD_UEP0_SIZE ∨ wLength ≤ got.length then some (got, u) else hostIn m wLength rounds got u

/-- `wLength` of a setup packet. -/
def packetLength (packet : Nat → Byte) : BitVec 16 := packet 7 ++ packet 6

/-- A read: what the host gets, if every stage of it is answered. -/
def controlRead (m : Around) (packet status : Nat → Byte) (u : Usb) : Option (List Byte × Usb) := do
  let u ← u.run m [.setupToken packet, .interrupt]
  let wLength := (packetLength packet).toNat
  let (got, u) ← u.hostIn m wLength (wLength + 1) []
  if (u.control.ep 0).rx = .valid then
    let u ← u.run m [.outToken status, .interrupt]
    some (got, u)
  else none

/-! ## Token by token -/

/-- Nothing waits for the interrupt. -/
structure Quiet (u : Usb) : Prop where
  ctrRx : u.ctrRx = false
  ctrTx : u.ctrTx = false
  reset : u.reset = false

theorem run_in {u : Usb} (quiet : u.Quiet) (tx : (u.control.ep 0).tx = .valid) :
    u.run m [.inToken, .interrupt] =
      ((u.control.setEp 0 ⟨(u.control.ep 0).rx, .nak⟩).taken.in0Process m).map fun d => { u with control := d.restored } := by
  obtain ⟨d, rx, tx', setup, reset⟩ := u
  obtain ⟨rfl, rfl, rfl⟩ : rx = false ∧ tx' = false ∧ reset = false := ⟨quiet.ctrRx, quiet.ctrTx, quiet.reset⟩
  simp only [run, Run.run, step, if_pos tx, Option.bind_some, usbIstr, ctrLp]
  simp [Function.comp_def]

theorem run_out {u : Usb} (quiet : u.Quiet) (rx : (u.control.ep 0).rx = .valid) (buffer : Nat → Byte) :
    u.run m [.outToken buffer, .interrupt] =
      (({ u.control.setEp 0 ⟨.nak, (u.control.ep 0).tx⟩ with
        pma := toPma 32 buffer (ENDP0_RXADDR.toNat / 2) u.control.pma } : Control).taken.out0Process m).map fun d =>
        { u with control := d.restored, setup := false } := by
  obtain ⟨d, rx', tx, setup, reset⟩ := u
  obtain ⟨rfl, rfl, rfl⟩ : rx' = false ∧ tx = false ∧ reset = false := ⟨quiet.ctrRx, quiet.ctrTx, quiet.reset⟩
  simp only [run, Run.run, step, if_pos rx, Option.bind_some, usbIstr, ctrLp]
  simp [Function.comp_def]

/-- A setup packet and its interrupt, whatever waits that was received before. -/
theorem run_setup {u : Usb} (tx : u.ctrTx = false) (reset : u.reset = false) (rx : (u.control.ep 0).rx ≠ .dis)
    (packet : Nat → Byte) :
    u.run m [.setupToken packet, .interrupt] =
      (({ u.control.setEp 0 ⟨.nak, .nak⟩ with
        pma := toPma 4 packet (ENDP0_RXADDR.toNat / 2) u.control.pma } : Control).taken.setup0Process m).map fun d =>
        { u with control := d.restored, ctrRx := false, setup := true } := by
  obtain ⟨d, rx', tx', setup, reset'⟩ := u
  obtain ⟨rfl, rfl⟩ : tx' = false ∧ reset' = false := ⟨tx, reset⟩
  simp only [run, Run.run, step, if_pos rx, Option.bind_some, usbIstr, ctrLp]
  simp [Function.comp_def]

/-! ## The data stage -/

/-- The packet from `offset` on is in the endpoint. -/
structure Sending (r : CopyRoutine) (bs : List Byte) (offset : Nat) (z : Bool) (h : Held) (u : Usb) : Prop where
  quiet : u.Quiet
  held : u.control.held = h
  ep : u.control.ep 0 = ⟨.valid, .valid⟩
  mul : u.control.dataMulMaxPacketSize = z
  packet : u.sends = some ((bs.drop offset).take 64)
  pending : offset + 64 < bs.length → Pending r (bs.length - (offset + 64)) (offset + 64) u.control.info.ctrlInfo
  last : bs.length ≤ offset + 64 → u.control.info.ctrlInfo.usbWLength = 0
  state : u.control.info.controlState = if bs.length ≤ offset + 64 then .lastInData else .inData

/-- Everything has been sent; a packet without data may still be there. -/
structure Sent (h : Held) (u : Usb) : Prop where
  quiet : u.Quiet
  held : u.control.held = h
  rx : (u.control.ep 0).rx = .valid
  state : u.control.info.controlState = .lastInData ∨ u.control.info.controlState = .waitStatusOut

section Stage

variable {r : CopyRoutine} {bs : List Byte} {offset : Nat} {z : Bool} {h : Held} {u : Usb}

/-- What has been queued is sent. -/
theorem sending_queued {d e : Control} (queued : Queued m r bs offset d e) (mul : d.dataMulMaxPacketSize = z) (quiet : u.Quiet) :
    Sending r bs offset z d.held { u with control := e.restored } where
  quiet := ⟨quiet.ctrRx, quiet.ctrTx, quiet.reset⟩
  held := (Control.held_setEp _ e).trans queued.held
  ep := by
    change (e.setEp 0 ⟨e.saveR, e.saveT⟩).ep 0 = _
    rw [Control.setEp_same, queued.saveR, queued.saveT]
  mul := queued.mul.trans mul
  packet := by
    have valid : (e.restored.ep 0).tx = .valid := by
      rw [Control.restored, Control.setEp_same]
      exact queued.saveT
    rw [sends, if_pos valid]
    exact congrArg some queued.packet
  pending := queued.pending
  last := queued.last
  state := queued.state

/-- The endpoint when the interrupt takes an IN token. -/
theorem in_taken (quiet : u.Quiet) (ep : u.control.ep 0 = ⟨.valid, .valid⟩) (m : Around) :
    ∃ d : Control, u.run m [.inToken, .interrupt] = (d.in0Process m).map (fun e => { u with control := e.restored }) ∧
      d.held = u.control.held ∧ d.ep 0 = ⟨.nak, .nak⟩ ∧ d.saveR = .valid ∧ d.info = u.control.info ∧
      d.dataMulMaxPacketSize = u.control.dataMulMaxPacketSize := by
  have tx : (u.control.ep 0).tx = .valid := by rw [ep]
  refine ⟨_, run_in quiet tx, ?_, Control.taken_ep, ?_, rfl, rfl⟩
  · rw [Control.held_taken, Control.held_setEp]
  · rw [ep]
    exact congrArg Endpoint.rx (Control.setEp_same 0 _ u.control)

/-- The endpoint when the interrupt takes an OUT packet. -/
theorem out_taken (quiet : u.Quiet) (rx : (u.control.ep 0).rx = .valid) (m : Around) (buffer : Nat → Byte) :
    ∃ d : Control, u.run m [.outToken buffer, .interrupt] =
        (d.out0Process m).map (fun e => { u with control := e.restored, setup := false }) ∧ d.held = u.control.held ∧
      d.info = u.control.info ∧ d.pma = toPma 32 buffer (ENDP0_RXADDR.toNat / 2) u.control.pma := by
  refine ⟨_, run_out quiet rx buffer, ?_, rfl, rfl⟩
  rw [Control.held_taken]
  exact Control.held_setEp ⟨.nak, (u.control.ep 0).tx⟩ u.control

/-- **An IN token** takes the packet and queues the next one. -/
theorem sending_next (serves : Serves m r bs h) (sending : Sending r bs offset z h u) (block : offset % 64 = 0)
    (more : offset + 64 < bs.length) :
    ∃ v, u.inTransaction m = some ((bs.drop offset).take 64, v) ∧ Sending r bs (offset + 64) z h v := by
  obtain ⟨d, run, held, ep, _, info, mul⟩ := in_taken sending.quiet sending.ep m
  have same : d.held = h := held.trans sending.held
  have state : d.info.controlState = .inData := by
    rw [info, sending.state, if_neg (by omega)]
  have next : (offset + 64) % 64 = 0 := by omega
  obtain ⟨e, sent, queued⟩ := Control.dataStageIn_queues (same ▸ serves) ep next more (info ▸ sending.pending more)
  have goesOn : e.info.controlState ≠ .stalled := by
    rw [queued.state]
    split <;> decide
  rw [Control.in0_data (.inl state), sent, Option.map_some, Option.map_some, Control.post0_running goesOn] at run
  refine ⟨_, ?_, same ▸ sending_queued queued (mul.trans sending.mul) sending.quiet⟩
  rw [inTransaction, sending.packet, run]
  rfl

/-- There is nothing left to queue but a packet without data, if the flag is set. -/
structure Ending (z : Bool) (h : Held) (u : Usb) : Prop where
  quiet : u.Quiet
  held : u.control.held = h
  ep : u.control.ep 0 = ⟨.valid, .valid⟩
  mul : u.control.dataMulMaxPacketSize = z
  left : u.control.info.ctrlInfo.usbWLength = 0
  state : u.control.info.controlState = .lastInData

theorem ending_next (ending : Ending z h u) (m : Around) :
    ∃ v, u.run m [.inToken, .interrupt] = some v ∧ Sent h v ∧ (z = true → v.sends = some [] ∧ Ending false h v) := by
  obtain ⟨d, run, held, ep, saveR, info, mul⟩ := in_taken ending.quiet ending.ep m
  have same : d.held = h := held.trans ending.held
  have state : d.info.controlState = .lastInData := info ▸ ending.state
  have left : d.info.ctrlInfo.usbWLength = 0 := info ▸ ending.left
  have flag : d.dataMulMaxPacketSize = z := mul.trans ending.mul
  rw [Control.in0_data (.inr state), Control.dataStageIn, if_pos ⟨left, state⟩, flag] at run
  cases z with
  | false =>
    rw [if_neg (by decide), Option.map_some, Option.map_some, Control.post0_running (by simp [Control.setState])] at run
    refine ⟨_, run, ⟨⟨ending.quiet.ctrRx, ending.quiet.ctrTx, ending.quiet.reset⟩, ?_, ?_, .inr rfl⟩, fun flag => by cases flag⟩
    · exact (Control.held_setEp _ _).trans same
    · rw [Control.restored, Control.setEp_same]
      exact saveR
  | true =>
    rw [if_pos rfl, Option.map_some, Option.map_some, Control.post0_running (by simp [Control.setState])] at run
    have quiet : Quiet { u with control := Control.restored { d.send0LengthData.setState .lastInData with
        dataMulMaxPacketSize := false } } := ⟨ending.quiet.ctrRx, ending.quiet.ctrTx, ending.quiet.reset⟩
    have held' := (Control.held_setEp ⟨d.saveR, .valid⟩ { d.send0LengthData.setState .lastInData with
        dataMulMaxPacketSize := false }).trans same
    have ep' : (Control.restored { d.send0LengthData.setState .lastInData with dataMulMaxPacketSize := false }).ep 0 =
        ⟨.valid, .valid⟩ := by
      rw [Control.restored, Control.setEp_same]
      exact congrArg (fun r => (⟨r, .valid⟩ : Endpoint)) saveR
    refine ⟨_, run, ⟨quiet, held', ?_, .inl rfl⟩, fun _ => ⟨?_, ⟨quiet, held', ep', rfl, left, rfl⟩⟩⟩
    · rw [ep']
    · rw [sends, if_pos (by rw [ep'])]
      rfl

/-- The last IN token with data; with the flag a packet without data is queued. -/
theorem sending_last (sending : Sending r bs offset z h u) (last : bs.length ≤ offset + 64) (m : Around) :
    ∃ v, u.inTransaction m = some ((bs.drop offset).take 64, v) ∧ Sent h v ∧
      (z = true → ∃ w, v.inTransaction m = some ([], w) ∧ Sent h w) := by
  have ending : Ending z h u := ⟨sending.quiet, sending.held, sending.ep, sending.mul, sending.last last, by
    rw [sending.state, if_pos last]⟩
  obtain ⟨v, run, sent, flag⟩ := ending_next ending m
  refine ⟨v, ?_, sent, ?_⟩
  · rw [inTransaction, sending.packet, run]
    rfl
  · intro set
    obtain ⟨empty, again⟩ := flag set
    obtain ⟨w, run', sent', _⟩ := ending_next again m
    refine ⟨w, ?_, sent'⟩
    rw [inTransaction, empty, run']
    rfl

theorem hostIn_step {w rounds : Nat} {got packet : List Byte} {v : Usb} (token : u.inTransaction m = some (packet, v)) :
    u.hostIn m w (rounds + 1) got = if packet.length < DEF_USBD_UEP0_SIZE ∨ w ≤ (got ++ packet).length then some (got ++ packet, v)
      else v.hostIn m w rounds (got ++ packet) := by
  rw [hostIn, token]
  rfl

/-- **The data stage**: the host gets everything, if the flag is set where it needs a
packet without data to know. -/
theorem hostIn_reads (serves : Serves m r bs h) {w : Nat} (enough : bs.length ≤ w)
    (zero : bs.length < w → bs.length % 64 = 0 → z = true) (rounds : Nat) (sending : Sending r bs offset z h u)
    (block : offset % 64 = 0) (inside : offset < bs.length) (more : bs.length - offset < rounds) :
    ∃ v, u.hostIn m w rounds (bs.take offset) = some (bs, v) ∧ Sent h v := by
  induction rounds generalizing offset u with
  | zero => omega
  | succ rounds ih =>
    have got : bs.take offset ++ (bs.drop offset).take 64 = bs.take (offset + 64) := List.take_add.symm
    have size : ((bs.drop offset).take 64).length = min 64 (bs.length - offset) := by
      rw [List.length_take, List.length_drop]
    have full : DEF_USBD_UEP0_SIZE = 64 := rfl
    rcases Nat.lt_or_ge (offset + 64) bs.length with further | last
    · obtain ⟨v, token, next⟩ := sending_next serves sending block further
      rw [hostIn_step token, got, if_neg (by rw [size, List.length_take]; omega)]
      exact ih next (by omega) further (by omega)
    · obtain ⟨v, token, sent, flag⟩ := sending_last sending last m
      rw [hostIn_step token, got, List.take_of_length_le last]
      by_cases stop : ((bs.drop offset).take 64).length < DEF_USBD_UEP0_SIZE ∨ w ≤ bs.length
      · rw [if_pos stop]
        exact ⟨v, rfl, sent⟩
      · rw [size] at stop
        obtain ⟨v', empty, sent'⟩ := flag (zero (by omega) (by omega))
        obtain ⟨rounds, rfl⟩ : ∃ k, rounds = k + 1 := ⟨rounds - 1, by omega⟩
        rw [if_neg (by rw [size]; omega), hostIn_step empty, List.append_nil, if_pos (.inl (by decide))]
        exact ⟨v', rfl, sent'⟩

/-- The status stage ends the request. -/
theorem sent_status (sent : Sent h u) (buffer : Nat → Byte) :
    ∃ v, u.run m [.outToken buffer, .interrupt] = some v ∧ v.Quiet ∧ v.control.held = h ∧
      v.control.ep 0 = ⟨.stall, .stall⟩ ∧ v.control.info.controlState = .stalled := by
  obtain ⟨d, run, same, info, -⟩ := out_taken sent.quiet sent.rx m buffer
  have held : d.held = h := same.trans sent.held
  rw [run]
  have state : ¬ (d.info.controlState = .outData ∨ d.info.controlState = .lastOutData) := by
    rw [info]
    rcases sent.state with here | here <;> rw [here] <;> decide
  have post : (d.setState .stalled).post0Process = { d.setState .stalled with saveR := .stall, saveT := .stall } := if_pos rfl
  rw [Control.out0Process, if_neg state, Option.map_some, post, Option.map_some]
  refine ⟨_, rfl, ⟨sent.quiet.ctrRx, sent.quiet.ctrTx, sent.quiet.reset⟩, ?_, ?_, rfl⟩
  · exact (Control.held_setEp _ _).trans held
  · exact Control.setEp_same 0 _ _

end Stage

end Usb

end OffLineProgrammer.UsbCore
