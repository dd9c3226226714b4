import OffLineProgrammer.UsbCore.Sound

/-!
# The line coding

A host that sets the line coding and reads it back gets what it has sent
(`lineCoding_roundtrip`). The packet size of the data stage is the one of the last read:
before the first read a write takes nothing.
-/

namespace OffLineProgrammer.UsbCore
set_option autoImplicit false
open OffLineProgrammer.Lib

namespace Control

section Handlers

variable {m : Around} {packet : Nat → Byte} {d : Control}

/-- The endpoint waits for the line coding. -/
structure Expects (d : Control) : Prop where
  state : d.info.controlState = .outData
  copyData : d.info.ctrlInfo.copyData = some .setLineCoding
  left : d.info.ctrlInfo.usbWLength = 7
  size : d.info.ctrlInfo.packetSize = MAX_PACKET_SIZE

theorem dataSetup0_lineCoding (m : Around) (asks : Asks packet d) (type : packet 0 = 0x21) (request : packet 1 = CDC_SET_LINE_CODING)
    (size : d.info.ctrlInfo.packetSize = MAX_PACKET_SIZE) :
    ∃ e, d.dataSetup0 m = some e ∧ Expects e ∧ e.saveR = .valid ∧ e.held = d.held := by
  have recipient : d.info.typeRecipient = CLASS_REQUEST ||| INTERFACE_RECIPIENT := by
    rw [asks.recipient, type]
    rfl
  have chosen : d.chooseData m = (.success, d.startLineCoding m .setLineCoding) := by
    rw [chooseData, standardRoutine_none (.inr (.inl request)) asks]
    change d.usbdDataSetup m = _
    rw [usbdDataSetup, if_pos recipient, asks.request, request, if_neg (by decide), if_neg (by decide), if_pos rfl]
  have write : d.info.bmRequestType.getLsbD 7 = false := by
    rw [asks.type, type]
    decide
  unfold dataSetup0
  rw [chosen]
  dsimp only
  generalize begun : d.startLineCoding m .setLineCoding = c
  have left : c.info.ctrlInfo.usbWLength = 7 := begun ▸ rfl
  have write' : c.info.bmRequestType.getLsbD 7 = false := begun ▸ write
  rw [if_neg (by decide), left, if_neg (by decide), if_neg (by decide), write', if_neg (by decide)]
  refine ⟨_, rfl, ⟨rfl, ?_, left, ?_⟩, rfl, ?_⟩
  · rw [← begun]
    rfl
  · rw [← begun]
    exact size
  · rw [← begun]
    rfl

/-- The packet replaces the line coding. -/
theorem out0_lineCoding (m : Around) (expects : Expects d) (uart : d.uartConfig.length = 8) {buffer : Nat → Byte} {pma : Pma}
    (here : d.pma = toPma 32 buffer (ENDP0_RXADDR.toNat / 2) pma) :
    ∃ e, d.out0Process m = some e ∧ e.held = { d.held with uartConfig := (List.range 8).map buffer } ∧
      e.info.controlState = .waitStatusIn ∧ e.saveT = .valid ∧ e.txCount = 0 := by
  have seven : (7 : BitVec 16).toNat = 7 := rfl
  have length : (if d.info.ctrlInfo.packetSize > d.info.ctrlInfo.usbWLength then d.info.ctrlInfo.usbWLength
      else d.info.ctrlInfo.packetSize) = 7 := by
    rw [expects.left, expects.size]
    decide
  have bytes : pmaToUserBufferCopy ENDP0_RXADDR 7 d.pma = (List.range 8).map buffer := by
    have packet : d.pma = userToPMABufferCopy buffer ENDP0_RXADDR 64 pma := here
    rw [pmaToUser_eq (by decide), packet]
    apply List.map_congr_left
    intro i mem
    exact byte_copied (by decide) (Nat.lt_trans (List.mem_range.mp mem) (by decide))
  have copied : copyData m .setLineCoding 7 d = (.uartConfig, d) := by
    change usbCdcLineCoding 7 d = _
    rw [usbCdcLineCoding, if_neg (by decide)]
  have some_ : (List.range 8).map buffer ≠ [] := by simp
  have stored : patch d.uartConfig 0 ((List.range 8).map buffer) = some ((List.range 8).map buffer) := by
    have fits : 0 + ((List.range 8).map buffer).length = 8 := by simp
    have all : d.uartConfig.drop 8 = [] := List.drop_eq_nil_of_le (by omega)
    rw [patch, fits, uart, if_pos (Nat.le_refl 8), all, List.take_zero, List.nil_append, List.append_nil]
  obtain ⟨f, taken, held, left, size⟩ : ∃ f, d.takeData m = some f ∧ f.held = { d.held with uartConfig := (List.range 8).map buffer } ∧
      f.info.ctrlInfo.usbWLength = 0 ∧ f.info.ctrlInfo.packetSize ≠ 0 := by
    unfold takeData
    rw [expects.copyData]
    dsimp only
    rw [length, if_neg (by rw [expects.left]; decide), copied]
    dsimp only
    rw [bytes, write, if_neg some_]
    have same : (d.setCtrlInfo { d.info.ctrlInfo with
        usbWLength := d.info.ctrlInfo.usbWLength - 7
        usbWOffset := d.info.ctrlInfo.usbWOffset + 7 }).uartConfig = d.uartConfig := rfl
    rw [same, stored, Option.map_some]
    refine ⟨_, rfl, rfl, ?_, ?_⟩
    · change d.info.ctrlInfo.usbWLength - 7 = 0
      rw [expects.left]
      decide
    · change d.info.ctrlInfo.packetSize ≠ 0
      rw [expects.size]
      decide
  have goesOn : (f.setState .waitStatusIn).send0LengthData.info.controlState ≠ .stalled := fun this => by cases this
  refine ⟨(f.setState .waitStatusIn).send0LengthData, ?_, held, rfl, rfl, rfl⟩
  rw [out0Process, if_pos (.inl expects.state), dataStageOut, taken, Option.map_some, finishOut_last left size,
    Option.map_some, post0_running goesOn]

/-- The status stage of a write that assigns no address. -/
theorem in0_status (m : Around) (state : d.info.controlState = .waitStatusIn) (other : ¬ d.request.setsAddress) :
    d.in0Process m = some { d.setState .stalled with saveR := .stall, saveT := .stall } := by
  have notIn : ¬ (d.info.controlState = .inData ∨ d.info.controlState = .lastInData) := by
    rw [state]
    decide
  have keeps : ¬ (d.info.bRequest = SET_ADDRESS ∧ d.info.typeRecipient = STANDARD_REQUEST ||| DEVICE_RECIPIENT) :=
    fun both => other ⟨both.2, both.1⟩
  rw [in0Process, if_neg notIn, if_pos state]
  dsimp only
  rw [if_neg keeps, Option.map_some]
  exact congrArg some (if_pos rfl)

end Handlers

end Control

namespace Usb
open Control (asked)

/-- A write of one packet, if every stage of it is answered. -/
def controlWrite (m : Around) (packet buffer : Nat → Byte) (u : Usb) : Option Usb := do
  let u ← u.run m [.setupToken packet, .interrupt]
  if (u.control.ep 0).rx = .valid then
    let u ← u.run m [.outToken buffer, .interrupt]
    let (status, u) ← u.inTransaction m
    if status = [] then some u else none
  else none

section RoundTrip

variable {m : Around} {set get buffer status : Nat → Byte} {u : Usb}

/-- The three stages of a write. -/
theorem controlWrite_stages {v w x : Usb} (setup : u.run m [.setupToken set, .interrupt] = some v)
    (rx : (v.control.ep 0).rx = .valid) (data : v.run m [.outToken buffer, .interrupt] = some w)
    (ends : w.inTransaction m = some ([], x)) : u.controlWrite m set buffer = some x := by
  simp only [controlWrite, setup, data, ends, Option.bind_eq_bind, Option.bind_some, if_pos rx, if_true]

/-- **SET_LINE_CODING** stores the packet. -/
theorem lineCoding_written (rest : u.Resting) (uart : u.control.uartConfig.length = 8)
    (size : u.control.info.ctrlInfo.packetSize = MAX_PACKET_SIZE) (type : set 0 = 0x21) (request : set 1 = CDC_SET_LINE_CODING)
    (wanted : packetLength set ≠ 0) :
    ∃ v, u.controlWrite m set buffer = some v ∧
      v.control.held = asked set { u.control.held with uartConfig := (List.range 8).map buffer } ∧ v.Quiet ∧
      v.control.ep 0 = ⟨.stall, .stall⟩ ∧ v.control.info.controlState = .stalled := by
  obtain ⟨d, go, held, ep, info, here, -⟩ := setup_taken m set rest
  have ready' : d.info.controlState ≠ .pause := info ▸ rest.ready
  have seen : d.seen.held = asked set d.held := by
    rw [Control.seen, if_pos ready']
    exact Control.readSetup_held _ here
  have asks := Control.asks_held seen
  have size' : d.seen.info.ctrlInfo.packetSize = MAX_PACKET_SIZE := by
    rw [Control.seen, if_pos ready']
    change d.info.ctrlInfo.packetSize = _
    rw [info]
    exact size
  obtain ⟨e, done, expects, saveR, kept⟩ := Control.dataSetup0_lineCoding m asks type request size'
  have goesOn : e.info.controlState ≠ .stalled := by
    rw [expects.state]
    decide
  rw [Control.setup0_seen, if_neg (asks.wLength ▸ wanted), done, Option.map_some, Option.map_some, Control.post0_running goesOn] at go
  -- the data stage
  have valid : (e.restored.ep 0).rx = .valid := by
    rw [Control.restored, Control.setEp_same]
    exact saveR
  obtain ⟨c, data, held', info', pma⟩ := out_taken (u := { u with control := e.restored, ctrRx := false, setup := true })
    ⟨rfl, rest.ctrTx, rest.reset⟩ valid m buffer
  have waits : Control.Expects c := by
    have same : c.info = e.info := info'
    exact ⟨same ▸ expects.state, same ▸ expects.copyData, same ▸ expects.left, same ▸ expects.size⟩
  have before : c.held = asked set u.control.held :=
    held'.trans ((Control.restored_held e).trans (kept.trans (seen.trans (congrArg (asked set) held))))
  have same : c.uartConfig = u.control.uartConfig := congrArg Control.Held.uartConfig before
  obtain ⟨f, stored, after, state, saveT, count⟩ := Control.out0_lineCoding m waits (same ▸ uart) pma
  rw [stored, Option.map_some] at data
  -- the status stage
  have full : (f.restored.ep 0).tx = .valid := by
    rw [Control.restored, Control.setEp_same]
    exact saveT
  have after' : f.held = asked set { u.control.held with uartConfig := (List.range 8).map buffer } := by
    rw [after, before]
    rfl
  have other : ¬ f.request.setsAddress := by
    rintro ⟨-, number⟩
    have here : f.info.bRequest = set 1 := congrArg Control.Held.bRequest after'
    have five : f.info.bRequest = SET_ADDRESS := number
    rw [here, request] at five
    exact absurd five (by decide)
  have ends := run_in (m := m) (u := { u with control := f.restored, ctrRx := false, setup := false }) ⟨rfl, rest.ctrTx, rest.reset⟩ full
  generalize taken : (f.restored.setEp 0 ⟨(f.restored.ep 0).rx, .nak⟩).taken = g at ends
  have kept' : g.held = f.held := by
    rw [← taken, Control.held_taken, Control.held_setEp, Control.restored_held]
  have status := Control.in0_status m (d := g) (by rw [← taken]; exact state) (by rw [(Control.kept_held kept').request]; exact other)
  rw [status, Option.map_some] at ends
  have ended : inTransaction m { u with control := f.restored, ctrRx := false, setup := false } =
      some ([], { u with
        control := Control.restored { g.setState .stalled with saveR := .stall, saveT := .stall }
        ctrRx := false
        setup := false }) := by
    have empty : sends { u with control := f.restored, ctrRx := false, setup := false } = some [] := by
      rw [sends, if_pos full]
      change some (f.pma.bytes ENDP0_TXADDR.toNat f.txCount.toNat) = some []
      rw [count]
      rfl
    rw [inTransaction, empty, Option.bind_eq_bind, Option.bind_some, ends]
    rfl
  refine ⟨_, controlWrite_stages go valid data ended, ?_, ⟨rfl, rest.ctrTx, rest.reset⟩, Control.setEp_same 0 _ _, rfl⟩
  exact (Control.held_setEp _ _).trans (kept'.trans after')

/-- **The line coding round trip**: what the host sets is what it reads, whatever it asks
for of it. -/
theorem lineCoding_roundtrip (rest : u.Resting) (uart : u.control.uartConfig.length = 8)
    (size : u.control.info.ctrlInfo.packetSize = MAX_PACKET_SIZE) (sets : set 0 = 0x21 ∧ set 1 = CDC_SET_LINE_CODING)
    (wanted : packetLength set ≠ 0) (gets : get 0 = 0xA1 ∧ get 1 = CDC_GET_LINE_CODING) (wanted' : packetLength get ≠ 0) :
    ∃ v w, u.controlWrite m set buffer = some v ∧
      v.controlRead m get status = some (((List.range 7).map buffer).take (packetLength get).toNat, w) := by
  obtain ⟨v, written, held, quiet, ep, state⟩ :=
    @lineCoding_written m set buffer u rest uart size sets.1 sets.2 wanted
  have stored : v.control.uartConfig = (List.range 8).map buffer := congrArg Control.Held.uartConfig held
  have answered : v.control.answer m get = some ((List.range 7).map buffer) := by
    have class_ : get 0 = 0xA1 := gets.1
    rw [Control.answer, if_neg (by simp [class_]), if_neg (by simp [class_]), if_neg (by simp [class_]), if_neg (by simp [class_]),
      if_neg (by simp [class_]), if_neg (by simp [class_]), if_pos ⟨class_, .inl gets.2⟩]
    refine congrArg some (List.map_congr_left fun i mem => ?_)
    have less : i < 8 := Nat.lt_trans (List.mem_range.mp mem) (by decide)
    rw [Nat.zero_add, Control.read, stored, List.getD_eq_getElem?_getD, List.getElem?_map, List.getElem?_range less]
    rfl
  obtain ⟨w, read, -⟩ := @control_read m get status v _ ⟨quiet.ctrTx, quiet.reset, by rw [ep]; decide, by rw [state]; decide⟩
    answered (by simp) (by simp) wanted'
  exact ⟨v, w, written, read⟩

/-- 115200 baud, eight bits, no parity, set after a read of the device descriptor. -/
theorem lineCoding_roundtrip_115200 :
    ∃ u v w, (init fun _ => 0).run Around.empty readDevice = some u ∧
      u.controlWrite Around.empty (fun i => [0x21, CDC_SET_LINE_CODING, 0, 0, 0, 0, 7, 0].getD i 0)
        (fun i => [0x00, 0xC2, 0x01, 0x00, 0, 0, 8].getD i 0) = some v ∧
      v.controlRead Around.empty (fun i => [0xA1, CDC_GET_LINE_CODING, 0, 0, 0, 0, 7, 0].getD i 0) (fun _ => 0) =
        some ([0x00, 0xC2, 0x01, 0x00, 0, 0, 8], w) := by
  obtain ⟨u, go, tx, reset, rx, state, size, uart⟩ : ∃ u, (init fun _ => 0).run Around.empty readDevice = some u ∧ u.ctrTx = false ∧
      u.reset = false ∧ (u.control.ep 0).rx = .stall ∧ u.control.info.controlState = .stalled ∧
      u.control.info.ctrlInfo.packetSize = 64 ∧ u.control.uartConfig.length = 8 := ⟨_, rfl, rfl, rfl, rfl, rfl, rfl, rfl⟩
  obtain ⟨v, w, written, read⟩ := @lineCoding_roundtrip Around.empty (fun i => [0x21, CDC_SET_LINE_CODING, 0, 0, 0, 0, 7, 0].getD i 0)
    (fun i => [0xA1, CDC_GET_LINE_CODING, 0, 0, 0, 0, 7, 0].getD i 0) (fun i => [0x00, 0xC2, 0x01, 0x00, 0, 0, 8].getD i 0)
    (fun _ => 0) u ⟨tx, reset, by rw [rx]; decide, by rw [state]; decide⟩ uart size ⟨rfl, rfl⟩ (by decide) ⟨rfl, rfl⟩ (by decide)
  exact ⟨u, v, w, go, written, read⟩

end RoundTrip

end Usb

end OffLineProgrammer.UsbCore
