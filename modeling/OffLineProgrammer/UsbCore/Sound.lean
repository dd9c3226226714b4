import OffLineProgrammer.UsbCore.Address

/-!
# Runs that stay inside the device's own memory

As long as the host does not write what can only be read, no run of tokens, packets, bus
resets and interrupts makes the code call a null `CopyData` or store outside of the line
coding, and what the device says of itself stays as it is (`run_sound`). One such write is enough to
set the configuration to any value (`misdirected_configuration`).
-/

namespace OffLineProgrammer.UsbCore
set_option autoImplicit false
open OffLineProgrammer.Lib

/-- A write of what can only be read: the data of a standard request, or the number of
disks. -/
def Request.Misdirected (q : Request) : Prop :=
  q.wLength ≠ 0 ∧ q.bmRequestType.getLsbD 7 = false ∧
    (q.bmRequestType &&& 0x7F ≤ 2 ∧ Control.standardData q.bRequest ∨ q.bmRequestType &&& 0x7F = 0x21 ∧ q.bRequest = 0xFE)

namespace Control

/-- What the device says of itself, and where a write can go. -/
structure Sound (d : Control) : Prop where
  uartConfig : d.uartConfig.length = 8
  stringSerial : d.stringSerial = USBD_StringSerial
  udiskMaxLun : d.udiskMaxLun = 0
  configuration : d.info.currentConfiguration ≤ TOTAL_CONFIGURATION
  request : ¬ d.request.Misdirected
  writes : d.info.controlState.isOut → Line d.info.ctrlInfo

section Handlers

variable {m : Around} {d e : Control}

/-- What a handler that does not write leaves sound. -/
theorem sound_held (sound : Sound d) (held : e.held = d.held) (writes : e.info.controlState.isOut → Line e.info.ctrlInfo) :
    Sound e := by
  have uart : e.uartConfig = d.uartConfig := congrArg Held.uartConfig held
  have configuration : e.info.currentConfiguration = d.info.currentConfiguration := congrArg Held.currentConfiguration held
  exact ⟨uart ▸ sound.uartConfig, (congrArg Held.stringSerial held).trans sound.stringSerial,
    (congrArg Held.udiskMaxLun held).trans sound.udiskMaxLun, configuration ▸ sound.configuration,
    (kept_held held).request ▸ sound.request, writes⟩

theorem sound_congr (sound : Sound d) (held : e.held = d.held) (info : e.info = d.info) : Sound e :=
  sound_held sound held (info ▸ sound.writes)

/-! ## The data stage of a write -/

theorem patch_length {old new bs : List Byte} {offset : Nat} (done : patch old offset bs = some new) : new.length = old.length := by
  unfold patch at done
  split at done
  · cases done
    simp only [List.length_append, List.length_take, List.length_drop]
    omega
  · cases done

theorem write_nil (p : Pointer) (d : Control) : d.write p [] = some d := by
  unfold write
  exact if_pos rfl

/-- A write that fits into the line coding. -/
theorem write_uartConfig {bs : List Byte} (inside : bs.length ≤ d.uartConfig.length) :
    ∃ new : List Byte, new.length = d.uartConfig.length ∧ d.write .uartConfig bs = some { d with uartConfig := new } := by
  by_cases nothing : bs = []
  · rw [nothing, write_nil]
    exact ⟨d.uartConfig, rfl, rfl⟩
  · have fits : patch d.uartConfig 0 bs = some (d.uartConfig.take 0 ++ bs ++ d.uartConfig.drop (0 + bs.length)) :=
      if_pos (by omega)
    refine ⟨_, patch_length fits, ?_⟩
    unfold write
    rw [if_neg nothing]
    dsimp only
    rw [fits, Option.map_some]

/-- What a write of the line coding leaves. -/
structure AfterLine (d e : Control) : Prop where
  line : Line e.info.ctrlInfo
  length : e.uartConfig.length = d.uartConfig.length
  rest : { e.held with uartConfig := d.uartConfig } = d.held

/-- **A packet of the line coding** stays inside of it. -/
theorem takeData_line (m : Around) (line : Line d.info.ctrlInfo) (uart : d.uartConfig.length = 8) :
    ∃ e, d.takeData m = some e ∧ AfterLine d e := by
  obtain ⟨r, set, same⟩ : ∃ r, d.info.ctrlInfo.copyData = some r ∧ ∀ length e, copyData m r length e = usbCdcLineCoding length e := by
    rcases line.copyData with here | here
    · exact ⟨_, here, fun _ _ => rfl⟩
    · exact ⟨_, here, fun _ _ => rfl⟩
  unfold takeData
  rw [set]
  dsimp only
  by_cases empty : d.info.ctrlInfo.usbWLength = 0
  · rw [if_pos empty]
    exact ⟨d, rfl, line, rfl, rfl⟩
  rw [if_neg empty]
  generalize lengthIs : (if d.info.ctrlInfo.packetSize > d.info.ctrlInfo.usbWLength then d.info.ctrlInfo.usbWLength
    else d.info.ctrlInfo.packetSize) = length
  have few : length.toNat ≤ d.info.ctrlInfo.usbWLength.toNat := by
    rw [← lengthIs]
    split
    · exact Nat.le_refl _
    · next other => exact Nat.le_of_not_lt other
  have left := line.left
  rw [same, usbCdcLineCoding]
  by_cases none : length = 0
  · -- with a packet size of zero nothing is copied
    have nothing : pmaToUserBufferCopy ENDP0_RXADDR length d.pma = [] := by
      rw [none]
      rfl
    rw [if_pos none]
    dsimp only
    have zero : pmaToUserBufferCopy ENDP0_RXADDR length (d.setWLength 7).pma = [] := nothing
    rw [zero, write_nil]
    refine ⟨_, rfl, ⟨line.copyData, ?_⟩, rfl, rfl⟩
    rw [none]
    change (7 - 0 : BitVec 16).toNat ≤ 7
    decide
  · rw [if_neg none]
    dsimp only
    have bytes : (pmaToUserBufferCopy ENDP0_RXADDR length d.pma).length ≤ d.uartConfig.length := by
      rw [pmaToUser_eq (by decide), Mem.length_read, uart]
      omega
    generalize stored : d.setCtrlInfo { d.info.ctrlInfo with
        usbWLength := d.info.ctrlInfo.usbWLength - length
        usbWOffset := d.info.ctrlInfo.usbWOffset + length } = f
    have same' : f.uartConfig = d.uartConfig := by rw [← stored]; rfl
    obtain ⟨new, size, wrote⟩ := write_uartConfig (d := f) (same' ▸ bytes)
    rw [wrote]
    refine ⟨_, rfl, ⟨?_, ?_⟩, same' ▸ size, ?_⟩
    · change f.info.ctrlInfo.copyData = _ ∨ f.info.ctrlInfo.copyData = _
      rw [← stored]
      exact line.copyData
    · change f.info.ctrlInfo.usbWLength.toNat ≤ 7
      rw [← stored]
      change (d.info.ctrlInfo.usbWLength - length).toNat ≤ 7
      rw [BitVec.toNat_sub_of_le few]
      omega
    · rw [← stored]
      rfl

/-- What a handler leaves: it does not fail, and a read goes on only with `CopyData` set. -/
structure Runs (o : Option Control) (e : Control) : Prop where
  done : o = some e
  sound : Sound e
  reads : e.info.controlState.isIn → e.info.ctrlInfo.copyData ≠ none

theorem runs_post0 {o : Option Control} (runs : Runs o e) : Runs (o.map post0Process) e.post0Process where
  done := by rw [runs.done, Option.map_some]
  sound := sound_congr runs.sound (post0_held e) (post0_info e)
  reads := by
    rw [post0_info]
    exact runs.reads

/-- The ends of a handler without a data stage. -/
theorem runs_stalled (sound : Sound d) : Runs (some (d.setState .stalled)) (d.setState .stalled) where
  done := rfl
  sound := sound_held sound rfl fun this => absurd this (show ¬ ControlState.stalled.isOut by decide)
  reads this := absurd this (show ¬ ControlState.stalled.isIn by decide)

/-- **An OUT packet** is stored in the line coding or nowhere. -/
theorem out0_runs (m : Around) (sound : Sound d) :
    ∃ e, Runs (d.out0Process m) e ∧ { e.held with uartConfig := d.uartConfig } = d.held := by
  unfold out0Process
  split
  · next out =>
    obtain ⟨f, taken, after⟩ := takeData_line m (sound.writes out) sound.uartConfig
    obtain ⟨held, ctrlInfo, notIn⟩ := finishOut_after f
    have done : d.dataStageOut m = some f.finishOut := by rw [dataStageOut, taken, Option.map_some]
    have rest : { f.finishOut.held with uartConfig := d.uartConfig } = d.held := by
      rw [held]
      exact after.rest
    refine ⟨_, runs_post0 ⟨done, ⟨?_, ?_, ?_, ?_, ?_, ?_⟩, fun reads => absurd reads notIn⟩, ?_⟩
    · have uart : f.finishOut.uartConfig = f.uartConfig := congrArg Held.uartConfig held
      rw [uart, after.length]
      exact sound.uartConfig
    · exact (congrArg Held.stringSerial rest).trans sound.stringSerial
    · exact (congrArg Held.udiskMaxLun rest).trans sound.udiskMaxLun
    · have configuration : f.finishOut.info.currentConfiguration = d.info.currentConfiguration :=
        congrArg Held.currentConfiguration rest
      exact configuration ▸ sound.configuration
    · have request : f.finishOut.request = d.request := (dataStageOut_after done).1.request
      exact request ▸ sound.request
    · intro _
      exact ctrlInfo ▸ after.line
    · rw [post0_held]
      exact rest
  · refine ⟨_, runs_post0 (runs_stalled sound), ?_⟩
    rw [post0_held]
    rfl

theorem in0_runs (m : Around) (sound : Sound d) (reads : d.info.controlState.isIn → d.info.ctrlInfo.copyData ≠ none) :
    ∃ e, Runs (d.in0Process m) e := by
  unfold in0Process
  split
  · next inside =>
    obtain ⟨e, done⟩ := dataStageIn_some (m := m) (reads inside)
    have after := dataStageIn_after done
    refine ⟨_, runs_post0 ⟨done, sound_held sound after.held fun out => absurd out after.notOut, fun _ => ?_⟩⟩
    rw [after.copyData]
    exact reads inside
  split
  · dsimp only
    split
    · have moved : Sound { d.setDeviceAddress d.info.wValue0 with deviceState := .addressed } :=
        ⟨sound.uartConfig, sound.stringSerial, sound.udiskMaxLun, sound.configuration, sound.request, sound.writes⟩
      exact ⟨_, runs_post0 (runs_stalled moved)⟩
    · exact ⟨_, runs_post0 (runs_stalled sound)⟩
  · exact ⟨_, runs_post0 (runs_stalled sound)⟩

/-- The request of a handler is not misdirected if those of the host are not. -/
theorem seen_sound (sound : Sound d) {packet : Nat → Byte} (directed : ¬ (requestOf packet).Misdirected) {pma : Pma}
    (here : d.pma = toPma 4 packet (ENDP0_RXADDR.toNat / 2) pma) : Sound d.seen := by
  have out : ¬ d.seen.info.controlState.isOut := show ¬ ControlState.settingUp.isOut by decide
  by_cases ready : d.info.controlState ≠ .pause
  · have read : d.seen = d.readSetup.setState .settingUp := by rw [seen, if_pos ready]
    have request := seen_request ready here
    rw [← request] at directed
    refine ⟨?_, ?_, ?_, ?_, directed, fun this => absurd this out⟩
    · rw [read]
      exact sound.uartConfig
    · rw [read]
      exact sound.stringSerial
    · rw [read]
      exact sound.udiskMaxLun
    · rw [read]
      exact sound.configuration
  · have same : d.seen.held = d.held := by
      rw [seen, if_neg ready]
      rfl
    exact sound_held sound same fun this => absurd this out

theorem setup0_runs (m : Around) (sound : Sound d) {packet : Nat → Byte} (directed : ¬ (requestOf packet).Misdirected) {pma : Pma}
    (here : d.pma = toPma 4 packet (ENDP0_RXADDR.toNat / 2) pma) : ∃ e, Runs (d.setup0Process m) e := by
  have sound := seen_sound sound directed here
  rw [setup0_seen]
  generalize d.seen = c at sound
  split
  · obtain ⟨after, state⟩ := noDataSetup0_after c
    have ends : ¬ c.noDataSetup0.info.controlState.isIn ∧ ¬ c.noDataSetup0.info.controlState.isOut := by
      rcases state with here | here | ⟨here, -⟩ <;> rw [here] <;> decide
    refine ⟨_, runs_post0 ⟨rfl, ⟨?_, ?_, ?_, ?_, ?_, fun this => absurd this ends.2⟩, fun this => absurd this ends.1⟩⟩
    · exact after.uartConfig ▸ sound.uartConfig
    · exact after.stringSerial.trans sound.stringSerial
    · exact after.udiskMaxLun.trans sound.udiskMaxLun
    · rcases after.configuration with same | small
      · exact same ▸ sound.configuration
      · exact small
    · exact after.kept.request ▸ sound.request
  · next data =>
    obtain ⟨e, done⟩ := dataSetup0_some m c
    have after := dataSetup0_after done
    refine ⟨_, runs_post0 ⟨done, sound_held sound after.held fun out => ?_, after.reads⟩⟩
    obtain ⟨write, chosen⟩ := after.writes out
    cases chosen with
    | standard number type _ => exact absurd ⟨data, write, .inl ⟨type, number⟩⟩ sound.request
    | maxLun type request _ => exact absurd ⟨data, write, .inr ⟨type, request⟩⟩ sound.request
    | lineCoding _ line => exact line

/-! ## What a misdirected request does -/

/-- The endpoint waits for the data of a misdirected GET_CONFIGURATION. -/
structure Misled (d : Control) : Prop where
  state : d.info.controlState = .outData
  copyData : d.info.ctrlInfo.copyData = some .getConfiguration
  left : d.info.ctrlInfo.usbWLength = 1
  size : d.info.ctrlInfo.packetSize ≠ 0

/-- The setup stage does not look at the direction. -/
theorem dataSetup0_misled (m : Around) {packet : Nat → Byte} (asks : Asks packet d) (type : packet 0 = 0x00)
    (request : packet 1 = GET_CONFIGURATION) (size : d.info.ctrlInfo.packetSize ≠ 0) :
    ∃ e, d.dataSetup0 m = some e ∧ Misled e ∧ e.saveR = .valid ∧ e.held = d.held := by
  have recipient : d.info.typeRecipient = STANDARD_REQUEST ||| DEVICE_RECIPIENT := by
    rw [asks.recipient, type]
    rfl
  have routine : d.standardRoutine = some .getConfiguration := by
    rw [standardRoutine, asks.request, request, if_neg (by decide), if_neg fun both => absurd both.1 (by decide), if_pos rfl,
      if_pos recipient]
  have chosen : d.chooseData m = (.success, (d.setCtrlInfo { d.info.ctrlInfo with
      usbWOffset := 0
      copyData := some .getConfiguration }).setWLength 1) := by
    rw [chooseData, routine]
    rfl
  have write : d.info.bmRequestType.getLsbD 7 = false := by
    rw [asks.type, type]
    decide
  unfold dataSetup0
  rw [chosen]
  dsimp only
  generalize begun : (d.setCtrlInfo { d.info.ctrlInfo with
      usbWOffset := 0
      copyData := some .getConfiguration }).setWLength 1 = c
  have left : c.info.ctrlInfo.usbWLength = 1 := begun ▸ rfl
  have write' : c.info.bmRequestType.getLsbD 7 = false := begun ▸ write
  rw [if_neg (by decide), left, if_neg (by decide), if_neg (by decide), write', if_neg (by decide)]
  refine ⟨_, rfl, ⟨rfl, ?_, left, ?_⟩, rfl, ?_⟩
  · rw [← begun]
    rfl
  · rw [← begun]
    exact size
  · rw [← begun]
    rfl

/-- The first two bytes of the packet are stored over the configuration. -/
theorem out0_misled (m : Around) (misled : Misled d) {buffer : Nat → Byte} {pma : Pma}
    (here : d.pma = toPma 32 buffer (ENDP0_RXADDR.toNat / 2) pma) :
    ∃ e, d.out0Process m = some e ∧ e.info.currentConfiguration = buffer 0 ∧ e.info.currentInterface = buffer 1 ∧
      e.saveT = .valid ∧ e.txCount = 0 := by
  have one : (1 : BitVec 16).toNat = 1 := rfl
  have length : (if d.info.ctrlInfo.packetSize > d.info.ctrlInfo.usbWLength then d.info.ctrlInfo.usbWLength
      else d.info.ctrlInfo.packetSize) = 1 := by
    rw [misled.left]
    split
    · rfl
    · next small =>
      apply BitVec.eq_of_toNat_eq
      have : ¬ 1 < d.info.ctrlInfo.packetSize.toNat := small
      have : d.info.ctrlInfo.packetSize.toNat ≠ 0 := fun none => misled.size (BitVec.eq_of_toNat_eq none)
      omega
  have bytes : pmaToUserBufferCopy ENDP0_RXADDR 1 d.pma = [buffer 0, buffer 1] := by
    have first : (d.pma 32) = buffer 1 ++ buffer 0 := by
      rw [here, toPma_eq, if_pos (by decide)]
      rfl
    change [(d.pma 32).extractLsb' 0 8, (d.pma 32).extractLsb' 8 8] = _
    rw [first, append_low, append_high]
  have copied : copyData m .getConfiguration 1 d = (.currentConfiguration, d) := by
    change standardGetConfiguration 1 d = _
    rw [standardGetConfiguration, if_neg (by decide)]
  obtain ⟨f, taken, configuration, interface, left, size⟩ : ∃ f, d.takeData m = some f ∧ f.info.currentConfiguration = buffer 0 ∧
      f.info.currentInterface = buffer 1 ∧ f.info.ctrlInfo.usbWLength = 0 ∧ f.info.ctrlInfo.packetSize ≠ 0 := by
    unfold takeData
    rw [misled.copyData]
    dsimp only
    rw [length, if_neg (by rw [misled.left]; decide), copied]
    dsimp only
    rw [bytes]
    refine ⟨_, rfl, rfl, rfl, ?_, misled.size⟩
    change d.info.ctrlInfo.usbWLength - 1 = 0
    rw [misled.left]
    rfl
  have goesOn : (f.setState .waitStatusIn).send0LengthData.info.controlState ≠ .stalled := fun this => by cases this
  refine ⟨(f.setState .waitStatusIn).send0LengthData, ?_, configuration, interface, rfl, rfl⟩
  rw [out0Process, if_pos (.inl misled.state), dataStageOut, taken, Option.map_some, finishOut_last left size,
    Option.map_some, post0_running goesOn]

end Handlers

end Control

namespace Usb
open Control (Sound)

/-! ## Runs -/

/-- What every run keeps: a read that nothing has set up waits for no IN token. -/
structure Safe (u : Usb) : Prop where
  sound : Sound u.control
  waiting : u.Waiting fun packet => ¬ (requestOf packet).Misdirected
  reads : u.control.info.controlState.isIn → u.control.info.ctrlInfo.copyData ≠ none ∨
    u.ctrTx = false ∧ (u.control.ep 0).tx ≠ .valid

section Step

variable {m : Around} {u : Usb}

/-- **The interrupt** does not fail. -/
theorem interrupt_safe (m : Around) (safe : Safe u) : ∃ v, u.usbIstr m = some v ∧ Sound v.control ∧
    (v.control.info.controlState.isIn → v.control.info.ctrlInfo.copyData ≠ none ∨ v.ctrTx = false ∧ (v.control.ep 0).tx ≠ .valid) := by
  have start : Sound u.control.taken := Control.sound_congr safe.sound Control.held_taken rfl
  -- the handler, before the bus reset
  have handled : ∃ w, (if u.ctrRx ∨ u.ctrTx then u.ctrLp m else some u) = some w ∧ Sound w.control ∧
      (w.control.info.controlState.isIn → w.control.info.ctrlInfo.copyData ≠ none ∨
        w.ctrTx = false ∧ (w.control.ep 0).tx ≠ .valid) := by
    split
    · next waits =>
      unfold ctrLp
      dsimp only
      split
      · next nothing =>
        have sent : u.ctrTx = true := waits.resolve_left (by rw [nothing]; decide)
        have set : u.control.taken.info.controlState.isIn → u.control.taken.info.ctrlInfo.copyData ≠ none := by
          intro inside
          refine (safe.reads inside).resolve_right fun both => ?_
          rw [sent] at both
          cases both.1
        obtain ⟨e, done, sound, reads⟩ := Control.in0_runs m start set
        rw [done]
        exact ⟨_, rfl, Control.sound_congr sound (Control.restored_held e) rfl, fun inside => .inl (reads inside)⟩
      split
      · next received setup =>
        obtain ⟨packet, pma, directed, here⟩ := (safe.waiting (eq_true_of_ne_false received)).2 setup
        obtain ⟨e, done, sound, reads⟩ := Control.setup0_runs m start directed here
        rw [done]
        exact ⟨_, rfl, Control.sound_congr sound (Control.restored_held e) rfl, fun inside => .inl (reads inside)⟩
      · obtain ⟨e, ⟨done, sound, reads⟩, -⟩ := Control.out0_runs m start
        rw [done]
        exact ⟨_, rfl, Control.sound_congr sound (Control.restored_held e) rfl, fun inside => .inl (reads inside)⟩
    · exact ⟨u, rfl, safe.sound, safe.reads⟩
  obtain ⟨w, done, sound, reads⟩ := handled
  unfold usbIstr
  rw [done, Option.map_some]
  split
  · refine ⟨_, rfl, ⟨sound.uartConfig, sound.stringSerial, sound.udiskMaxLun, (by decide : (0 : Byte) ≤ 1), sound.request,
      sound.writes⟩, ?_⟩
    intro inside
    exact (reads inside).imp_right fun both => ⟨both.1, fun this => by cases this⟩
  · exact ⟨_, rfl, sound, reads⟩

/-- **Every event** is taken, and the invariant is kept. -/
theorem step_safe {e : Event} (m : Around) (safe : Safe u) (sends : Sends (fun packet => ¬ (requestOf packet).Misdirected) e) :
    ∃ v, u.step m e = some v ∧ Safe v := by
  suffices go : ∃ v, u.step m e = some v ∧ Sound v.control ∧ (v.control.info.controlState.isIn →
      v.control.info.ctrlInfo.copyData ≠ none ∨ v.ctrTx = false ∧ (v.control.ep 0).tx ≠ .valid) by
    obtain ⟨v, done, sound, reads⟩ := go
    exact ⟨v, done, sound, step_waiting safe.waiting sends done, reads⟩
  cases e with
  | setupToken packet =>
    refine ⟨_, rfl, ?_⟩
    split
    · refine ⟨Control.sound_congr safe.sound (Control.held_setEp ⟨.nak, .nak⟩ u.control) rfl, fun inside => ?_⟩
      refine (safe.reads inside).imp_right fun both => ⟨both.1, ?_⟩
      change ((u.control.setEp 0 ⟨.nak, .nak⟩).ep 0).tx ≠ .valid
      rw [Control.setEp_same]
      decide
    · exact ⟨safe.sound, safe.reads⟩
  | inToken =>
    refine ⟨_, rfl, ?_⟩
    split
    · next valid =>
      refine ⟨Control.sound_congr safe.sound (Control.held_setEp ⟨(u.control.ep 0).rx, .nak⟩ u.control) rfl, fun inside => ?_⟩
      exact .inl ((safe.reads inside).resolve_right fun both => both.2 valid)
    · exact ⟨safe.sound, safe.reads⟩
  | outToken buffer =>
    refine ⟨_, rfl, ?_⟩
    split
    · refine ⟨Control.sound_congr safe.sound (Control.held_setEp ⟨.nak, (u.control.ep 0).tx⟩ u.control) rfl, fun inside => ?_⟩
      refine (safe.reads inside).imp_right fun both => ⟨both.1, ?_⟩
      change ((u.control.setEp 0 ⟨.nak, (u.control.ep 0).tx⟩).ep 0).tx ≠ .valid
      rw [Control.setEp_same]
      exact both.2
    · exact ⟨safe.sound, safe.reads⟩
  | interrupt => exact interrupt_safe m safe
  | busReset =>
    refine ⟨_, rfl, ⟨safe.sound.uartConfig, safe.sound.stringSerial, safe.sound.udiskMaxLun, safe.sound.configuration,
      safe.sound.request, safe.sound.writes⟩, fun inside => ?_⟩
    exact (safe.reads inside).imp_right fun both => ⟨both.1, fun this => by cases this⟩

end Step

theorem init_safe (pma : Pma) : Safe (init pma) where
  sound := ⟨List.length_replicate, rfl, rfl, (by decide : (0 : Byte) ≤ 1), fun this => this.1 rfl,
    fun this => absurd this (show ¬ ControlState.inData.isOut by decide)⟩
  waiting := fun received => by cases received
  reads _ := .inr ⟨rfl, fun this => by cases this⟩

/-- **Every run is safe** in which the host does not write what can only be read: whatever
tokens, packets, bus resets and interrupts come in whatever order, the code does not call a
null `CopyData`, the configuration is one the device has, the line coding has its eight bytes,
and the serial number and the number of disks are as they were made. A write that goes on is
one of the line coding, and an OUT packet that is taken next changes nothing else. -/
theorem run_sound {m : Around} {pma : Pma} {es : List Event}
    (directed : ∀ packet, .setupToken packet ∈ es → ¬ (requestOf packet).Misdirected) :
    ∃ u, (init pma).run m es = some u ∧ u.control.info.currentConfiguration ≤ TOTAL_CONFIGURATION ∧
      u.control.uartConfig.length = 8 ∧ u.control.stringSerial = USBD_StringSerial ∧ u.control.udiskMaxLun = 0 ∧
      (u.control.info.controlState.isOut → Control.Line u.control.info.ctrlInfo) ∧
      ∃ d, u.control.taken.out0Process m = some d ∧
        { d.held with uartConfig := u.control.uartConfig } = u.control.held := by
  obtain ⟨u, go, safe⟩ := Run.run_total Safe (Sends fun packet => ¬ (requestOf packet).Misdirected)
    (fun u e safe sends => step_safe m safe sends) (fun e mem packet here => directed packet (here ▸ mem)) (init_safe pma)
  obtain ⟨d, ⟨taken, -, -⟩, stored⟩ := Control.out0_runs m (Control.sound_congr safe.sound Control.held_taken (Control.taken_info _))
  rw [Control.held_taken] at stored
  exact ⟨u, go, safe.sound.configuration, safe.sound.uartConfig, safe.sound.stringSerial, safe.sound.udiskMaxLun,
    safe.sound.writes, d, taken, stored⟩

/-- The host assigns an address: nothing of that is misdirected. -/
theorem run_sound_five :
    ∃ u, (init fun _ => 0).run Around.empty assignFive = some u ∧ u.control.info.currentConfiguration ≤ TOTAL_CONFIGURATION ∧
      u.control.uartConfig.length = 8 ∧ u.control.stringSerial = USBD_StringSerial ∧ u.control.udiskMaxLun = 0 ∧
      (u.control.info.controlState.isOut → Control.Line u.control.info.ctrlInfo) ∧
      ∃ d, u.control.taken.out0Process Around.empty = some d ∧
        { d.held with uartConfig := u.control.uartConfig } = u.control.held := by
  apply run_sound
  intro packet mem misdirected
  simp only [assignFive, List.mem_cons, List.not_mem_nil, or_false, reduceCtorEq, false_or, Event.setupToken.injEq] at mem
  subst mem
  exact misdirected.1 rfl

/-! ## What a misdirected request does -/

section Misdirected

variable {m : Around} {packet buffer : Nat → Byte} {u : Usb}

/-- **A misdirected GET_CONFIGURATION** sets the configuration and the interface to whatever
two bytes the host sends, and answers with success. -/
theorem misdirected_configuration (rest : u.Resting) (size : u.control.info.ctrlInfo.packetSize ≠ 0) (type : packet 0 = 0x00)
    (request : packet 1 = GET_CONFIGURATION) (wanted : packetLength packet ≠ 0) :
    ∃ v, u.run m [.setupToken packet, .interrupt, .outToken buffer, .interrupt] = some v ∧
      v.control.info.currentConfiguration = buffer 0 ∧ v.control.info.currentInterface = buffer 1 ∧ v.sends = some [] := by
  obtain ⟨d, go, held, ep, info, here, -⟩ := setup_taken m packet rest
  have ready' : d.info.controlState ≠ .pause := info ▸ rest.ready
  have asks : Control.Asks packet d.seen := by
    rw [Control.seen, if_pos ready']
    exact Control.asks_held (Control.readSetup_held _ here)
  have size' : d.seen.info.ctrlInfo.packetSize ≠ 0 := by
    rw [Control.seen, if_pos ready']
    change d.info.ctrlInfo.packetSize ≠ 0
    rw [info]
    exact size
  obtain ⟨e, done, misled, saveR, -⟩ := Control.dataSetup0_misled m asks type request size'
  have goesOn : e.info.controlState ≠ .stalled := by
    rw [misled.state]
    decide
  rw [Control.setup0_seen, if_neg (asks.wLength ▸ wanted), done, Option.map_some, Option.map_some, Control.post0_running goesOn] at go
  -- the data stage
  have valid : (e.restored.ep 0).rx = .valid := by
    rw [Control.restored, Control.setEp_same]
    exact saveR
  obtain ⟨c, data, -, info', pma⟩ := out_taken (u := { u with control := e.restored, ctrRx := false, setup := true })
    ⟨rfl, rest.ctrTx, rest.reset⟩ valid m buffer
  have waits : Control.Misled c := by
    have same : c.info = e.info := info'
    exact ⟨same ▸ misled.state, same ▸ misled.copyData, same ▸ misled.left, same ▸ misled.size⟩
  obtain ⟨f, stored, configuration, interface, saveT, count⟩ := Control.out0_misled m waits pma
  rw [stored, Option.map_some] at data
  refine ⟨_, (Run.run_append go).trans data, configuration, interface, ?_⟩
  rw [sends, if_pos]
  · change some (f.pma.bytes ENDP0_TXADDR.toNat f.txCount.toNat) = some []
    rw [count]
    rfl
  · change ((f.restored).ep 0).tx = .valid
    rw [Control.restored, Control.setEp_same]
    exact saveT


/-- After a bus reset the host reads the device descriptor. -/
def readDevice : List Event :=
  [.busReset, .interrupt, .setupToken fun i => [0x80, GET_DESCRIPTOR, 0, DEVICE_DESCRIPTOR, 0, 0, 18, 0].getD i 0, .interrupt,
    .inToken, .interrupt, .outToken fun _ => 0, .interrupt]

/-- Then it sets the configuration to 7. -/
theorem misdirected_configuration_seven :
    ∃ u v, (init fun _ => 0).run Around.empty readDevice = some u ∧
      u.run Around.empty [.setupToken fun i => [0x00, GET_CONFIGURATION, 0, 0, 0, 0, 1, 0].getD i 0, .interrupt,
        .outToken fun _ => 7, .interrupt] = some v ∧ v.control.info.currentConfiguration = 7 ∧
      v.control.info.currentInterface = 7 ∧ v.sends = some [] := by
  obtain ⟨u, go, tx, reset, rx, state, size⟩ : ∃ u, (init fun _ => 0).run Around.empty readDevice = some u ∧ u.ctrTx = false ∧
      u.reset = false ∧ (u.control.ep 0).rx = .stall ∧ u.control.info.controlState = .stalled ∧
      u.control.info.ctrlInfo.packetSize = 64 := ⟨_, rfl, rfl, rfl, rfl, rfl, rfl⟩
  obtain ⟨v, misled⟩ := @misdirected_configuration Around.empty (fun i => [0x00, GET_CONFIGURATION, 0, 0, 0, 0, 1, 0].getD i 0)
    (fun _ => 7) u ⟨tx, reset, by rw [rx]; decide, by rw [state]; decide⟩ (by rw [size]; decide) rfl rfl (by decide)
  exact ⟨u, v, go, misled⟩

end Misdirected

end Usb

end OffLineProgrammer.UsbCore
