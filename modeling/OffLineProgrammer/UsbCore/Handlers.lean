import OffLineProgrammer.UsbCore.Reads

/-!
# What each handler can do

One lemma for each function of the control endpoint, for all that a run may do between
two interrupts: what it leaves as it was, and which states it leads to.
-/

namespace OffLineProgrammer.UsbCore
set_option autoImplicit false
open OffLineProgrammer.Lib

/-- A setup packet as the code keeps it. -/
structure Request where
  bmRequestType : Byte
  bRequest : Byte
  wValue : BitVec 16
  wIndex : BitVec 16
  wLength : BitVec 16

/-- The request of a setup packet. -/
def requestOf (packet : Nat → Byte) : Request where
  bmRequestType := packet 0
  bRequest := packet 1
  wValue := packet 2 ++ packet 3
  wIndex := packet 4 ++ packet 5
  wLength := Usb.packetLength packet

namespace ControlState

/-- The data stage of a read. -/
def isIn (s : ControlState) : Prop := s = .inData ∨ s = .lastInData

instance decidableIsIn (s : ControlState) : Decidable s.isIn := inferInstanceAs (Decidable (s = .inData ∨ s = .lastInData))

/-- The data stage of a write. -/
def isOut (s : ControlState) : Prop := s = .outData ∨ s = .lastOutData

instance decidableIsOut (s : ControlState) : Decidable s.isOut := inferInstanceAs (Decidable (s = .outData ∨ s = .lastOutData))

end ControlState

namespace Control

/-- The request the code looks at. -/
def request (d : Control) : Request where
  bmRequestType := d.info.bmRequestType
  bRequest := d.info.bRequest
  wValue := d.info.wValue
  wIndex := d.info.wIndex
  wLength := d.info.wLength

/-- What no handler of the data stages changes. -/
structure Kept (d e : Control) : Prop where
  request : e.request = d.request
  daddr : e.daddr = d.daddr

theorem kept_held {d e : Control} (same : e.held = d.held) : Kept d e where
  request := by
    simp only [request, Request.mk.injEq]
    exact ⟨congrArg Held.bmRequestType same, congrArg Held.bRequest same, congrArg Held.wValue same,
      congrArg Held.wIndex same, congrArg Held.wLength same⟩
  daddr := congrArg Held.daddr same

theorem Kept.trans {d e f : Control} (first : Kept d e) (second : Kept e f) : Kept d f :=
  ⟨second.request.trans first.request, second.daddr.trans first.daddr⟩

section Handlers

variable {m : Around} {d e : Control}

/-! ## `CopyData` -/

/-- What `CopyData` is and where the request stands. -/
structure Routine (d e : Control) : Prop where
  held : e.held = d.held
  copyData : e.info.ctrlInfo.copyData = d.info.ctrlInfo.copyData
  state : e.info.controlState = d.info.controlState

theorem routine_refl (d : Control) : Routine d d := ⟨rfl, rfl, rfl⟩

theorem standardGetDescriptorData_routine (length : BitVec 16) (t : Descriptor) :
    Routine d (standardGetDescriptorData m length t d).2 := by
  unfold standardGetDescriptorData
  dsimp only
  split
  · exact ⟨rfl, rfl, rfl⟩
  · exact routine_refl d

theorem copyData_routine (r : CopyRoutine) (length : BitVec 16) : Routine d (copyData m r length d).2 := by
  cases r with
  | getDeviceDescriptor => exact standardGetDescriptorData_routine length .device
  | getConfigDescriptor => exact standardGetDescriptorData_routine length .config
  | getStringDescriptor =>
    change Routine d (usbdGetStringDescriptor m length d).2
    unfold usbdGetStringDescriptor
    dsimp only
    split
    · exact routine_refl d
    split
    · exact standardGetDescriptorData_routine length .langId
    split
    · exact standardGetDescriptorData_routine length .vendor
    split
    · exact standardGetDescriptorData_routine length .product
    split
    · exact standardGetDescriptorData_routine length .serial
    · exact standardGetDescriptorData_routine length .stray
  | getStatus =>
    change Routine d (standardGetStatus length d).2
    unfold standardGetStatus
    dsimp only
    repeat' split
    all_goals exact ⟨rfl, rfl, rfl⟩
  | getConfiguration =>
    change Routine d (standardGetConfiguration length d).2
    unfold standardGetConfiguration
    split <;> exact ⟨rfl, rfl, rfl⟩
  | getInterface =>
    change Routine d (standardGetInterface length d).2
    unfold standardGetInterface
    split <;> exact ⟨rfl, rfl, rfl⟩
  | getLineCoding =>
    change Routine d (usbCdcLineCoding length d).2
    unfold usbCdcLineCoding
    split <;> exact ⟨rfl, rfl, rfl⟩
  | setLineCoding =>
    change Routine d (usbCdcLineCoding length d).2
    unfold usbCdcLineCoding
    split <;> exact ⟨rfl, rfl, rfl⟩
  | getMaxLun =>
    change Routine d (usbdUDiskGetMaxLun d).2
    unfold usbdUDiskGetMaxLun
    split <;> exact routine_refl d

/-! ## Reads -/

/-- What `DataStageIn` leaves. -/
structure AfterIn (d e : Control) : Prop where
  held : e.held = d.held
  copyData : e.info.ctrlInfo.copyData = d.info.ctrlInfo.copyData
  state : e.info.controlState.isIn ∨ e.info.controlState = .waitStatusOut

theorem AfterIn.status (after : AfterIn d e) : e.info.controlState ≠ .waitStatusIn := by
  rcases after.state with (here | here) | here <;> rw [here] <;> decide

theorem AfterIn.notOut (after : AfterIn d e) : ¬ e.info.controlState.isOut := by
  rcases after.state with (here | here) | here <;> rw [here] <;> decide

theorem dataStageIn_after (done : d.dataStageIn m = some e) : AfterIn d e := by
  unfold dataStageIn at done
  dsimp only at done
  split at done
  · split at done
    · cases done
      exact ⟨rfl, rfl, .inl (.inr rfl)⟩
    · cases done
      exact ⟨rfl, rfl, .inr rfl⟩
  · obtain ⟨r, -, here⟩ := Option.map_eq_some_iff.mp done
    subst here
    have routine := copyData_routine (m := m) (d := d) r
      (if d.info.ctrlInfo.packetSize > d.info.ctrlInfo.usbWLength then d.info.ctrlInfo.usbWLength else d.info.ctrlInfo.packetSize)
    refine ⟨routine.held, routine.copyData, .inl ?_⟩
    change (if _ then ControlState.lastInData else .inData).isIn
    split
    · exact .inr rfl
    · exact .inl rfl

/-- `DataStageIn` fails only when nothing has set `CopyData`. -/
theorem dataStageIn_some (set : d.info.ctrlInfo.copyData ≠ none) : ∃ e, d.dataStageIn m = some e := by
  obtain ⟨r, here⟩ := Option.ne_none_iff_exists'.mp set
  unfold dataStageIn
  dsimp only
  rw [here]
  split
  · split <;> exact ⟨_, rfl⟩
  · exact ⟨_, rfl⟩

/-! ## The setup stage -/

/-- The numbers of the standard requests for data. -/
def standardData (bRequest : Byte) : Prop :=
  bRequest = GET_DESCRIPTOR ∨ bRequest = GET_STATUS ∨ bRequest = GET_CONFIGURATION ∨ bRequest = GET_INTERFACE

theorem standardRoutine_standard {r : CopyRoutine} (routine : d.standardRoutine = some r) :
    standardData d.info.bRequest ∧ d.info.typeRecipient ≤ 2 := by
  unfold standardRoutine at routine
  dsimp only at routine
  split at routine
  · next request =>
    refine ⟨.inl request, ?_⟩
    split at routine
    · next recipient =>
      rw [recipient]
      decide
    · cases routine
  split at routine
  · next status =>
    refine ⟨.inr (.inl status.1), ?_⟩
    split at routine
    · next device =>
      rw [device.1]
      decide
    split at routine
    · next recipient =>
      rw [recipient]
      decide
    split at routine
    · next recipient =>
      rw [recipient]
      decide
    · cases routine
  split at routine
  · next request =>
    refine ⟨.inr (.inr (.inl request)), ?_⟩
    split at routine
    · next recipient =>
      rw [recipient]
      decide
    · cases routine
  split at routine
  · next request =>
    refine ⟨.inr (.inr (.inr request)), ?_⟩
    split at routine
    · next interface =>
      rw [interface.1]
      decide
    · cases routine
  · cases routine

/-- `CopyData` has been set for the line coding. -/
structure Line (c : EndpointInfo) : Prop where
  copyData : c.copyData = some .getLineCoding ∨ c.copyData = some .setLineCoding
  left : c.usbWLength.toNat ≤ 7

/-- What is found for the request. -/
inductive Chosen (d : Control) (c : EndpointInfo) : Result → Prop where
  | standard (number : standardData d.info.bRequest) (type : d.info.typeRecipient ≤ 2) (set : c.copyData ≠ none) : Chosen d c .success
  | maxLun (type : d.info.typeRecipient = 0x21) (request : d.info.bRequest = 0xFE) (set : c.copyData ≠ none) : Chosen d c .success
  | lineCoding (type : d.info.typeRecipient = 0x21) (line : Line c) : Chosen d c .success
  | unsupported : Chosen d c .unsupport

theorem chooseData_chosen (m : Around) (d : Control) :
    Chosen d (d.chooseData m).2.info.ctrlInfo (d.chooseData m).1 ∧ (d.chooseData m).2.held = d.held := by
  unfold chooseData
  split
  · next r routine =>
    have rest := copyData_routine (m := m) (d := d.setCtrlInfo { d.info.ctrlInfo with usbWOffset := 0, copyData := some r }) r 0
    obtain ⟨number, type⟩ := standardRoutine_standard routine
    refine ⟨.standard number type ?_, rest.held⟩
    rw [rest.copyData]
    exact Option.some_ne_none r
  · unfold usbdDataSetup
    split
    · next recipient =>
      split
      · next request => exact ⟨.maxLun recipient request (Option.some_ne_none _), rfl⟩
      split
      · exact ⟨.lineCoding recipient ⟨.inl rfl, Nat.le_refl 7⟩, rfl⟩
      split
      · exact ⟨.lineCoding recipient ⟨.inr rfl, Nat.le_refl 7⟩, rfl⟩
      · exact ⟨.unsupported, rfl⟩
    · exact ⟨.unsupported, rfl⟩

theorem chosen_set {c : EndpointInfo} (chosen : Chosen d c .success) : c.copyData ≠ none := by
  cases chosen with
  | standard number type set => exact set
  | maxLun type request set => exact set
  | lineCoding type line =>
    rcases line.copyData with here | here
    · rw [here]
      exact Option.some_ne_none _
    · rw [here]
      exact Option.some_ne_none _

/-- What `Data_Setup0` leaves. -/
structure AfterData (m : Around) (d e : Control) : Prop where
  held : e.held = d.held
  status : e.info.controlState ≠ .waitStatusIn
  reads : e.info.controlState.isIn → e.info.ctrlInfo.copyData ≠ none
  writes : e.info.controlState.isOut → d.info.bmRequestType.getLsbD 7 = false ∧ Chosen d e.info.ctrlInfo .success

theorem limitLength_kept (d : Control) : d.limitLength.held = d.held ∧ d.limitLength.info.ctrlInfo.copyData = d.info.ctrlInfo.copyData := by
  unfold limitLength
  dsimp only
  repeat' split
  all_goals exact ⟨rfl, rfl⟩

theorem dataSetup0_after (done : d.dataSetup0 m = some e) : AfterData m d e := by
  obtain ⟨chosen, held⟩ := chooseData_chosen m d
  unfold dataSetup0 at done
  dsimp only at done
  generalize (d.chooseData m).2 = c at chosen held done
  generalize (d.chooseData m).1 = result at chosen done
  -- the ends before the data stage
  have ends {s : ControlState} (notIn : ¬ s.isIn) (notOut : ¬ s.isOut) (other : s ≠ .waitStatusIn) : AfterData m d (c.setState s) :=
    ⟨held, other, fun reads => absurd reads notIn, fun writes => absurd writes notOut⟩
  split at done
  · cases done
    exact ends (by decide) (by decide) (by decide)
  split at done
  · cases done
    exact ends (by decide) (by decide) (by decide)
  split at done
  · cases done
    exact ends (by decide) (by decide) (by decide)
  · next supported =>
    have success : result = .success := by
      cases chosen with
      | unsupported => exact absurd (.inl rfl) supported
      | _ => rfl
    subst success
    split at done
    · have after := dataStageIn_after done
      have kept := limitLength_kept c
      refine ⟨after.held.trans (kept.1.trans held), after.status, fun _ => ?_, fun writes => absurd writes after.notOut⟩
      rw [after.copyData]
      change c.limitLength.info.ctrlInfo.copyData ≠ none
      rw [kept.2]
      exact chosen_set chosen
    · next write =>
      cases done
      have same : c.info.bmRequestType = d.info.bmRequestType := congrArg Held.bmRequestType held
      refine ⟨held, ?_, fun _ => chosen_set chosen, fun _ => ⟨?_, ?_⟩⟩
      · intro this
        cases this
      · rw [← same]
        exact Bool.eq_false_iff.mpr write
      · exact chosen

/-- `Data_Setup0` does not fail: whatever it starts has set `CopyData`. -/
theorem dataSetup0_some (m : Around) (d : Control) : ∃ e, d.dataSetup0 m = some e := by
  obtain ⟨chosen, -⟩ := chooseData_chosen m d
  unfold dataSetup0
  dsimp only
  generalize (d.chooseData m).2 = c at chosen
  generalize (d.chooseData m).1 = result at chosen
  split
  · exact ⟨_, rfl⟩
  split
  · exact ⟨_, rfl⟩
  split
  · exact ⟨_, rfl⟩
  · next supported =>
    split
    · have set : c.info.ctrlInfo.copyData ≠ none := by
        cases chosen with
        | unsupported => exact absurd (.inl rfl) supported
        | standard number type set => exact set
        | maxLun type request set => exact set
        | lineCoding type line => exact chosen_set (d := d) (.lineCoding type line)
      apply dataStageIn_some
      change c.limitLength.info.ctrlInfo.copyData ≠ none
      rw [(limitLength_kept c).2]
      exact set
    · exact ⟨_, rfl⟩

/-- What `NoData_Setup0` leaves. -/
structure AfterNoData (d e : Control) : Prop where
  kept : Kept d e
  uartConfig : e.uartConfig = d.uartConfig
  stringSerial : e.stringSerial = d.stringSerial
  udiskMaxLun : e.udiskMaxLun = d.udiskMaxLun
  configuration : e.info.currentConfiguration = d.info.currentConfiguration ∨ e.info.currentConfiguration ≤ TOTAL_CONFIGURATION

/-- What a request without data changes of the device. -/
theorem noData_refl (d : Control) : AfterNoData d d := ⟨⟨rfl, rfl⟩, rfl, rfl, rfl, .inl rfl⟩

theorem standardSetConfiguration_after (d : Control) : AfterNoData d d.standardSetConfiguration.2 := by
  unfold standardSetConfiguration
  split
  · next valid =>
    dsimp only
    split <;> exact ⟨⟨rfl, rfl⟩, rfl, rfl, rfl, .inr valid.1⟩
  · exact noData_refl d

theorem standardSetInterface_after (d : Control) : AfterNoData d d.standardSetInterface.2 := by
  unfold standardSetInterface
  dsimp only
  repeat' split
  all_goals exact ⟨⟨rfl, rfl⟩, rfl, rfl, rfl, .inl rfl⟩

theorem standardClearFeature_after (d : Control) : AfterNoData d d.standardClearFeature.2 := by
  unfold standardClearFeature
  dsimp only
  repeat' split
  all_goals exact ⟨⟨rfl, rfl⟩, rfl, rfl, rfl, .inl rfl⟩

theorem standardSetEndPointFeature_after (d : Control) : AfterNoData d d.standardSetEndPointFeature.2 := by
  unfold standardSetEndPointFeature
  dsimp only
  repeat' split
  all_goals exact ⟨⟨rfl, rfl⟩, rfl, rfl, rfl, .inl rfl⟩

theorem standardNoData_after (d : Control) : AfterNoData d d.standardNoData.2 := by
  unfold standardNoData
  dsimp only
  split
  · split
    · exact standardSetConfiguration_after d
    split
    · exact noData_refl d
    split
    · split
      · exact ⟨⟨rfl, rfl⟩, rfl, rfl, rfl, .inl rfl⟩
      · exact noData_refl d
    split
    · split
      · exact standardClearFeature_after d
      · exact noData_refl d
    · exact noData_refl d
  split
  · split
    · exact standardSetInterface_after d
    · exact noData_refl d
  split
  · split
    · exact standardClearFeature_after d
    split
    · exact standardSetEndPointFeature_after d
    · exact noData_refl d
  · exact noData_refl d

theorem noDataSetup0_after (d : Control) : AfterNoData d d.noDataSetup0 ∧
    (d.noDataSetup0.info.controlState = .pause ∨ d.noDataSetup0.info.controlState = .stalled ∨
      d.noDataSetup0.info.controlState = .waitStatusIn ∧ d.refusesAddress = false) := by
  obtain ⟨⟨request, daddr⟩, uart, serial, lun, configuration⟩ := standardNoData_after d
  unfold noDataSetup0
  split
  · exact ⟨⟨⟨rfl, rfl⟩, rfl, rfl, rfl, .inl rfl⟩, .inr (.inl rfl)⟩
  · next accepted =>
    dsimp only
    generalize (if d.standardNoData.1 ≠ .success then d.standardNoData.2.usbdNoDataSetup else d.standardNoData.1) = result
    split
    · exact ⟨⟨⟨request, daddr⟩, uart, serial, lun, configuration⟩, .inl rfl⟩
    split
    · exact ⟨⟨⟨request, daddr⟩, uart, serial, lun, configuration⟩, .inr (.inl rfl)⟩
    · exact ⟨⟨⟨request, daddr⟩, uart, serial, lun, configuration⟩, .inr (.inr ⟨rfl, Bool.eq_false_iff.mpr accepted⟩)⟩

/-! ## Writes -/

theorem write_kept {p : Pointer} {bs : List Byte} (done : d.write p bs = some e) : Kept d e := by
  unfold write at done
  split at done
  · cases done
    exact ⟨rfl, rfl⟩
  cases p with
  | descriptor t offset =>
    cases t with
    | serial =>
      obtain ⟨new, -, here⟩ := Option.map_eq_some_iff.mp done
      subst here
      exact ⟨rfl, rfl⟩
    | _ => cases done
  | uartConfig =>
    obtain ⟨new, -, here⟩ := Option.map_eq_some_iff.mp done
    subst here
    exact ⟨rfl, rfl⟩
  | statusInfo =>
    dsimp only at done
    split at done
    · cases done
      exact ⟨rfl, rfl⟩
    · cases done
  | currentConfiguration =>
    dsimp only at done
    split at done
    · cases done
      exact ⟨rfl, rfl⟩
    · cases done
  | currentAlternateSetting =>
    dsimp only at done
    split at done
    · cases done
      exact ⟨rfl, rfl⟩
    · cases done
  | _ => cases done

/-- What `finishOut` leaves alone, and the states it leads to. -/
theorem finishOut_after (d : Control) : d.finishOut.held = d.held ∧ d.finishOut.info.ctrlInfo = d.info.ctrlInfo ∧
    ¬ d.finishOut.info.controlState.isIn := by
  unfold finishOut
  dsimp only
  repeat' split
  all_goals exact ⟨rfl, rfl, by simp [ControlState.isIn, setState, send0LengthData]⟩

/-- With nothing left the status stage comes. -/
theorem finishOut_last (left : d.info.ctrlInfo.usbWLength = 0) (size : d.info.ctrlInfo.packetSize ≠ 0) :
    d.finishOut = (d.setState .waitStatusIn).send0LengthData := by
  have same : (if d.info.ctrlInfo.usbWLength ≠ 0 then { d with saveR := .valid, txCount := 0, saveT := .valid } else d) = d :=
    if_neg (not_not.mpr left)
  have whole : ¬ d.info.ctrlInfo.packetSize ≤ d.info.ctrlInfo.usbWLength := by
    rw [left]
    intro none
    have : d.info.ctrlInfo.packetSize.toNat ≤ 0 := none
    exact size (BitVec.eq_of_toNat_eq (Nat.le_zero.mp this))
  have none : ¬ d.info.ctrlInfo.usbWLength > 0 := by
    rw [left]
    decide
  unfold finishOut
  rw [same]
  dsimp only
  rw [if_neg whole, if_neg none]

theorem takeData_kept (done : d.takeData m = some e) : Kept d e := by
  unfold takeData at done
  split at done
  · cases done
    exact ⟨rfl, rfl⟩
  · next r _ =>
    dsimp only at done
    split at done
    · cases done
      exact ⟨rfl, rfl⟩
    · have wrote := write_kept done
      have routine := kept_held (copyData_routine (m := m) (d := d) r (if d.info.ctrlInfo.packetSize > d.info.ctrlInfo.usbWLength then
        d.info.ctrlInfo.usbWLength else d.info.ctrlInfo.packetSize)).held
      exact ⟨wrote.request.trans routine.request, wrote.daddr.trans routine.daddr⟩

/-- What `DataStageOut` leaves. -/
theorem dataStageOut_after (done : d.dataStageOut m = some e) : Kept d e ∧ ¬ e.info.controlState.isIn := by
  obtain ⟨f, taken, here⟩ := Option.map_eq_some_iff.mp done
  subst here
  obtain ⟨held, -, notIn⟩ := finishOut_after f
  exact ⟨(takeData_kept taken).trans (kept_held held), notIn⟩

/-! ## Around the handlers -/

@[simp] theorem post0_held (d : Control) : d.post0Process.held = d.held := by
  unfold post0Process
  split <;> rfl

@[simp] theorem post0_info (d : Control) : d.post0Process.info = d.info := by
  unfold post0Process
  split <;> rfl

@[simp] theorem restored_held (d : Control) : d.restored.held = d.held := held_setEp _ d

@[simp] theorem restored_info (d : Control) : d.restored.info = d.info := rfl

theorem taken_info (d : Control) : d.taken.info = d.info := rfl

end Handlers

end Control

end OffLineProgrammer.UsbCore
