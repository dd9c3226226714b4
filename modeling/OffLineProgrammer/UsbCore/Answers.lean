import OffLineProgrammer.UsbCore.ControlRead

/-!
# What a read is answered with

`answer` says what each request for data is about. Every request it knows is accepted
(`answer_opens`), and every other read is not (`unknown_stalls`).
-/

namespace OffLineProgrammer.UsbCore
set_option autoImplicit false
open OffLineProgrammer.Lib

namespace Control

/-! ## What is asked for -/

/-- The descriptor of a type with an index. -/
def descriptorOf (type index : Byte) : Option Descriptor :=
  if type = DEVICE_DESCRIPTOR then some .device
  else if type = CONFIG_DESCRIPTOR then some .config
  else if type = STRING_DESCRIPTOR then
    if index = 0 then some .langId
    else if index = 1 then some .vendor
    else if index = 2 then some .product
    else if index = 3 then some .serial
    else if index = 4 then some .stray
    else none
  else none

/-- The first `n` bytes at a pointer. -/
def contents (m : Around) (d : Control) (p : Pointer) (n : Nat) : List Byte := Mem.read (d.read m p) 0 n

/-- The status of an endpoint; that of endpoint 0 is NAK while a request is looked at. -/
def statusOf (d : Control) (wIndex0 : Byte) : Stat :=
  let n := (wIndex0 &&& 0x0F).toNat
  let e := if n = 0 then ⟨.nak, .nak⟩ else d.ep n
  if wIndex0.getLsbD 7 then e.tx else e.rx

/-- What a request for data is about. -/
def answer (m : Around) (d : Control) (packet : Nat → Byte) : Option (List Byte) :=
  if packet 0 = 0x80 ∧ packet 1 = GET_DESCRIPTOR then
    (descriptorOf (packet 3) (packet 2)).map fun t => d.contents m (.descriptor t 0) (descriptorSize m t).toNat
  else if packet 0 = 0x80 ∧ packet 1 = GET_CONFIGURATION then some [d.info.currentConfiguration]
  else if packet 0 = 0x81 ∧ packet 1 = GET_INTERFACE ∧ packet 2 = 0 ∧ packet 3 = 0 ∧ packet 4 ≤ 1 ∧ packet 5 = 0 ∧
      Usb.packetLength packet = 1 ∧ d.info.currentConfiguration ≠ 0 then some [d.info.currentAlternateSetting]
  else if packet 0 = 0x80 ∧ packet 1 = GET_STATUS ∧ packet 2 = 0 ∧ packet 3 = 0 ∧ packet 4 = 0 ∧ packet 5 = 0 ∧
      Usb.packetLength packet = 2 then
    some [(if d.info.currentFeature.getLsbD 5 then 2 else 0) ||| (if d.info.currentFeature.getLsbD 6 then 1 else 0), 0]
  else if packet 0 = 0x81 ∧ packet 1 = GET_STATUS ∧ packet 2 = 0 ∧ packet 3 = 0 ∧ packet 4 ≤ 1 ∧ packet 5 = 0 ∧
      Usb.packetLength packet = 2 ∧ d.info.currentConfiguration ≠ 0 then some [0, 0]
  else if packet 0 = 0x82 ∧ packet 1 = GET_STATUS ∧ packet 2 = 0 ∧ packet 3 = 0 ∧ packet 4 &&& 0x70 = 0 ∧ packet 5 = 0 ∧
      Usb.packetLength packet = 2 ∧ (packet 4 &&& 0x0F).toNat < EP_NUM ∧ d.statusOf (packet 4) ≠ .dis then
    some [if d.statusOf (packet 4) = .stall then 1 else 0, 0]
  else if packet 0 = 0xA1 ∧ (packet 1 = CDC_GET_LINE_CODING ∨ packet 1 = CDC_SET_LINE_CODING) then
    some (d.contents m .uartConfig 7)
  else if packet 0 = 0xA1 ∧ packet 1 = 0xFE then some [if 1 < packet 4 then m.zero 0 else d.udiskMaxLun]
  else none

/-! ## The request in the packet memory -/

section Request

variable {m : Around} {packet : Nat → Byte} {d : Control}

theorem byteSwap_append (b₁ b₀ : Byte) : byteSwap (b₁ ++ b₀) = b₀ ++ b₁ := by
  apply BitVec.eq_of_getLsbD_eq
  intro i low
  rw [byteSwap, append_low, BitVec.getLsbD_or, BitVec.getLsbD_ushiftRight, BitVec.getLsbD_shiftLeft, BitVec.getLsbD_setWidth,
    BitVec.getLsbD_append, BitVec.getLsbD_append]
  by_cases half : i < 8
  · simp [half, low]
  · have above : b₁.getLsbD i = false := BitVec.getLsbD_of_ge b₁ i (by omega)
    have inside : i - 8 < 16 := by omega
    simp [half, low, above, inside]

/-- The request, as the host has written it. -/
def asked (packet : Nat → Byte) (h : Held) : Held :=
  { h with
    bmRequestType := packet 0
    bRequest := packet 1
    wValue := packet 2 ++ packet 3
    wIndex := packet 4 ++ packet 5
    wLength := Usb.packetLength packet }

theorem readSetup_held (pma : Pma) (here : d.pma = toPma 4 packet (ENDP0_RXADDR.toNat / 2) pma) :
    d.readSetup.held = asked packet d.held := by
  have halfword : ∀ k < 4, d.pma (32 + k) = packet (2 * k + 1) ++ packet (2 * k) := by
    intro k less
    rw [here, toPma_eq, if_pos ⟨Nat.le_add_right 32 k, show 32 + k < 32 + 4 by omega⟩]
    simp
  have h₀ := halfword 0 (by decide)
  have h₁ := halfword 1 (by decide)
  have h₂ := halfword 2 (by decide)
  have h₃ := halfword 3 (by decide)
  have at_ : ENDP0_RXADDR.toNat / 2 = 32 := rfl
  simp only [readSetup, held, asked, at_]
  simp only [Nat.add_zero] at h₀
  rw [h₀, h₁, h₂, h₃, append_low, append_high, byteSwap_append, byteSwap_append]
  rfl

/-- The request the code looks at is the one the host has sent. -/
structure Asks (packet : Nat → Byte) (d : Control) : Prop where
  type : d.info.bmRequestType = packet 0
  request : d.info.bRequest = packet 1
  wValue : d.info.wValue = packet 2 ++ packet 3
  wIndex : d.info.wIndex = packet 4 ++ packet 5
  wLength : d.info.wLength = Usb.packetLength packet

theorem asks_held {h : Held} (same : d.held = asked packet h) : Asks packet d where
  type := congrArg Held.bmRequestType same
  request := congrArg Held.bRequest same
  wValue := congrArg Held.wValue same
  wIndex := congrArg Held.wIndex same
  wLength := congrArg Held.wLength same

namespace Asks

variable (asks : Asks packet d)
include asks

theorem wValue0 : d.info.wValue0 = packet 2 := by
  rw [DeviceInfo.wValue0, asks.wValue, append_high]

theorem wValue1 : d.info.wValue1 = packet 3 := by
  rw [DeviceInfo.wValue1, asks.wValue, append_low]

theorem wIndex0 : d.info.wIndex0 = packet 4 := by
  rw [DeviceInfo.wIndex0, asks.wIndex, append_high]

theorem wIndex1 : d.info.wIndex1 = packet 5 := by
  rw [DeviceInfo.wIndex1, asks.wIndex, append_low]

theorem recipient : d.info.typeRecipient = packet 0 &&& 0x7F := by
  rw [DeviceInfo.typeRecipient, asks.type]
  rfl

end Asks

end Request

/-! ## What `CopyData` hands out -/

section Serve

variable {m : Around} {d : Control} {r : CopyRoutine}

theorem read_descriptor {e : Control} (same : e.held = d.held) (t : Descriptor) (offset i : Nat) :
    e.read m (.descriptor t offset) i = d.read m (.descriptor t 0) (offset + i) := by
  have serial : e.stringSerial = d.stringSerial := congrArg Held.stringSerial same
  cases t <;> simp [read, table, serial]

/-- A descriptor is handed out packet by packet. -/
theorem serves_descriptor (t : Descriptor) (other : r ≠ .getMaxLun)
    (routine : ∀ (e : Control) (length : BitVec 16), e.held = d.held → copyData m r length e = e.standardGetDescriptorData m length t) :
    Serves m r (d.contents m (.descriptor t 0) (descriptorSize m t).toNat) d.held := by
  refine ⟨?_, ?_⟩
  · rw [contents, Mem.length_read]
    exact (descriptorSize m t).isLt
  · intro e offset length same _ place _ more inside
    rw [contents, Mem.length_read] at inside
    have some_ : length ≠ 0 := by
      rintro rfl
      exact absurd more (by decide)
    refine ⟨.descriptor t offset, e.statusInfo, ?_, ?_⟩
    · rw [routine e length same, standardGetDescriptorData, if_neg some_, place other]
    · rw [contents, Mem.read_drop _ _ _ _ (by omega), Mem.read_take _ _ _ _ (by omega), Nat.zero_add]
      apply List.map_congr_left
      intro i _
      exact read_descriptor same t offset i

/-- What fits in one packet is handed out at once. -/
theorem serves_small {p : Pointer} {bs : List Byte} (few : bs.length ≤ 64)
    (routine : ∀ (e : Control) (length : BitVec 16), e.held = d.held → e.ep 0 = ⟨.nak, .nak⟩ → length ≠ 0 →
      ∃ w, copyData m r length e = (p, { e with statusInfo := w }) ∧
        ({ e with statusInfo := w } : Control).contents m p bs.length = bs) :
    Serves m r bs d.held := by
  refine ⟨by omega, ?_⟩
  intro e offset length same ep _ block more inside
  obtain rfl : offset = 0 := by omega
  have some_ : length ≠ 0 := by
    rintro rfl
    exact absurd more (by decide)
  obtain ⟨w, copied, bytes⟩ := routine e length same ep some_
  refine ⟨p, w, copied, ?_⟩
  rw [List.drop_zero, ← bytes, contents, Mem.read_take _ _ _ _ (by omega)]
  apply List.map_congr_left
  intro i _
  rw [Nat.zero_add]

/-- The first bytes are handed out in the same way. -/
theorem Serves.take {bs : List Byte} {h : Held} (serves : Serves m r bs h) (w : Nat) : Serves m r (bs.take w) h := by
  have fewer : (bs.take w).length = min w bs.length := List.length_take
  refine ⟨by rw [fewer]; have := serves.short; omega, ?_⟩
  intro e offset length same ep place block more inside
  obtain ⟨p, w', copied, bytes⟩ := serves.copy e offset length same ep place block more (by omega)
  refine ⟨p, w', copied, bytes.trans ?_⟩
  rw [List.drop_take, List.take_take, Nat.min_eq_left (by omega)]

end Serve

/-! ## How a request begins -/

/-- The request is accepted, and `bs` is what it is about. -/
structure Opens (m : Around) (bs : List Byte) (d : Control) (r : CopyRoutine) (e : Control) : Prop where
  chosen : d.chooseData m = (.success, e)
  held : e.held = d.held
  ep : e.ep = d.ep
  mul : e.dataMulMaxPacketSize = d.dataMulMaxPacketSize
  left : e.info.ctrlInfo.usbWLength.toNat = bs.length
  place : r ≠ .getMaxLun → e.info.ctrlInfo.usbWOffset.toNat = 0
  copyData : e.info.ctrlInfo.copyData = some r
  serves : Serves m r bs d.held

section Begin

variable {m : Around} {packet : Nat → Byte} {d : Control}

/-- A standard request begins with the length of what it is about. -/
theorem opens_standard {r : CopyRoutine} {n : BitVec 16} {bs : List Byte}
    (routine : d.standardRoutine = some r) (length : ∀ e : Control, e.held = d.held → e.info.ctrlInfo.usbWOffset = 0 →
      (copyData m r 0 e).2 = e.setWLength n) (size : n.toNat = bs.length) (serves : Serves m r bs d.held) :
    ∃ e, Opens m bs d r e := by
  have chosen : d.chooseData m = (.success, (d.setCtrlInfo { d.info.ctrlInfo with
      usbWOffset := 0, copyData := some r }).setWLength n) := by
    rw [chooseData, routine]
    exact congrArg (Prod.mk Result.success) (length _ rfl rfl)
  exact ⟨_, chosen, rfl, rfl, rfl, size, fun _ => rfl, rfl, serves⟩

theorem opens_table {r : CopyRoutine} {t : Descriptor} (other : r ≠ .getMaxLun) (routine : d.standardRoutine = some r)
    (table : ∀ (e : Control) (length : BitVec 16), e.held = d.held → copyData m r length e = e.standardGetDescriptorData m length t) :
    ∃ r e, Opens m (d.contents m (.descriptor t 0) (descriptorSize m t).toNat) d r e := by
  refine ⟨r, opens_standard (n := descriptorSize m t) routine ?_ ?_ (serves_descriptor t other table)⟩
  · intro e same start
    rw [table e 0 same, standardGetDescriptorData, if_pos rfl, start]
    exact congrArg (setWLength · e) (BitVec.sub_zero _)
  · rw [contents, Mem.length_read]

/-- The index of a string stands for the descriptor of `descriptorOf`. -/
theorem getString_eq (index : Byte) {t : Descriptor} (named : descriptorOf STRING_DESCRIPTOR index = some t) (e : Control)
    (here : e.info.wValue0 = index) (length : BitVec 16) :
    e.usbdGetStringDescriptor m length = e.standardGetDescriptorData m length t := by
  unfold usbdGetStringDescriptor
  rw [here]
  have string : descriptorOf STRING_DESCRIPTOR index = if index = 0 then some .langId else if index = 1 then some .vendor
      else if index = 2 then some .product else if index = 3 then some .serial else if index = 4 then some .stray else none := rfl
  rw [string] at named
  by_cases h₀ : index = 0
  · rw [if_pos h₀] at named
    cases named
    rw [h₀, if_neg (by decide), if_pos rfl]
  by_cases h₁ : index = 1
  · rw [if_neg h₀, if_pos h₁] at named
    cases named
    rw [h₁, if_neg (by decide), if_neg (by decide), if_pos rfl]
  by_cases h₂ : index = 2
  · rw [if_neg h₀, if_neg h₁, if_pos h₂] at named
    cases named
    rw [h₂, if_neg (by decide), if_neg (by decide), if_neg (by decide), if_pos rfl]
  by_cases h₃ : index = 3
  · rw [if_neg h₀, if_neg h₁, if_neg h₂, if_pos h₃] at named
    cases named
    rw [h₃, if_neg (by decide), if_neg (by decide), if_neg (by decide), if_neg (by decide), if_pos rfl]
  by_cases h₄ : index = 4
  · rw [if_neg h₀, if_neg h₁, if_neg h₂, if_neg h₃, if_pos h₄] at named
    cases named
    rw [h₄, if_neg (by decide), if_neg (by decide), if_neg (by decide), if_neg (by decide), if_neg (by decide)]
  · rw [if_neg h₀, if_neg h₁, if_neg h₂, if_neg h₃, if_neg h₄] at named
    cases named

/-- A descriptor is asked for. -/
theorem opens_descriptor (asks : Asks packet d) (type : packet 0 = 0x80) (request : packet 1 = GET_DESCRIPTOR) {t : Descriptor}
    (named : descriptorOf (packet 3) (packet 2) = some t) :
    ∃ r e, Opens m (d.contents m (.descriptor t 0) (descriptorSize m t).toNat) d r e := by
  have recipient : d.info.typeRecipient = STANDARD_REQUEST ||| DEVICE_RECIPIENT := by
    rw [asks.recipient, type]
    rfl
  have routine : d.standardRoutine = if packet 3 = DEVICE_DESCRIPTOR then some .getDeviceDescriptor
      else if packet 3 = CONFIG_DESCRIPTOR then some .getConfigDescriptor
      else if packet 3 = STRING_DESCRIPTOR then some .getStringDescriptor
      else none := by
    rw [standardRoutine, asks.request, if_pos request, if_pos recipient, asks.wValue1]
  by_cases device : packet 3 = DEVICE_DESCRIPTOR
  · rw [if_pos device] at routine
    rw [descriptorOf, if_pos device] at named
    cases named
    exact opens_table (by decide) routine fun _ _ _ => rfl
  by_cases config : packet 3 = CONFIG_DESCRIPTOR
  · rw [if_neg device, if_pos config] at routine
    rw [descriptorOf, if_neg device, if_pos config] at named
    cases named
    exact opens_table (by decide) routine fun _ _ _ => rfl
  by_cases string : packet 3 = STRING_DESCRIPTOR
  · rw [if_neg device, if_neg config, if_pos string] at routine
    rw [string] at named
    refine opens_table (by decide) routine fun e length same => getString_eq (packet 2) named e ?_ length
    have value : e.info.wValue = d.info.wValue := congrArg Held.wValue same
    rw [← asks.wValue0, DeviceInfo.wValue0, DeviceInfo.wValue0, value]
  · rw [descriptorOf, if_neg device, if_neg config, if_neg string] at named
    cases named

theorem opens_configuration (asks : Asks packet d) (type : packet 0 = 0x80) (request : packet 1 = GET_CONFIGURATION) :
    ∃ r e, Opens m [d.info.currentConfiguration] d r e := by
  have recipient : d.info.typeRecipient = STANDARD_REQUEST ||| DEVICE_RECIPIENT := by
    rw [asks.recipient, type]
    rfl
  have routine : d.standardRoutine = some .getConfiguration := by
    rw [standardRoutine, asks.request, request, if_neg (by decide), if_neg fun both => absurd both.1 (by decide), if_pos rfl,
      if_pos recipient]
  refine ⟨.getConfiguration, opens_standard (n := 1) routine (fun _ _ _ => rfl) rfl (serves_small (p := .currentConfiguration)
    (by simp) ?_)⟩
  intro e length same _ some_
  refine ⟨e.statusInfo, if_neg some_, ?_⟩
  have value : e.info.currentConfiguration = d.info.currentConfiguration := congrArg Held.currentConfiguration same
  rw [← value]
  rfl

theorem opens_interface (asks : Asks packet d) (type : packet 0 = 0x81) (request : packet 1 = GET_INTERFACE) (v₀ : packet 2 = 0)
    (v₁ : packet 3 = 0) (interface : packet 4 ≤ 1) (i₁ : packet 5 = 0) (length : Usb.packetLength packet = 1)
    (configured : d.info.currentConfiguration ≠ 0) : ∃ r e, Opens m [d.info.currentAlternateSetting] d r e := by
  have recipient : d.info.typeRecipient = STANDARD_REQUEST ||| INTERFACE_RECIPIENT := by
    rw [asks.recipient, type]
    rfl
  have value : d.info.wValue = 0 := by
    rw [asks.wValue, v₀, v₁]
    rfl
  have setting : usbdGetInterfaceSetting d.info.wIndex0 0 = .success := by
    rw [usbdGetInterfaceSetting, if_neg (by decide), asks.wIndex0, if_neg (BitVec.not_lt.mpr interface)]
  have routine : d.standardRoutine = some .getInterface := by
    rw [standardRoutine, asks.request, request, if_neg (by decide), if_neg fun both => absurd both.1 (by decide), if_neg (by decide),
      if_pos rfl, if_pos ⟨recipient, configured, value, asks.wIndex1.trans i₁, asks.wLength.trans length, setting⟩]
  refine ⟨.getInterface, opens_standard (n := 1) routine (fun _ _ _ => rfl) rfl (serves_small (p := .currentAlternateSetting)
    (by simp) ?_)⟩
  intro e n same _ some_
  refine ⟨e.statusInfo, if_neg some_, ?_⟩
  have value : e.info.currentAlternateSetting = d.info.currentAlternateSetting := congrArg Held.currentAlternateSetting same
  rw [← value]
  rfl

/-- No standard request has this number. -/
theorem standardRoutine_none (other : packet 1 = CDC_GET_LINE_CODING ∨ packet 1 = CDC_SET_LINE_CODING ∨ packet 1 = 0xFE)
    (asks : Asks packet d) : d.standardRoutine = none := by
  have number : d.info.bRequest ≠ GET_DESCRIPTOR ∧ d.info.bRequest ≠ GET_STATUS ∧ d.info.bRequest ≠ GET_CONFIGURATION ∧
      d.info.bRequest ≠ GET_INTERFACE := by
    rw [asks.request]
    rcases other with here | here | here <;> rw [here] <;> decide
  rw [standardRoutine, if_neg number.1, if_neg fun both => number.2.1 both.1, if_neg number.2.2.1, if_neg number.2.2.2]

theorem class_recipient (asks : Asks packet d) (type : packet 0 = 0xA1) :
    d.info.typeRecipient = CLASS_REQUEST ||| INTERFACE_RECIPIENT := by
  rw [asks.recipient, type]
  rfl

/-- The line coding can be read under the number of its write as well. -/
theorem opens_lineCoding (asks : Asks packet d) (type : packet 0 = 0xA1)
    (request : packet 1 = CDC_GET_LINE_CODING ∨ packet 1 = CDC_SET_LINE_CODING) :
    ∃ r e, Opens m (d.contents m .uartConfig 7) d r e := by
  obtain ⟨r, same, chosen⟩ : ∃ r, (∀ length e, copyData m r length e = usbCdcLineCoding length e) ∧
      d.chooseData m = (.success, d.startLineCoding m r) := by
    rcases request with get | set
    · refine ⟨.getLineCoding, fun _ _ => rfl, ?_⟩
      rw [chooseData, standardRoutine_none (.inl get) asks]
      change d.usbdDataSetup m = _
      rw [usbdDataSetup, if_pos (class_recipient asks type), asks.request, get, if_neg (by decide), if_pos rfl]
    · refine ⟨.setLineCoding, fun _ _ => rfl, ?_⟩
      rw [chooseData, standardRoutine_none (.inr (.inl set)) asks]
      change d.usbdDataSetup m = _
      rw [usbdDataSetup, if_pos (class_recipient asks type), asks.request, set, if_neg (by decide), if_neg (by decide), if_pos rfl]
  have started : d.startLineCoding m r =
      (d.setCtrlInfo { d.info.ctrlInfo with copyData := some r, usbWOffset := 0 }).setWLength 7 := by
    rw [startLineCoding, same, usbCdcLineCoding, if_pos rfl]
  rw [started] at chosen
  refine ⟨r, _, chosen, rfl, rfl, rfl, ?_, fun _ => rfl, rfl, serves_small (p := .uartConfig) ?_ ?_⟩
  · rw [contents, Mem.length_read]
    rfl
  · rw [contents, Mem.length_read]
    decide
  · intro e length held _ some_
    refine ⟨e.statusInfo, by rw [same, usbCdcLineCoding, if_neg some_], ?_⟩
    have value : e.uartConfig = d.uartConfig := congrArg Held.uartConfig held
    rw [contents, contents, Mem.length_read]
    apply Mem.read_congr
    intro i _
    simp only [read, value]

theorem opens_maxLun (asks : Asks packet d) (type : packet 0 = 0xA1) (request : packet 1 = 0xFE) :
    ∃ r e, Opens m [if 1 < packet 4 then m.zero 0 else d.udiskMaxLun] d r e := by
  have chosen : d.chooseData m =
      (.success, d.setCtrlInfo { d.info.ctrlInfo with usbWLength := 1, copyData := some .getMaxLun }) := by
    rw [chooseData, standardRoutine_none (.inr (.inr request)) asks]
    change d.usbdDataSetup m = _
    rw [usbdDataSetup, if_pos (class_recipient asks type), asks.request, if_pos request]
  refine ⟨.getMaxLun, _, chosen, rfl, rfl, rfl, rfl, fun other => absurd rfl other, rfl,
    serves_small (p := if 1 < packet 4 then .null else .udiskMaxLun) (by simp) ?_⟩
  intro e length same _ _
  have index : e.info.wIndex0 = packet 4 := by
    have value : e.info.wIndex = d.info.wIndex := congrArg Held.wIndex same
    rw [← asks.wIndex0, DeviceInfo.wIndex0, DeviceInfo.wIndex0, value]
  have lun : e.udiskMaxLun = d.udiskMaxLun := congrArg Held.udiskMaxLun same
  refine ⟨e.statusInfo, ?_, ?_⟩
  · change e.usbdUDiskGetMaxLun = _
    rw [usbdUDiskGetMaxLun, index]
    split <;> rfl
  · split
    · rfl
    · rw [← lun]
      rfl

theorem status_length {r : CopyRoutine} (status : r = .getStatus) (e : Control) : (copyData m r 0 e).2 = e.setWLength 2 := by
  subst status
  rfl

theorem contents_statusInfo (w : BitVec 16) (e : Control) :
    ({ e with statusInfo := w } : Control).contents m .statusInfo 2 = [w.extractLsb' 0 8, w.extractLsb' 8 8] := rfl

theorem opens_status (asks : Asks packet d) (type : packet 0 = 0x80) (request : packet 1 = GET_STATUS) (v₀ : packet 2 = 0)
    (v₁ : packet 3 = 0) (i₀ : packet 4 = 0) (i₁ : packet 5 = 0) (length : Usb.packetLength packet = 2) :
    ∃ r e, Opens m [(if d.info.currentFeature.getLsbD 5 then 2 else 0) ||| (if d.info.currentFeature.getLsbD 6 then 1 else 0), 0]
      d r e := by
  have recipient : d.info.typeRecipient = STANDARD_REQUEST ||| DEVICE_RECIPIENT := by
    rw [asks.recipient, type]
    rfl
  have value : d.info.wValue = 0 := by
    rw [asks.wValue, v₀, v₁]
    rfl
  have index : d.info.wIndex = 0 := by
    rw [asks.wIndex, i₀, i₁]
    rfl
  have routine : d.standardRoutine = some .getStatus := by
    rw [standardRoutine, asks.request, request, if_neg (by decide),
      if_pos ⟨rfl, value, asks.wLength.trans length, asks.wIndex1.trans i₁⟩, if_pos ⟨recipient, index⟩]
  refine ⟨.getStatus, opens_standard (n := 2) routine (fun e _ _ => status_length rfl e) rfl (serves_small (p := .statusInfo)
    (by simp) ?_)⟩
  intro e n same _ some_
  have type' : e.info.typeRecipient = STANDARD_REQUEST ||| DEVICE_RECIPIENT := by
    have kind : e.info.bmRequestType = d.info.bmRequestType := congrArg Held.bmRequestType same
    rw [← recipient, DeviceInfo.typeRecipient, DeviceInfo.typeRecipient, kind]
  have feature : e.info.currentFeature = d.info.currentFeature := congrArg Held.currentFeature same
  refine ⟨(if e.info.currentFeature.getLsbD 5 then 2 else 0) ||| (if e.info.currentFeature.getLsbD 6 then 1 else 0), ?_, ?_⟩
  · change e.standardGetStatus n = _
    rw [standardGetStatus, if_neg some_, if_pos type']
  · rw [feature]
    refine (contents_statusInfo _ e).trans ?_
    cases d.info.currentFeature.getLsbD 5 <;> cases d.info.currentFeature.getLsbD 6 <;> decide

theorem opens_interfaceStatus (asks : Asks packet d) (type : packet 0 = 0x81) (request : packet 1 = GET_STATUS) (v₀ : packet 2 = 0)
    (v₁ : packet 3 = 0) (interface : packet 4 ≤ 1) (i₁ : packet 5 = 0) (length : Usb.packetLength packet = 2)
    (configured : d.info.currentConfiguration ≠ 0) : ∃ r e, Opens m [0, 0] d r e := by
  have recipient : d.info.typeRecipient = STANDARD_REQUEST ||| INTERFACE_RECIPIENT := by
    rw [asks.recipient, type]
    rfl
  have value : d.info.wValue = 0 := by
    rw [asks.wValue, v₀, v₁]
    rfl
  have setting : usbdGetInterfaceSetting d.info.wIndex0 0 = .success := by
    rw [usbdGetInterfaceSetting, if_neg (by decide), asks.wIndex0, if_neg (BitVec.not_lt.mpr interface)]
  have routine : d.standardRoutine = some .getStatus := by
    rw [standardRoutine, asks.request, request, if_neg (by decide),
      if_pos ⟨rfl, value, asks.wLength.trans length, asks.wIndex1.trans i₁⟩,
      if_neg fun both => absurd (recipient.symm.trans both.1) (by decide), if_pos recipient, if_pos ⟨setting, configured⟩]
  refine ⟨.getStatus, opens_standard (n := 2) routine (fun e _ _ => status_length rfl e) rfl (serves_small (p := .statusInfo)
    (by simp) ?_)⟩
  intro e n same _ some_
  have type' : e.info.typeRecipient = STANDARD_REQUEST ||| INTERFACE_RECIPIENT := by
    have kind : e.info.bmRequestType = d.info.bmRequestType := congrArg Held.bmRequestType same
    rw [← recipient, DeviceInfo.typeRecipient, DeviceInfo.typeRecipient, kind]
  refine ⟨0, ?_, (contents_statusInfo 0 e).trans (by decide)⟩
  change e.standardGetStatus n = _
  rw [standardGetStatus, if_neg some_, if_neg (by rw [type']; decide), if_pos type']

/-- In the handler the register of endpoint 0 says NAK. -/
theorem statusOf_held {e : Control} (same : e.held = d.held) (zero : e.ep 0 = ⟨.nak, .nak⟩) (i : Byte) :
    (if i.getLsbD 7 then (e.ep (i &&& 0x0F).toNat).tx else (e.ep (i &&& 0x0F).toNat).rx) = d.statusOf i := by
  have here : e.ep (i &&& 0x0F).toNat = if (i &&& 0x0F).toNat = 0 then ⟨.nak, .nak⟩ else d.ep (i &&& 0x0F).toNat := by
    split
    · next first =>
      rw [first]
      exact zero
    · next other =>
      obtain ⟨k, next⟩ : ∃ k, (i &&& 0x0F).toNat = k + 1 := ⟨_, (Nat.succ_pred other).symm⟩
      rw [next]
      exact congrFun (congrArg Held.others same) k
  rw [here]
  rfl

theorem opens_endpoint (asks : Asks packet d) (type : packet 0 = 0x82) (request : packet 1 = GET_STATUS) (v₀ : packet 2 = 0)
    (v₁ : packet 3 = 0) (reserved : packet 4 &&& 0x70 = 0) (i₁ : packet 5 = 0) (length : Usb.packetLength packet = 2)
    (few : (packet 4 &&& 0x0F).toNat < EP_NUM) (ep : d.ep 0 = ⟨.nak, .nak⟩) (enabled : d.statusOf (packet 4) ≠ .dis) :
    ∃ r e, Opens m [if d.statusOf (packet 4) = .stall then 1 else 0, 0] d r e := by
  have recipient : d.info.typeRecipient = STANDARD_REQUEST ||| ENDPOINT_RECIPIENT := by
    rw [asks.recipient, type]
    rfl
  have value : d.info.wValue = 0 := by
    rw [asks.wValue, v₀, v₁]
    rfl
  have routine : d.standardRoutine = some .getStatus := by
    rw [standardRoutine, asks.request, request, if_neg (by decide),
      if_pos ⟨rfl, value, asks.wLength.trans length, asks.wIndex1.trans i₁⟩,
      if_neg fun both => absurd (recipient.symm.trans both.1) (by decide),
      if_neg fun other => absurd (recipient.symm.trans other) (by decide), if_pos recipient, asks.wIndex0]
    rw [if_pos ⟨few, reserved, by rw [statusOf_held rfl ep]; exact enabled⟩]
  refine ⟨.getStatus, opens_standard (n := 2) routine (fun e _ _ => status_length rfl e) rfl (serves_small (p := .statusInfo)
    (by simp) ?_)⟩
  intro e n same zero some_
  have type' : e.info.typeRecipient = STANDARD_REQUEST ||| ENDPOINT_RECIPIENT := by
    have kind : e.info.bmRequestType = d.info.bmRequestType := congrArg Held.bmRequestType same
    rw [← recipient, DeviceInfo.typeRecipient, DeviceInfo.typeRecipient, kind]
  have index : e.info.wIndex0 = packet 4 := by
    have value : e.info.wIndex = d.info.wIndex := congrArg Held.wIndex same
    rw [← asks.wIndex0, DeviceInfo.wIndex0, DeviceInfo.wIndex0, value]
  refine ⟨if d.statusOf (packet 4) = .stall then 1 else 0, ?_, ?_⟩
  · change e.standardGetStatus n = _
    rw [standardGetStatus, if_neg some_, if_neg (by rw [type']; decide), if_neg (by rw [type']; decide), if_pos type', index,
      ← statusOf_held same zero]
  · refine (contents_statusInfo _ e).trans ?_
    split <;> decide

/-- What a request is about does not depend on the request before it. -/
theorem answer_congr {d₀ : Control} (same : asked packet d.held = asked packet d₀.held) : d.answer m packet = d₀.answer m packet := by
  have configuration : d.info.currentConfiguration = d₀.info.currentConfiguration := congrArg Held.currentConfiguration same
  have alternate : d.info.currentAlternateSetting = d₀.info.currentAlternateSetting := congrArg Held.currentAlternateSetting same
  have feature : d.info.currentFeature = d₀.info.currentFeature := congrArg Held.currentFeature same
  have lun : d.udiskMaxLun = d₀.udiskMaxLun := congrArg Held.udiskMaxLun same
  have serial : d.stringSerial = d₀.stringSerial := congrArg Held.stringSerial same
  have uart : d.uartConfig = d₀.uartConfig := congrArg Held.uartConfig same
  have others : ∀ n, d.ep (n + 1) = d₀.ep (n + 1) := congrFun (congrArg Held.others same)
  have tables : ∀ t n, d.contents m (.descriptor t 0) n = d₀.contents m (.descriptor t 0) n := by
    intro t n
    apply Mem.read_congr
    intro i _
    cases t <;> simp [read, table, serial]
  have line : d.contents m .uartConfig 7 = d₀.contents m .uartConfig 7 := by
    apply Mem.read_congr
    intro i _
    simp only [read, uart]
  have status : d.statusOf (packet 4) = d₀.statusOf (packet 4) := by
    unfold statusOf
    cases (packet 4 &&& 0x0F).toNat with
    | zero => rfl
    | succ n => simp only [others n, Nat.succ_ne_zero, if_false]
  simp only [answer, configuration, alternate, feature, lun, tables, line, status]

/-- **Every request** that `answer` knows is accepted. -/
theorem answer_opens {bs : List Byte} (asks : Asks packet d) (ep : d.ep 0 = ⟨.nak, .nak⟩)
    (answered : d.answer m packet = some bs) : ∃ r e, Opens m bs d r e := by
  unfold answer at answered
  split at answered
  · next named =>
    obtain ⟨t, this, bytes⟩ := Option.map_eq_some_iff.mp answered
    rw [← bytes]
    exact opens_descriptor asks named.1 named.2 this
  split at answered
  · next named =>
    cases answered
    exact opens_configuration asks named.1 named.2
  split at answered
  · next named =>
    cases answered
    obtain ⟨type, request, v₀, v₁, i₀, i₁, length, configured⟩ := named
    exact opens_interface asks type request v₀ v₁ i₀ i₁ length configured
  split at answered
  · next named =>
    cases answered
    obtain ⟨type, request, v₀, v₁, i₀, i₁, length⟩ := named
    exact opens_status asks type request v₀ v₁ i₀ i₁ length
  split at answered
  · next named =>
    cases answered
    obtain ⟨type, request, v₀, v₁, interface, i₁, length, configured⟩ := named
    exact opens_interfaceStatus asks type request v₀ v₁ interface i₁ length configured
  split at answered
  · next named =>
    cases answered
    obtain ⟨type, request, v₀, v₁, reserved, i₁, length, few, enabled⟩ := named
    exact opens_endpoint asks type request v₀ v₁ reserved i₁ length few ep enabled
  split at answered
  · next named =>
    cases answered
    exact opens_lineCoding asks named.1 named.2
  split at answered
  · next named =>
    cases answered
    exact opens_maxLun asks named.1 named.2
  · cases answered

/-- The requests `answer` knows are reads. -/
theorem answer_reads {bs : List Byte} (answered : d.answer m packet = some bs) : (packet 0).getLsbD 7 = true := by
  have kind : packet 0 = 0x80 ∨ packet 0 = 0x81 ∨ packet 0 = 0x82 ∨ packet 0 = 0xA1 := by
    unfold answer at answered
    split at answered
    · next named => exact .inl named.1
    split at answered
    · next named => exact .inl named.1
    split at answered
    · next named => exact .inr (.inl named.1)
    split at answered
    · next named => exact .inl named.1
    split at answered
    · next named => exact .inr (.inl named.1)
    split at answered
    · next named => exact .inr (.inr (.inl named.1))
    split at answered
    · next named => exact .inr (.inr (.inr named.1))
    split at answered
    · next named => exact .inr (.inr (.inr named.1))
    · cases answered
  rcases kind with here | here | here | here <;> rw [here] <;> decide

end Begin

end Control

end OffLineProgrammer.UsbCore
