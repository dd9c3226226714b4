import OffLineProgrammer.Lib.Run
import OffLineProgrammer.UsbCore.Descriptors
import OffLineProgrammer.UsbCore.PacketMemory

/-!
# The control endpoint, from usb_core.c, usb_int.c and usb_prop.c

A host sends a request with a setup packet, moves its data with IN or OUT tokens and
ends it with a token in the other direction. The hardware answers a token from the
state of the endpoint and the packet memory, and leaves the rest to the interrupt,
which may come at any time after the token.
-/

namespace OffLineProgrammer.UsbCore
set_option autoImplicit false
open OffLineProgrammer.Lib

/-! ## Constants, from usb_def.h, usb_conf.h and usb_prop.h -/

abbrev STANDARD_REQUEST : Byte := 0x00
abbrev CLASS_REQUEST : Byte := 0x20
abbrev DEVICE_RECIPIENT : Byte := 0
abbrev INTERFACE_RECIPIENT : Byte := 1
abbrev ENDPOINT_RECIPIENT : Byte := 2

abbrev GET_STATUS : Byte := 0
abbrev CLEAR_FEATURE : Byte := 1
abbrev SET_FEATURE : Byte := 3
abbrev SET_ADDRESS : Byte := 5
abbrev GET_DESCRIPTOR : Byte := 6
abbrev GET_CONFIGURATION : Byte := 8
abbrev SET_CONFIGURATION : Byte := 9
abbrev GET_INTERFACE : Byte := 10
abbrev SET_INTERFACE : Byte := 11

abbrev CDC_SET_LINE_CODING : Byte := 0x20
abbrev CDC_GET_LINE_CODING : Byte := 0x21
abbrev CDC_SET_LINE_CTLSTE : Byte := 0x22
abbrev CDC_SEND_BREAK : Byte := 0x23

abbrev DEVICE_DESCRIPTOR : Byte := 1
abbrev CONFIG_DESCRIPTOR : Byte := 2
abbrev STRING_DESCRIPTOR : Byte := 3
abbrev DEVICE_REMOTE_WAKEUP : Byte := 1

abbrev EP_NUM : Nat := 15
abbrev TOTAL_CONFIGURATION : Byte := 1
abbrev ENDP0_RXADDR : BitVec 16 := 0x40
abbrev ENDP0_TXADDR : BitVec 16 := 0x80
abbrev MAX_PACKET_SIZE : BitVec 16 := 64

/-! ## The state -/

/-- `CONTROL_STATE` -/
inductive ControlState where
  | waitSetup
  | settingUp
  | inData
  | outData
  | lastInData
  | lastOutData
  | waitStatusIn
  | waitStatusOut
  | stalled
  | pause
  deriving DecidableEq

/-- `RESULT` -/
inductive Result where
  | success
  | error
  | unsupport
  | notReady
  deriving DecidableEq

/-- The status of one direction of an endpoint. -/
inductive Stat where
  | dis
  | stall
  | nak
  | valid
  deriving DecidableEq

structure Endpoint where
  rx : Stat
  tx : Stat

/-- `bDeviceState` -/
inductive DeviceState where
  | unconnected
  | attached
  | addressed
  | configured
  deriving DecidableEq

/-- The functions `CopyData` may point to. -/
inductive CopyRoutine where
  | getDeviceDescriptor
  | getConfigDescriptor
  | getStringDescriptor
  | getStatus
  | getConfiguration
  | getInterface
  | getLineCoding
  | setLineCoding
  | getMaxLun
  deriving DecidableEq

/-- `ENDPOINT_INFO` -/
structure EndpointInfo where
  usbWLength : BitVec 16
  usbWOffset : BitVec 16
  packetSize : BitVec 16
  copyData : Option CopyRoutine

/-- `DEVICE_INFO`; `wValue` and `wIndex` are kept with their bytes swapped. -/
structure DeviceInfo where
  bmRequestType : Byte
  bRequest : Byte
  wValue : BitVec 16
  wIndex : BitVec 16
  wLength : BitVec 16
  controlState : ControlState
  currentFeature : Byte
  currentConfiguration : Byte
  currentInterface : Byte
  currentAlternateSetting : Byte
  ctrlInfo : EndpointInfo

namespace DeviceInfo

/-- `bw.bb0` of `USBwValues` and the others -/
def wValue0 (i : DeviceInfo) : Byte := i.wValue.extractLsb' 8 8
def wValue1 (i : DeviceInfo) : Byte := i.wValue.extractLsb' 0 8
def wIndex0 (i : DeviceInfo) : Byte := i.wIndex.extractLsb' 8 8
def wIndex1 (i : DeviceInfo) : Byte := i.wIndex.extractLsb' 0 8

/-- `Type_Recipient` -/
def typeRecipient (i : DeviceInfo) : Byte := i.bmRequestType &&& (0x60 ||| 0x1F)

end DeviceInfo

/-- What `CopyData` returns. -/
inductive Pointer where
  | null
  | descriptor (t : Descriptor) (offset : Nat)
  | statusInfo
  | currentConfiguration
  | currentAlternateSetting
  | uartConfig
  | udiskMaxLun

/-- What lies where the code reads past what it owns: at address 0, behind
`String_Descriptor[4]`, and after its variables. -/
structure Around where
  zero : Nat → Byte
  stray : Nat → Byte
  straySize : BitVec 16
  beyond : Pointer → Nat → Byte

/-- Nothing around but zeros. -/
def Around.empty : Around := ⟨fun _ => 0, fun _ => 0, 0, fun _ _ => 0⟩

/-- The control endpoint with the variables it works on. `saveR` and `saveT` are
`SaveRState` and `SaveTState`; `daddr` is the address register. -/
structure Control where
  info : DeviceInfo
  dataMulMaxPacketSize : Bool
  statusInfo : BitVec 16
  uartConfig : List Byte
  stringSerial : List Byte
  udiskMaxLun : Byte
  deviceState : DeviceState
  daddr : Byte
  ep : Nat → Endpoint
  saveR : Stat
  saveT : Stat
  txCount : BitVec 16
  pma : Pma

namespace Control

def setState (s : ControlState) (d : Control) : Control := { d with info := { d.info with controlState := s } }

def setCtrlInfo (c : EndpointInfo) (d : Control) : Control := { d with info := { d.info with ctrlInfo := c } }

def setWLength (n : BitVec 16) (d : Control) : Control := d.setCtrlInfo { d.info.ctrlInfo with usbWLength := n }

def setEp (n : Nat) (e : Endpoint) (d : Control) : Control := { d with ep := fun k => if k = n then e else d.ep k }

/-! ## Memory -/

/-- The bytes of a descriptor. -/
def table (d : Control) : Descriptor → List Byte
  | .device => USBD_DeviceDescriptor
  | .config => USBD_ConfigDescriptor
  | .langId => USBD_StringLangID
  | .vendor => USBD_StringVendor
  | .product => USBD_StringProduct
  | .serial => d.stringSerial
  | .stray => []

/-- `Descriptor_Size` -/
def descriptorSize (m : Around) : Descriptor → BitVec 16
  | .device => 18
  | .config => 106
  | .langId => 4
  | .vendor => 14
  | .product => 22
  | .serial => 22
  | .stray => m.straySize

/-- What is read through a pointer. -/
def read (m : Around) (d : Control) (p : Pointer) (i : Nat) : Byte :=
  match p with
  | .null => m.zero i
  | .descriptor .stray offset => m.stray (offset + i)
  | .descriptor t offset => (d.table t).getD (offset + i) (m.beyond (.descriptor t 0) (offset + i))
  | .statusInfo => [d.statusInfo.extractLsb' 0 8, d.statusInfo.extractLsb' 8 8].getD i (m.beyond p i)
  | .currentConfiguration =>
    [d.info.currentConfiguration, d.info.currentInterface, d.info.currentAlternateSetting].getD i (m.beyond p i)
  | .currentAlternateSetting => [d.info.currentAlternateSetting].getD i (m.beyond p i)
  | .uartConfig => d.uartConfig.getD i (m.beyond p i)
  | .udiskMaxLun => [d.udiskMaxLun].getD i (m.beyond p i)

/-- A buffer after a write inside of it. -/
def patch (old : List Byte) (offset : Nat) (bs : List Byte) : Option (List Byte) :=
  if offset + bs.length ≤ old.length then some (old.take offset ++ bs ++ old.drop (offset + bs.length)) else none

/-- A write through a pointer; there is none to what is constant or not the code's own.
`Current_AlternateSetting` is the last byte before the padding of its structure. -/
def write (p : Pointer) (bs : List Byte) (d : Control) : Option Control :=
  if bs = [] then some d
  else match p with
    | .descriptor .serial offset => (patch d.stringSerial offset bs).map fun new => { d with stringSerial := new }
    | .statusInfo => match bs with
      | [b₀, b₁] => some { d with statusInfo := b₁ ++ b₀ }
      | _ => none
    | .currentConfiguration => match bs with
      | [b₀, b₁] => some { d with info := { d.info with currentConfiguration := b₀, currentInterface := b₁ } }
      | _ => none
    | .currentAlternateSetting => match bs with
      | [b₀, _] => some { d with info := { d.info with currentAlternateSetting := b₀ } }
      | _ => none
    | .uartConfig => (patch d.uartConfig 0 bs).map fun new => { d with uartConfig := new }
    | _ => none

/-! ## What `CopyData` does -/

/-- `Standard_GetDescriptorData` -/
def standardGetDescriptorData (m : Around) (length : BitVec 16) (t : Descriptor) (d : Control) : Pointer × Control :=
  let wOffset := d.info.ctrlInfo.usbWOffset
  if length = 0 then (.null, d.setWLength (descriptorSize m t - wOffset)) else (.descriptor t wOffset.toNat, d)

/-- `USBD_GetStringDescriptor`; index 4 is one past the table. -/
def usbdGetStringDescriptor (m : Around) (length : BitVec 16) (d : Control) : Pointer × Control :=
  let wValue0 := d.info.wValue0
  if 4 < wValue0 then (.null, d)
  else if wValue0 = 0 then standardGetDescriptorData m length .langId d
  else if wValue0 = 1 then standardGetDescriptorData m length .vendor d
  else if wValue0 = 2 then standardGetDescriptorData m length .product d
  else if wValue0 = 3 then standardGetDescriptorData m length .serial d
  else standardGetDescriptorData m length .stray d

/-- `Standard_GetStatus` -/
def standardGetStatus (length : BitVec 16) (d : Control) : Pointer × Control :=
  if length = 0 then (.null, d.setWLength 2)
  else
    let type := d.info.typeRecipient
    if type = STANDARD_REQUEST ||| DEVICE_RECIPIENT then
      let feature := d.info.currentFeature
      let bits := (if feature.getLsbD 5 then 2 else 0) ||| (if feature.getLsbD 6 then 1 else 0)
      (.statusInfo, { d with statusInfo := bits })
    else if type = STANDARD_REQUEST ||| INTERFACE_RECIPIENT then (.statusInfo, { d with statusInfo := 0 })
    else if type = STANDARD_REQUEST ||| ENDPOINT_RECIPIENT then
      let wIndex0 := d.info.wIndex0
      let e := d.ep (wIndex0 &&& 0x0F).toNat
      let status := if wIndex0.getLsbD 7 then e.tx else e.rx
      (.statusInfo, { d with statusInfo := if status = .stall then 1 else 0 })
    else (.null, { d with statusInfo := 0 })

/-- `Standard_GetConfiguration` -/
def standardGetConfiguration (length : BitVec 16) (d : Control) : Pointer × Control :=
  if length = 0 then (.null, d.setWLength 1) else (.currentConfiguration, d)

/-- `Standard_GetInterface` -/
def standardGetInterface (length : BitVec 16) (d : Control) : Pointer × Control :=
  if length = 0 then (.null, d.setWLength 1) else (.currentAlternateSetting, d)

/-- `USB_CDC_GetLineCoding` and `USB_CDC_SetLineCoding` -/
def usbCdcLineCoding (length : BitVec 16) (d : Control) : Pointer × Control :=
  if length = 0 then (.null, d.setWLength 7) else (.uartConfig, d)

/-- `USBD_UDisk_Get_Max_Lun` -/
def usbdUDiskGetMaxLun (d : Control) : Pointer × Control := if 1 < d.info.wIndex0 then (.null, d) else (.udiskMaxLun, d)

/-- `(*CopyData)(Length)` -/
def copyData (m : Around) (r : CopyRoutine) (length : BitVec 16) (d : Control) : Pointer × Control :=
  match r with
  | .getDeviceDescriptor => standardGetDescriptorData m length .device d
  | .getConfigDescriptor => standardGetDescriptorData m length .config d
  | .getStringDescriptor => usbdGetStringDescriptor m length d
  | .getStatus => standardGetStatus length d
  | .getConfiguration => standardGetConfiguration length d
  | .getInterface => standardGetInterface length d
  | .getLineCoding => usbCdcLineCoding length d
  | .setLineCoding => usbCdcLineCoding length d
  | .getMaxLun => usbdUDiskGetMaxLun d

/-! ## The data stage -/

/-- `Send0LengthData` and `USB_StatusIn` -/
def send0LengthData (d : Control) : Control := { d with txCount := 0, saveT := .valid }

/-- The first part of `DataStageOut`: the packet is taken, unless it would be written where
it must not. -/
def takeData (m : Around) (d : Control) : Option Control :=
  match d.info.ctrlInfo.copyData with
  | none => some d
  | some r =>
    let save := d.info.ctrlInfo.usbWLength
    if save = 0 then some d
    else
      let length := if d.info.ctrlInfo.packetSize > save then save else d.info.ctrlInfo.packetSize
      let e := (copyData m r length d).2
      let c := e.info.ctrlInfo
      (e.setCtrlInfo { c with usbWLength := c.usbWLength - length, usbWOffset := c.usbWOffset + length }).write
        (copyData m r length d).1 (pmaToUserBufferCopy ENDP0_RXADDR length e.pma)

/-- The second part of `DataStageOut`: what is left decides on the state. -/
def finishOut (d : Control) : Control :=
  let d := if d.info.ctrlInfo.usbWLength ≠ 0 then { d with saveR := .valid, txCount := 0, saveT := .valid } else d
  if d.info.ctrlInfo.packetSize ≤ d.info.ctrlInfo.usbWLength then d.setState .outData
  else if d.info.ctrlInfo.usbWLength > 0 then d.setState .lastOutData
  else (d.setState .waitStatusIn).send0LengthData

/-- `DataStageOut` -/
def dataStageOut (m : Around) (d : Control) : Option Control := (d.takeData m).map finishOut

/-- `DataStageIn`, unless `CopyData` is still null. -/
def dataStageIn (m : Around) (d : Control) : Option Control :=
  let save := d.info.ctrlInfo.usbWLength
  if save = 0 ∧ d.info.controlState = .lastInData then
    if d.dataMulMaxPacketSize then some { d.send0LengthData.setState .lastInData with dataMulMaxPacketSize := false }
    else some { d.setState .waitStatusOut with saveT := .stall }
  else
    let size := d.info.ctrlInfo.packetSize
    let state := if save ≤ size then ControlState.lastInData else .inData
    let length := if size > save then save else size
    d.info.ctrlInfo.copyData.map fun r =>
      let (buffer, d) := copyData m r length d
      let c := d.info.ctrlInfo
      let d := d.setCtrlInfo { c with usbWLength := c.usbWLength - length, usbWOffset := c.usbWOffset + length }
      { d.setState state with
        pma := userToPMABufferCopy (d.read m buffer) ENDP0_TXADDR length d.pma
        txCount := length
        saveT := .valid
        saveR := .valid }

/-! ## Requests without data -/

/-- `USBD_Get_Interface_Setting` -/
def usbdGetInterfaceSetting (interface alternateSetting : Byte) : Result :=
  if 0 < alternateSetting then .unsupport else if 1 < interface then .unsupport else .success

/-- `Standard_SetConfiguration` with `USBD_SetConfiguration` -/
def standardSetConfiguration (d : Control) : Result × Control :=
  if d.info.wValue0 ≤ TOTAL_CONFIGURATION ∧ d.info.wValue1 = 0 ∧ d.info.wIndex = 0 then
    let d := { d with info := { d.info with currentConfiguration := d.info.wValue0 } }
    (.success, if d.info.currentConfiguration ≠ 0 then { d with deviceState := .configured } else d)
  else (.unsupport, d)

/-- `Standard_SetInterface` -/
def standardSetInterface (d : Control) : Result × Control :=
  let re := usbdGetInterfaceSetting d.info.wIndex0 d.info.wValue0
  if d.info.currentConfiguration ≠ 0 then
    if re ≠ .success ∨ d.info.wIndex1 ≠ 0 ∨ d.info.wValue1 ≠ 0 then (.unsupport, d)
    else (.success, { d with info := { d.info with
      currentInterface := d.info.wIndex0, currentAlternateSetting := d.info.wValue0 } })
  else (.unsupport, d)

/-- `Standard_SetDeviceFeature` -/
def standardSetDeviceFeature (d : Control) : Result × Control :=
  (.success, { d with info := { d.info with currentFeature := d.info.currentFeature ||| 0x20 } })

/-- The endpoint of a request in `wIndex`, and the status of the direction it names. -/
def relatedEndpoint (d : Control) : Nat × Stat :=
  let n := (d.info.wIndex0 &&& 0x7F).toNat
  (n, if d.info.wIndex0.getLsbD 7 then (d.ep n).tx else (d.ep n).rx)

/-- `Standard_ClearFeature` -/
def standardClearFeature (d : Control) : Result × Control :=
  if d.info.typeRecipient = STANDARD_REQUEST ||| DEVICE_RECIPIENT then
    (.success, { d with info := { d.info with currentFeature := d.info.currentFeature &&& 0xDF } })
  else if d.info.typeRecipient = STANDARD_REQUEST ||| ENDPOINT_RECIPIENT then
    if d.info.wValue ≠ 0 ∨ d.info.wIndex1 ≠ 0 then (.unsupport, d)
    else
      let (n, status) := d.relatedEndpoint
      if EP_NUM ≤ n ∨ status = .dis ∨ d.info.currentConfiguration = 0 then (.unsupport, d)
      else if d.info.wIndex0.getLsbD 7 then
        (.success, if (d.ep n).tx = .stall then d.setEp n { d.ep n with tx := .valid } else d)
      else (.success, if (d.ep n).rx = .stall then d.setEp n { d.ep n with rx := .valid } else d)
  else (.unsupport, d)

/-- `Standard_SetEndPointFeature` -/
def standardSetEndPointFeature (d : Control) : Result × Control :=
  let (n, status) := d.relatedEndpoint
  if EP_NUM ≤ n ∨ d.info.wValue ≠ 0 ∨ status = .dis ∨ d.info.currentConfiguration = 0 then (.unsupport, d)
  else if d.info.wIndex0.getLsbD 7 then (.success, d.setEp n { d.ep n with tx := .stall })
  else (.success, d.setEp n { d.ep n with rx := .stall })

/-- `USBD_NoData_Setup` -/
def usbdNoDataSetup (d : Control) : Result :=
  if d.info.typeRecipient = CLASS_REQUEST ||| INTERFACE_RECIPIENT then
    if d.info.bRequest = CDC_SET_LINE_CTLSTE ∨ d.info.bRequest = CDC_SEND_BREAK then .success else .unsupport
  else .success

/-- `SET_ADDRESS` is refused at once. -/
def refusesAddress (d : Control) : Bool :=
  d.info.typeRecipient = STANDARD_REQUEST ||| DEVICE_RECIPIENT ∧ d.info.bRequest = SET_ADDRESS ∧
    (127 < d.info.wValue0 ∨ d.info.wValue1 ≠ 0 ∨ d.info.wIndex ≠ 0 ∨ d.info.currentConfiguration ≠ 0)

/-- The standard requests of `NoData_Setup0`. -/
def standardNoData (d : Control) : Result × Control :=
  let type := d.info.typeRecipient
  let request := d.info.bRequest
  if type = STANDARD_REQUEST ||| DEVICE_RECIPIENT then
    if request = SET_CONFIGURATION then d.standardSetConfiguration
    else if request = SET_ADDRESS then (.success, d)
    else if request = SET_FEATURE then
      if d.info.wValue0 = DEVICE_REMOTE_WAKEUP ∧ d.info.wIndex = 0 then d.standardSetDeviceFeature else (.unsupport, d)
    else if request = CLEAR_FEATURE then
      if d.info.wValue0 = DEVICE_REMOTE_WAKEUP ∧ d.info.wIndex = 0 ∧ d.info.currentFeature.getLsbD 5 then d.standardClearFeature
      else (.unsupport, d)
    else (.unsupport, d)
  else if type = STANDARD_REQUEST ||| INTERFACE_RECIPIENT then
    if request = SET_INTERFACE then d.standardSetInterface else (.unsupport, d)
  else if type = STANDARD_REQUEST ||| ENDPOINT_RECIPIENT then
    if request = CLEAR_FEATURE then d.standardClearFeature
    else if request = SET_FEATURE then d.standardSetEndPointFeature
    else (.unsupport, d)
  else (.unsupport, d)

/-- `NoData_Setup0` -/
def noDataSetup0 (d : Control) : Control :=
  if d.refusesAddress then d.setState .stalled
  else
    let (result, d) := d.standardNoData
    let result := if result ≠ .success then d.usbdNoDataSetup else result
    if result = .notReady then d.setState .pause
    else if result ≠ .success then d.setState .stalled
    else (d.setState .waitStatusIn).send0LengthData

/-! ## Requests with data -/

/-- The `CopyRoutine` of a standard request, if it is one of those of `Data_Setup0`. -/
def standardRoutine (d : Control) : Option CopyRoutine :=
  let type := d.info.typeRecipient
  let request := d.info.bRequest
  if request = GET_DESCRIPTOR then
    if type = STANDARD_REQUEST ||| DEVICE_RECIPIENT then
      if d.info.wValue1 = DEVICE_DESCRIPTOR then some .getDeviceDescriptor
      else if d.info.wValue1 = CONFIG_DESCRIPTOR then some .getConfigDescriptor
      else if d.info.wValue1 = STRING_DESCRIPTOR then some .getStringDescriptor
      else none
    else none
  else if request = GET_STATUS ∧ d.info.wValue = 0 ∧ d.info.wLength = 2 ∧ d.info.wIndex1 = 0 then
    if type = STANDARD_REQUEST ||| DEVICE_RECIPIENT ∧ d.info.wIndex = 0 then some .getStatus
    else if type = STANDARD_REQUEST ||| INTERFACE_RECIPIENT then
      if usbdGetInterfaceSetting d.info.wIndex0 0 = .success ∧ d.info.currentConfiguration ≠ 0 then some .getStatus else none
    else if type = STANDARD_REQUEST ||| ENDPOINT_RECIPIENT then
      let n := (d.info.wIndex0 &&& 0x0F).toNat
      let status := if d.info.wIndex0.getLsbD 7 then (d.ep n).tx else (d.ep n).rx
      if n < EP_NUM ∧ d.info.wIndex0 &&& 0x70 = 0 ∧ status ≠ .dis then some .getStatus else none
    else none
  else if request = GET_CONFIGURATION then
    if type = STANDARD_REQUEST ||| DEVICE_RECIPIENT then some .getConfiguration else none
  else if request = GET_INTERFACE then
    if type = STANDARD_REQUEST ||| INTERFACE_RECIPIENT ∧ d.info.currentConfiguration ≠ 0 ∧ d.info.wValue = 0 ∧
        d.info.wIndex1 = 0 ∧ d.info.wLength = 1 ∧ usbdGetInterfaceSetting d.info.wIndex0 0 = .success then
      some .getInterface
    else none
  else none

/-- A class request with its `CopyRoutine`, from `USBD_Data_Setup`. -/
def startLineCoding (m : Around) (r : CopyRoutine) (d : Control) : Control :=
  (copyData m r 0 (d.setCtrlInfo { d.info.ctrlInfo with copyData := some r, usbWOffset := 0 })).2

/-- `USBD_Data_Setup` -/
def usbdDataSetup (m : Around) (d : Control) : Result × Control :=
  if d.info.typeRecipient = CLASS_REQUEST ||| INTERFACE_RECIPIENT then
    if d.info.bRequest = 0xFE then
      (.success, d.setCtrlInfo { d.info.ctrlInfo with usbWLength := 1, copyData := some .getMaxLun })
    else if d.info.bRequest = CDC_GET_LINE_CODING then (.success, d.startLineCoding m .getLineCoding)
    else if d.info.bRequest = CDC_SET_LINE_CODING then (.success, d.startLineCoding m .setLineCoding)
    else (.unsupport, d)
  else (.unsupport, d)

/-- The length of the data stage of a read, and whether a packet without data ends it. -/
def limitLength (d : Control) : Control :=
  let length := d.info.ctrlInfo.usbWLength
  if length > d.info.wLength then d.setWLength d.info.wLength
  else if length < d.info.wLength then
    if length < MAX_PACKET_SIZE then { d with dataMulMaxPacketSize := false }
    else if length % MAX_PACKET_SIZE = 0 then { d with dataMulMaxPacketSize := true }
    else d
  else d

/-- `Data_Setup0` up to the first check of its result. -/
def chooseData (m : Around) (d : Control) : Result × Control :=
  match d.standardRoutine with
  | some r => (.success, (copyData m r 0 (d.setCtrlInfo { d.info.ctrlInfo with usbWOffset := 0, copyData := some r })).2)
  | none => d.usbdDataSetup m

/-- `Data_Setup0` -/
def dataSetup0 (m : Around) (d : Control) : Option Control :=
  let (result, d) := d.chooseData m
  if result = .notReady then some (d.setState .pause)
  else if d.info.ctrlInfo.usbWLength = 0xFFFF then some (d.setState .pause)
  else if result = .unsupport ∨ d.info.ctrlInfo.usbWLength = 0 then some (d.setState .stalled)
  else if d.info.bmRequestType.getLsbD 7 then
    let d := d.limitLength
    (d.setCtrlInfo { d.info.ctrlInfo with packetSize := MAX_PACKET_SIZE }).dataStageIn m
  else some { d.setState .outData with saveR := .valid }

/-! ## The interrupt -/

/-- `Post0_Process` -/
def post0Process (d : Control) : Control :=
  if d.info.controlState = .stalled then { d with saveR := .stall, saveT := .stall } else d

/-- `ByteSwap` -/
def byteSwap (w : BitVec 16) : BitVec 16 := w >>> 8 ||| (w.extractLsb' 0 8).setWidth 16 <<< 8

/-- The request in the packet memory. -/
def readSetup (d : Control) : Control :=
  let at_ := ENDP0_RXADDR.toNat / 2
  { d with info := { d.info with
    bmRequestType := (d.pma at_).extractLsb' 0 8
    bRequest := (d.pma at_).extractLsb' 8 8
    wValue := byteSwap (d.pma (at_ + 1))
    wIndex := byteSwap (d.pma (at_ + 2))
    wLength := d.pma (at_ + 3) } }

/-- `Setup0_Process` -/
def setup0Process (m : Around) (d : Control) : Option Control :=
  let d := if d.info.controlState ≠ .pause then d.readSetup else d
  let d := d.setState .settingUp
  (if d.info.wLength = 0 then some d.noDataSetup0 else d.dataSetup0 m).map post0Process

/-- `SetDeviceAddress` -/
def setDeviceAddress (val : Byte) (d : Control) : Control := { d with daddr := val ||| 0x80 }

/-- `In0_Process` -/
def in0Process (m : Around) (d : Control) : Option Control :=
  (if d.info.controlState = .inData ∨ d.info.controlState = .lastInData then d.dataStageIn m
  else if d.info.controlState = .waitStatusIn then
    let d := if d.info.bRequest = SET_ADDRESS ∧ d.info.typeRecipient = STANDARD_REQUEST ||| DEVICE_RECIPIENT then
        { d.setDeviceAddress d.info.wValue0 with deviceState := .addressed }
      else d
    some (d.setState .stalled)
  else some (d.setState .stalled)).map post0Process

/-- `Out0_Process` -/
def out0Process (m : Around) (d : Control) : Option Control :=
  (if d.info.controlState = .outData ∨ d.info.controlState = .lastOutData then d.dataStageOut m
  else some (d.setState .stalled)).map post0Process

/-- `CTR_LP` at its start: the states are saved and set to NAK. -/
def taken (d : Control) : Control := { d.setEp 0 ⟨.nak, .nak⟩ with saveR := (d.ep 0).rx, saveT := (d.ep 0).tx }

/-- `CTR_LP` at its end. -/
def restored (d : Control) : Control := d.setEp 0 ⟨d.saveR, d.saveT⟩

/-- `USBD_Reset` -/
def usbdReset (d : Control) : Control :=
  { d with
    info := { d.info with
      currentConfiguration := 0
      currentFeature := USBD_ConfigDescriptor.getD 7 0
      currentInterface := 0 }
    ep := fun n => match n with
      | 0 => ⟨.valid, .stall⟩
      | 1 => ⟨.dis, .nak⟩
      | 2 => ⟨.valid, .dis⟩
      | 3 => ⟨.dis, .nak⟩
      | 4 => ⟨.dis, .nak⟩
      | 5 => ⟨.valid, .dis⟩
      | n => d.ep n
    daddr := 0x80
    deviceState := .attached }

end Control

/-! ## The bus -/

/-- The control endpoint with what waits for the interrupt: three bits of `USB_EP0R`,
and the one of `ISTR` for a bus reset. -/
structure Usb where
  control : Control
  ctrRx : Bool
  ctrTx : Bool
  setup : Bool
  reset : Bool

/-- What happens on the bus, and the interrupt. A packet from the host comes with what
else its buffer holds afterwards. -/
inductive Event where
  | setupToken (packet : Nat → Byte)
  | inToken
  | outToken (buffer : Nat → Byte)
  | interrupt
  | busReset

namespace Usb

/-- `CTR_LP` for endpoint 0; the direction bit of `wIstr` says that something was received. -/
def ctrLp (m : Around) (u : Usb) : Option Usb :=
  let d := u.control.taken
  if u.ctrRx = false then (d.in0Process m).map fun d => { u with control := d.restored, ctrTx := false }
  else if u.setup then (d.setup0Process m).map fun d => { u with control := d.restored, ctrRx := false }
  else (d.out0Process m).map fun d => { u with control := d.restored, ctrRx := false }

/-- `USB_Istr` for the control endpoint and the bus reset. -/
def usbIstr (m : Around) (u : Usb) : Option Usb :=
  (if u.ctrRx ∨ u.ctrTx then u.ctrLp m else some u).map fun u =>
    if u.reset then { u with control := u.control.usbdReset, reset := false } else u

/-- The packet the host gets for an IN token. -/
def sends (u : Usb) : Option (List Byte) :=
  if (u.control.ep 0).tx = .valid then some (u.control.pma.bytes ENDP0_TXADDR.toNat u.control.txCount.toNat) else none

/-- One event; a token that is answered with NAK or STALL, or not at all, changes nothing. -/
def step (m : Around) (u : Usb) : Event → Option Usb
  | .setupToken packet =>
    let d := u.control
    some (if (d.ep 0).rx ≠ .dis then
      { u with
        control := { d.setEp 0 ⟨.nak, .nak⟩ with pma := toPma 4 packet (ENDP0_RXADDR.toNat / 2) d.pma }
        ctrRx := true
        setup := true }
    else u)
  | .inToken =>
    let d := u.control
    some (if (d.ep 0).tx = .valid then { u with control := d.setEp 0 ⟨(d.ep 0).rx, .nak⟩, ctrTx := true } else u)
  | .outToken buffer =>
    let d := u.control
    some (if (d.ep 0).rx = .valid then
      { u with
        control := { d.setEp 0 ⟨.nak, (d.ep 0).tx⟩ with pma := toPma 32 buffer (ENDP0_RXADDR.toNat / 2) d.pma }
        ctrRx := true
        setup := false }
    else u)
  | .interrupt => u.usbIstr m
  | .busReset => some { u with control := { u.control with ep := fun _ => ⟨.dis, .dis⟩, daddr := 0 }, reset := true }

/-- A run; it ends where a handler writes or jumps where it must not. -/
def run (m : Around) (es : List Event) (u : Usb) : Option Usb := Run.run (fun e u => u.step m e) es u

/-- After `USB_Init`, before the first bus reset. -/
def init (pma : Pma) : Usb where
  control := {
    info := {
      bmRequestType := 0, bRequest := 0, wValue := 0, wIndex := 0, wLength := 0, controlState := .inData
      currentFeature := 0, currentConfiguration := 0, currentInterface := 0, currentAlternateSetting := 0
      ctrlInfo := ⟨0, 0, 0, none⟩ }
    dataMulMaxPacketSize := false
    statusInfo := 0
    uartConfig := List.replicate 8 0
    stringSerial := USBD_StringSerial
    udiskMaxLun := 0
    deviceState := .unconnected
    daddr := 0
    ep := fun _ => ⟨.dis, .dis⟩
    saveR := .dis
    saveT := .dis
    txCount := 0
    pma := pma }
  ctrRx := false
  ctrTx := false
  setup := false
  reset := false

end Usb

end OffLineProgrammer.UsbCore
