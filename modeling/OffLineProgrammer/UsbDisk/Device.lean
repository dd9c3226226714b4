import OffLineProgrammer.Lib.ByteMem

/-!
# The USB disk

`devices/usbdev/Udisk.c`: the bulk-only transport and its SCSI commands. A
handler takes the disk's variables to their new values and lists the callbacks
it makes, in order (`Action`); the callbacks of `UdiskApp.c` are modelled in
`UsbDisk.Callbacks`. No branch of `Udisk.c` looks at sector data, so the list says
all that the handler does to the world.
-/

namespace OffLineProgrammer.UsbDisk
set_option autoImplicit false
open OffLineProgrammer.Lib

/-! ## Command codes, from Udisk.h -/

def CMD_U_TEST_READY : Byte := 0x00
def CMD_U_REQUEST_SENSE : Byte := 0x03
def CMD_U_INQUIRY : Byte := 0x12
def CMD_U_MODE_SENSE : Byte := 0x1A
def CMD_U_START_STOP : Byte := 0x1B
def CMD_U_PREVT_REMOVE : Byte := 0x1E
def CMD_U_READ_FORMAT_CAPACITY : Byte := 0x23
def CMD_U_READ_CAPACITY : Byte := 0x25
def CMD_U_READ10 : Byte := 0x28
def CMD_U_WRITE10 : Byte := 0x2A
def CMD_U_WR_VERIFY10 : Byte := 0x2E
def CMD_U_VERIFY10 : Byte := 0x2F
def CMD_U_MODE_SENSE2 : Byte := 0x5A

/-- The labels of the `switch` over the operation code. -/
inductive ScsiCmd where
  | inquiry | readFormatCapacity | readCapacity | read10 | wrVerify10 | write10 | modeSense | modeSense2
  | requestSense | testReady | prevtRemove | verify10 | startStop | unsupported
  deriving DecidableEq, Repr

def ScsiCmd.ofCode (op : Byte) : ScsiCmd :=
  if op = CMD_U_INQUIRY then .inquiry
  else if op = CMD_U_READ_FORMAT_CAPACITY then .readFormatCapacity
  else if op = CMD_U_READ_CAPACITY then .readCapacity
  else if op = CMD_U_READ10 then .read10
  else if op = CMD_U_WR_VERIFY10 then .wrVerify10
  else if op = CMD_U_WRITE10 then .write10
  else if op = CMD_U_MODE_SENSE then .modeSense
  else if op = CMD_U_MODE_SENSE2 then .modeSense2
  else if op = CMD_U_REQUEST_SENSE then .requestSense
  else if op = CMD_U_TEST_READY then .testReady
  else if op = CMD_U_PREVT_REMOVE then .prevtRemove
  else if op = CMD_U_VERIFY10 then .verify10
  else if op = CMD_U_START_STOP then .startStop
  else .unsupported

/-! ## The command block -/

/-- `BULK_ONLY_CMD`, the union as its bytes. -/
abbrev BulkOnlyCmd := Vector Byte 31

namespace BulkOnlyCmd

def sig (m : BulkOnlyCmd) : List Byte := [m[0], m[1], m[2], m[3]]

def tag (m : BulkOnlyCmd) : Vector Byte 4 := #v[m[4], m[5], m[6], m[7]]

/-- `mCBW_DataLen`, least significant byte first. -/
def dataLen (m : BulkOnlyCmd) : BitVec 32 :=
  (m[11].setWidth 32 <<< 24) + (m[10].setWidth 32 <<< 16) + (m[9].setWidth 32 <<< 8) + m[8].setWidth 32

def flag (m : BulkOnlyCmd) : Byte := m[12]

/-- For the literal indices of `cbBuf`. -/
instance cbBuf_neZero : NeZero 16 := ⟨by decide⟩

def cbBuf (m : BulkOnlyCmd) (i : Fin 16) : Byte := m[15 + i.val]

/-- The operation code. -/
def cmd (m : BulkOnlyCmd) : ScsiCmd := ScsiCmd.ofCode (m.cbBuf 0)

/-- The logical block address, most significant byte first. -/
def lba (m : BulkOnlyCmd) : BitVec 32 :=
  ((m.cbBuf 2).setWidth 32 <<< 24) + ((m.cbBuf 3).setWidth 32 <<< 16) + ((m.cbBuf 4).setWidth 32 <<< 8) +
    (m.cbBuf 5).setWidth 32

/-- The transfer length in sectors. -/
def transferLength (m : BulkOnlyCmd) : BitVec 32 :=
  ((m.cbBuf 7).setWidth 32 <<< 8) + (m.cbBuf 8).setWidth 32

/-- The first bytes of the union replaced. -/
def overlay (m : BulkOnlyCmd) (bytes : List Byte) : BulkOnlyCmd :=
  Vector.ofFn fun i => bytes.getD i.val m[i.val]

/-- The four bytes `'U' 'S' 'B' 'C'`. -/
def HasSignature (m : BulkOnlyCmd) : Prop := m.sig = [0x55, 0x53, 0x42, 0x43]

instance (m : BulkOnlyCmd) : Decidable m.HasSignature := by unfold HasSignature; infer_instance

end BulkOnlyCmd

abbrev packSize : Nat := 64

/-- A packet buffer that starts with `bytes`. -/
def packet (bytes : List Byte) : Vector Byte packSize := Vector.ofFn fun i => bytes.getD i.val 0

/-- WRITE10 of sector 8 alone. -/
def writeSector8 : Vector Byte packSize :=
  packet [0x55, 0x53, 0x42, 0x43, 0x01, 0x00, 0x00, 0x00, 0x00, 0x10, 0x00, 0x00, 0x00, 0x00, 0x0A,
    0x2A, 0x00, 0x00, 0x00, 0x00, 0x08, 0x00, 0x00, 0x01, 0x00]

/-- The 31 bytes of a packet as a command block. -/
def blockOf (pbuf : Vector Byte packSize) : BulkOnlyCmd := Vector.ofFn fun i => pbuf[i.val]

/-- The four bytes of a word, most significant first. -/
def be32 (x : BitVec 32) : List Byte :=
  [(x >>> 24).setWidth 8, (x >>> 16).setWidth 8, (x >>> 8).setWidth 8, x.setWidth 8]

/-! ## State and callbacks -/

/-- The data of `struct udisk_function`. -/
structure UdiskFunction where
  sectorSize : BitVec 32
  flashId : Byte

/-- `udisk_fun` of UdiskApp.c. -/
def udiskFun (flashId : Byte) : UdiskFunction := ⟨4096, flashId⟩

/-- Where `pEndp2_Buf` points. -/
inductive Endp2Buf where
  | null | inquityTab | mBOC
  deriving DecidableEq, Repr

/-- A callback of a handler. -/
inductive Action where
  | eraseSector (addr : BitVec 32)
  /-- The `memcpy` of a packet into `UDisk_Down_Buffer`. -/
  | stage (offset : Nat) (bytes : Vector Byte packSize)
  /-- `Udisk_Write_Data` from `UDisk_Down_Buffer`. -/
  | writeData (addr len : BitVec 32)
  /-- `Udisk_Read_Data` into `UDisk_Pack_Buffer`. -/
  | readData (addr len : BitVec 32)
  /-- `Udisk_Usb_Send` of `UDisk_Pack_Buffer`. -/
  | usbSendPack (len : BitVec 32)
  /-- `Udisk_Usb_Send` of the bytes at `pEndp2_Buf`. -/
  | usbSend (buf : List Byte) (len : BitVec 32)
  | txStall
  | rxStall
  deriving DecidableEq

/-- The variables of `Udisk.c`. -/
structure Udisk where
  /-- `Udisk_Status & DEF_UDISK_EN_FLAG` -/
  en : Bool
  /-- `Udisk_Transfer_Status`: a data stage to the host, one from it, a CSW due. -/
  up : Bool
  down : Bool
  csw : Bool
  cbwTagSave : Vector Byte 4
  senseKey : Byte
  senseAsc : Byte
  cswStatus : Byte
  transferDataLen : BitVec 32
  curSecLba : BitVec 32
  secPackCount : BitVec 16
  mBOC : BulkOnlyCmd
  inquityTab : Vector Byte 36
  endp2Buf : Endp2Buf
  deriving DecidableEq

/-- `UDISK_Inquity_Tab` as it is initialised. -/
def inquityTab₀ : Vector Byte 36 :=
  #v[0x02, 0x80, 0x02, 0x02, 0x1F, 0x00, 0x00, 0x00, 0x46, 0x6C, 0x61, 0x73, 0x68, 0x20, 0x20, 0x20, 0x55, 0x53,
    0x42, 0x20, 0x53, 0x70, 0x65, 0x63, 0x69, 0x61, 0x6C, 0x20, 0x44, 0x69, 0x73, 0x6B, 0x32, 0x2E, 0x44, 0x30]

/-- The variables after `Udisk_Init`. -/
def udiskInit : Udisk where
  en := true
  up := false
  down := false
  csw := false
  cbwTagSave := Vector.replicate 4 0
  senseKey := 0
  senseAsc := 0
  cswStatus := 0
  transferDataLen := 0
  curSecLba := 0
  secPackCount := 0
  mBOC := Vector.replicate 31 0
  inquityTab := inquityTab₀
  endp2Buf := .null

namespace Udisk

/-! ## Replies -/

/-- `UDISK_Rd_Format_Capacity` -/
def rdFormatCapacity (f : UdiskFunction) : List Byte := [0x00, 0x00, 0x00, 0x08] ++ be32 f.sectorSize

/-- `UDISK_Rd_Capacity` -/
def rdCapacity (f : UdiskFunction) : List Byte := be32 (f.sectorSize - 1) ++ be32 f.sectorSize

/-- `UDISK_Mode_Sense_1A` -/
def modeSense1A (f : UdiskFunction) : List Byte :=
  [0xB0, 0x00, 0x00, 0x08] ++ be32 (f.sectorSize - 1) ++ be32 f.sectorSize

/-- `UDISK_Mode_Senese_5A` -/
def modeSense5A (f : UdiskFunction) : List Byte :=
  [0x00, 0x0E, 0x00, 0x00, 0x00, 0x00, 0x00, 0x08] ++ be32 (f.sectorSize - 1) ++ be32 f.sectorSize

/-- `mBOC.ReqSense` -/
def reqSense (d : Udisk) : List Byte :=
  [0x70, 0x00, d.senseKey, 0x00, 0x00, 0x00, 0x00, 0x0A, 0x00, 0x00, 0x00, 0x00, d.senseAsc, 0x00,
    0x00, 0x00, 0x00, 0x00]

/-- `UDISK_Inquity_Tab` as INQUIRY fills it. -/
def inquiryReply (f : UdiskFunction) (d : Udisk) : List Byte :=
  (((((d.inquityTab.set 32 0).set 33 0).set 34 0).set 35 f.flashId).set 0 0x00).toList

/-- The bytes of the object `pEndp2_Buf` points to. -/
def endp2Bytes (d : Udisk) : List Byte :=
  match d.endp2Buf with
  | .null => []
  | .inquityTab => d.inquityTab.toList
  | .mBOC => d.mBOC.toList

/-! ## Handlers -/

/-- `UDISK_CMD_Deal_Status` -/
def cmdDealStatus (d : Udisk) (key asc status : Byte) : Udisk :=
  { d with senseKey := key, senseAsc := asc, cswStatus := status }

/-- `UDISK_CMD_Deal_Fail` -/
def cmdDealFail (d : Udisk) : Udisk × List Action :=
  ({ d with up := false, down := false },
    (if d.up then [.txStall] else []) ++ (if d.down then [.rxStall] else []))

/-- `CMD_RD_WR_Deal_Pre` -/
def cmdRdWrDealPre (f : UdiskFunction) (d : Udisk) : Udisk :=
  cmdDealStatus { d with
    curSecLba := d.mBOC.lba
    transferDataLen := d.mBOC.transferLength * f.sectorSize
    secPackCount := 0 } 0x00 0x00 0x00

/-- `if( UDISK_Transfer_DataLen > bound ) UDISK_Transfer_DataLen = bound;` -/
def clampDataLen (d : Udisk) (bound : BitVec 32) : Udisk :=
  { d with transferDataLen := if d.transferDataLen > bound then bound else d.transferDataLen }

/-- A reply put in the union, where `pEndp2_Buf` is pointed. -/
def reply (d : Udisk) (bytes : List Byte) : Udisk :=
  { d with mBOC := d.mBOC.overlay bytes, endp2Buf := .mBOC }

/-- The answer of a media command while the disk is not enabled. -/
def notReady (d : Udisk) : Udisk × List Action := cmdDealFail (cmdDealStatus d 0x02 0x3A 0x01)

/-- The part of `UDISK_SCSI_CMD_Deal` before the `switch`. -/
def takeCbw (d : Udisk) : Udisk :=
  { d with
    cbwTagSave := d.mBOC.tag
    transferDataLen := d.mBOC.dataLen
    up := d.up || (d.mBOC.dataLen != 0 && d.mBOC.flag &&& 0x80 != 0)
    down := d.down || (d.mBOC.dataLen != 0 && d.mBOC.flag &&& 0x80 == 0)
    csw := true }

/-- The `switch` of `UDISK_SCSI_CMD_Deal`. -/
def scsiSwitch (f : UdiskFunction) (d : Udisk) : Udisk × List Action :=
  match d.mBOC.cmd with
  | .inquiry =>
    let tab := (((d.inquityTab.set 32 0).set 33 0).set 34 0).set 35 f.flashId
    (cmdDealStatus { clampDataLen d 0x24 with inquityTab := tab.set 0 0x00, endp2Buf := .inquityTab } 0x00 0x00 0x00, [])
  | .readFormatCapacity =>
    if d.en then (cmdDealStatus (reply (clampDataLen d 0x0C) (rdFormatCapacity f)) 0x00 0x00 0x00, []) else notReady d
  | .readCapacity =>
    if d.en then (cmdDealStatus (reply (clampDataLen d 0x08) (rdCapacity f)) 0x00 0x00 0x00, []) else notReady d
  | .read10 => if d.en then (cmdRdWrDealPre f d, []) else notReady d
  | .wrVerify10 => if d.en then (cmdRdWrDealPre f d, []) else notReady d
  | .write10 => if d.en then (cmdRdWrDealPre f d, []) else notReady d
  | .modeSense => if d.en then (reply (clampDataLen d 0x0C) (modeSense1A f), []) else notReady d
  | .modeSense2 =>
    if d.mBOC.cbBuf 2 = 0x3F then (reply (clampDataLen d 0x10) (modeSense5A f), [])
    else cmdDealFail (cmdDealStatus d 0x05 0x20 0x01)
  | .requestSense => ({ reply d (reqSense d) with cswStatus := 0x00 }, [])
  | .testReady =>
    if d.en then (cmdDealStatus d 0x00 0x00 0x00, [])
    else cmdDealFail { cmdDealStatus d 0x02 0x3A 0x01 with up := true }
  | .prevtRemove => (cmdDealStatus d 0x00 0x00 0x00, [])
  | .verify10 => (cmdDealStatus d 0x00 0x00 0x00, [])
  | .startStop => (cmdDealStatus d 0x00 0x00 0x00, [])
  | .unsupported => cmdDealFail { cmdDealStatus d 0x05 0x20 0x01 with up := true }

/-- `UDISK_SCSI_CMD_Deal` -/
def scsiCmdDeal (f : UdiskFunction) (d : Udisk) : Udisk × List Action :=
  if d.mBOC.HasSignature then scsiSwitch f (takeCbw d)
  else cmdDealFail { cmdDealStatus d 0x05 0x20 0x02 with up := true, down := true }

/-- `UDISK_Bulk_UpData` -/
def bulkUpData (d : Udisk) : Udisk × List Action :=
  if d.transferDataLen > 64 then
    ({ d with transferDataLen := d.transferDataLen - 64 }, [.usbSend d.endp2Bytes 64])
  else
    ({ d with transferDataLen := 0, up := false }, [.usbSend d.endp2Bytes d.transferDataLen])

/-- `mBOC.mCSW` -/
def cswBytes (d : Udisk) : List Byte :=
  [0x55, 0x53, 0x42, 0x53] ++ d.cbwTagSave.toList ++ [0x00, 0x00, 0x00, 0x00, d.cswStatus]

/-- `UDISK_Up_CSW` -/
def upCsw (d : Udisk) : Udisk × List Action :=
  let mBOC := d.mBOC.overlay d.cswBytes
  ({ d with up := false, down := false, csw := false, mBOC := mBOC }, [.usbSend mBOC.toList 0x0D])

/-- `UDISK_Up_OnePack` -/
def upOnePack (f : UdiskFunction) (d : Udisk) : Udisk × List Action :=
  let addr := d.curSecLba * f.sectorSize + 64 * d.secPackCount.setWidth 32
  let count := d.secPackCount + 1
  let len := d.transferDataLen - 64
  let whole := count.setWidth 32 == f.sectorSize / 64
  ({ d with
      secPackCount := if whole then 0 else count
      curSecLba := if whole then d.curSecLba + 1 else d.curSecLba
      transferDataLen := len
      up := d.up && len != 0 },
    [.readData addr 64, .usbSendPack 64])

/-- `UDISK_Down_OnePack` -/
def downOnePack (f : UdiskFunction) (pbuf : Vector Byte packSize) (d : Udisk) : Udisk × List Action :=
  let secStartAddr := d.curSecLba * f.sectorSize / f.sectorSize * f.sectorSize
  let erase := if d.secPackCount = 0 then [.eraseSector secStartAddr] else []
  let stage := [.stage (d.secPackCount.toNat * packSize) pbuf]
  let d := { d with secPackCount := d.secPackCount + 1, transferDataLen := d.transferDataLen - 64 }
  if d.secPackCount.setWidth 32 = f.sectorSize / 64 then
    let r := if d.transferDataLen = 0 then upCsw { d with down := false } else (d, [])
    ({ r.1 with secPackCount := 0, curSecLba := r.1.curSecLba + 1 },
      erase ++ stage ++ [.writeData secStartAddr f.sectorSize] ++ r.2)
  else (d, erase ++ stage)

/-- The next packet to the host: sector data for READ10, else the reply. -/
def upPack (f : UdiskFunction) (d : Udisk) : Udisk × List Action :=
  if d.mBOC.cbBuf 0 = CMD_U_READ10 then upOnePack f d else bulkUpData d

/-- `UDISK_In_EP_Deal` -/
def inEpDeal (f : UdiskFunction) (d : Udisk) : Udisk × List Action :=
  if d.up then upPack f d
  else if d.csw then upCsw d
  else (d, [])

/-- What `UDISK_Out_EP_Deal` does after `UDISK_SCSI_CMD_Deal`. -/
def afterCmd (f : UdiskFunction) (d : Udisk) : Udisk × List Action :=
  if d.down then (d, [])
  else if d.up then upPack f d
  else if d.cswStatus = 0x00 then upCsw d
  else (d, [])

/-- The 31 bytes copied into the union. -/
def receive (pbuf : Vector Byte packSize) (d : Udisk) : Udisk :=
  { d with mBOC := blockOf pbuf }

/-- `UDISK_Out_EP_Deal` -/
def outEpDeal (f : UdiskFunction) (pbuf : Vector Byte packSize) (packlen : BitVec 16) (d : Udisk) :
    Udisk × List Action :=
  if d.down then downOnePack f pbuf d
  else if packlen = 0x1F then
    let r := scsiCmdDeal f (receive pbuf d)
    let s := afterCmd f r.1
    (s.1, r.2 ++ s.2)
  else (d, [])

end Udisk

/-- What the USB peripheral reports: a packet in `USBD_Endp5_BUFF`, or that the
host has read a packet. -/
inductive Event where
  | out (pbuf : Vector Byte packSize) (packlen : BitVec 16)
  | inDone

/-- The handler of an event. -/
def Event.deal (f : UdiskFunction) : Event → Udisk → Udisk × List Action
  | .out pbuf packlen, d => d.outEpDeal f pbuf packlen
  | .inDone, d => d.inEpDeal f

end OffLineProgrammer.UsbDisk
