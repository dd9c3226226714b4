import OffLineProgrammer.UsbDisk.Device

/-!
# What the disk's handlers can do

One statement per handler: which flags it leaves, and which callbacks it can
make. The modules on whole runs use these and never open a handler again.
-/

namespace OffLineProgrammer.UsbDisk
set_option autoImplicit false
open OffLineProgrammer.Lib

/-! ## Read and write blocks -/

namespace BulkOnlyCmd

def IsRead (m : BulkOnlyCmd) : Prop := m.cmd = .read10

def IsWrite (m : BulkOnlyCmd) : Prop := m.cmd = .write10 ∨ m.cmd = .wrVerify10

instance (m : BulkOnlyCmd) : Decidable m.IsRead := by unfold IsRead; infer_instance

instance (m : BulkOnlyCmd) : Decidable m.IsWrite := by unfold IsWrite; infer_instance

/-- The first sector and the number of sectors of a block. -/
def first (m : BulkOnlyCmd) : Nat := m.lba.toNat
def sectors (m : BulkOnlyCmd) : Nat := m.transferLength.toNat

/-- The transfer length has sixteen bits. -/
theorem sectors_lt (m : BulkOnlyCmd) : m.sectors < 65536 := by
  simp only [sectors, transferLength]
  have high := (m.cbBuf 7).isLt
  have low := (m.cbBuf 8).isLt
  bv_omega

theorem ofCode_read10 : ∀ op : Byte, ScsiCmd.ofCode op = .read10 ↔ op = CMD_U_READ10 := by decide

/-- READ10 is the only block whose data stage sends sectors. -/
theorem isRead_iff (m : BulkOnlyCmd) : m.IsRead ↔ m.cbBuf 0 = CMD_U_READ10 := ofCode_read10 (m.cbBuf 0)

/-- Bytes laid over the union are followed by what was there. -/
theorem overlay_take_more (m : BulkOnlyCmd) (bytes : List Byte) {n : Nat} (fits : n ≤ 31) (short : bytes.length ≤ n) :
    (m.overlay bytes).toList.take n = bytes ++ (m.toList.take n).drop bytes.length := by
  apply List.ext_getElem
  · simp only [List.length_take, List.length_append, List.length_drop, Vector.length_toList]
    omega
  · intro i hi hj
    simp only [List.length_take, Vector.length_toList] at hi
    rw [List.getElem_append]
    split
    · rename_i front
      simp only [List.getElem_take, Vector.getElem_toList, overlay, Vector.getElem_ofFn,
        List.getD_eq_getElem?_getD, List.getElem?_eq_getElem front, Option.getD_some]
    · rename_i back
      have next : bytes.length + (i - bytes.length) = i := by omega
      simp only [List.getElem_take, Vector.getElem_toList, overlay, Vector.getElem_ofFn,
        List.getElem_drop, next, List.getD_eq_default _ _ (Nat.le_of_not_lt back)]

/-- They are its first bytes. -/
theorem overlay_take (m : BulkOnlyCmd) (bytes : List Byte) (fits : bytes.length ≤ 31) :
    (m.overlay bytes).toList.take bytes.length = bytes := by
  rw [overlay_take_more m bytes fits (Nat.le_refl _)]
  have rest : (m.toList.take bytes.length).drop bytes.length = [] :=
    List.drop_eq_nil_of_le (List.length_take_le ..)
  rw [rest, List.append_nil]

end BulkOnlyCmd

/-! ## Calls -/

/-- The callbacks that only move data towards the host. -/
def Action.isUpload : Action → Bool
  | .readData .. | .usbSendPack .. | .usbSend .. => true
  | _ => false

/-- The sector address of an erase or a program. -/
def Action.flashAddr : Action → Option (BitVec 32)
  | .eraseSector addr => some addr
  | .writeData addr _ => some addr
  | _ => none

theorem Action.flashAddr_upload {a : Action} (h : a.isUpload = true) : a.flashAddr = none := by
  cases a <;> first | rfl | cases h

theorem Action.ne_rxStall_upload {a : Action} (h : a.isUpload = true) : a ≠ .rxStall := by
  rintro rfl
  cases h

namespace Udisk

variable (f : UdiskFunction) (d : Udisk)

/-- The command block gets no further than `UDISK_CMD_Deal_Fail`. -/
def rejected : Bool :=
  match d.mBOC.cmd with
  | .unsupported => true
  | .modeSense2 => d.mBOC.cbBuf 2 != 0x3F
  | .inquiry | .requestSense | .prevtRemove | .verify10 | .startStop => false
  | .readFormatCapacity | .readCapacity | .read10 | .wrVerify10 | .write10 | .modeSense | .testReady => !d.en

/-- The calls of `UDISK_CMD_Deal_Fail` with the flags `tx` and `rx`. -/
def stalls (tx rx : Bool) : List Action := (if tx then [.txStall] else []) ++ (if rx then [.rxStall] else [])

theorem mem_stalls {a : Action} {tx rx : Bool} :
    a ∈ stalls tx rx ↔ (a = .txStall ∧ tx = true) ∨ (a = .rxStall ∧ rx = true) := by
  cases tx <;> cases rx <;> simp [stalls]

/-- The flags that a handler may leave alone. -/
structure SameFlags (d d' : Udisk) : Prop where
  en : d'.en = d.en
  up : d'.up = d.up
  down : d'.down = d.down
  csw : d'.csw = d.csw

/-- The flags after `UDISK_CMD_Deal_Fail`. -/
structure Failed (d d' : Udisk) : Prop where
  en : d'.en = d.en
  up : d'.up = false
  down : d'.down = false
  csw : d'.csw = d.csw
  status : d'.cswStatus ≠ 0x00

theorem Failed.of_status {d e : Udisk} (en : e.en = d.en) (csw : e.csw = d.csw) (status : e.cswStatus ≠ 0x00) :
    Failed d (cmdDealFail e).1 :=
  ⟨en, rfl, rfl, csw, status⟩

/-- The two outcomes of a command block. -/
def Dealt (d : Udisk) (rejected : Bool) (r : Udisk × List Action) : Prop :=
  (rejected = false ∧ r.2 = [] ∧ SameFlags d r.1) ∨
  (rejected = true ∧ Failed d r.1 ∧ ∃ tx, r.2 = stalls tx d.down)

theorem Dealt.accept {r : Udisk × List Action} (calls : r.2 = []) (same : SameFlags d r.1) : Dealt d false r :=
  Or.inl ⟨rfl, calls, same⟩

/-- `UDISK_CMD_Deal_Fail` after a status, with the up flag possibly set. -/
theorem Dealt.fail (e : Udisk) (en : e.en = d.en) (down : e.down = d.down) (csw : e.csw = d.csw)
    (status : e.cswStatus ≠ 0x00) : Dealt d true (cmdDealFail e) :=
  Or.inr ⟨rfl, Failed.of_status en csw status, e.up, by rw [← down]; rfl⟩

/-- A command that needs the medium. -/
theorem Dealt.medium {r : Udisk × List Action} (calls : r.2 = []) (same : SameFlags d r.1) :
    Dealt d (!d.en) (if d.en then r else notReady d) := by
  cases en : d.en with
  | true => exact Dealt.accept d calls same
  | false => exact Dealt.fail d (cmdDealStatus d 0x02 0x3A 0x01) rfl rfl rfl (by simp [cmdDealStatus])

/-- **The `switch`**: a rejected block ends in `UDISK_CMD_Deal_Fail`, which
stalls an endpoint for each data stage; any other makes no call. -/
theorem scsiSwitch_dealt : Dealt d d.rejected (scsiSwitch f d) := by
  unfold scsiSwitch rejected
  cases d.mBOC.cmd with
  | inquiry => exact Dealt.accept d rfl ⟨rfl, rfl, rfl, rfl⟩
  | readFormatCapacity => exact Dealt.medium d rfl ⟨rfl, rfl, rfl, rfl⟩
  | readCapacity => exact Dealt.medium d rfl ⟨rfl, rfl, rfl, rfl⟩
  | read10 => exact Dealt.medium d rfl ⟨rfl, rfl, rfl, rfl⟩
  | wrVerify10 => exact Dealt.medium d rfl ⟨rfl, rfl, rfl, rfl⟩
  | write10 => exact Dealt.medium d rfl ⟨rfl, rfl, rfl, rfl⟩
  | modeSense => exact Dealt.medium d rfl ⟨rfl, rfl, rfl, rfl⟩
  | modeSense2 =>
    by_cases page : d.mBOC.cbBuf 2 = 0x3F
    · simp only [page, bne_self_eq_false, if_true]
      exact Dealt.accept d rfl ⟨rfl, rfl, rfl, rfl⟩
    · simp only [if_neg page, bne_iff_ne.mpr page]
      exact Dealt.fail d (cmdDealStatus d 0x05 0x20 0x01) rfl rfl rfl (by simp [cmdDealStatus])
  | requestSense => exact Dealt.accept d rfl (by constructor <;> simp only [reply])
  | testReady =>
    cases en : d.en with
    | true => exact Dealt.accept d rfl ⟨rfl, rfl, rfl, rfl⟩
    | false =>
      exact Dealt.fail d { cmdDealStatus d 0x02 0x3A 0x01 with up := true } rfl rfl rfl (by simp [cmdDealStatus])
  | prevtRemove => exact Dealt.accept d rfl ⟨rfl, rfl, rfl, rfl⟩
  | verify10 => exact Dealt.accept d rfl ⟨rfl, rfl, rfl, rfl⟩
  | startStop => exact Dealt.accept d rfl ⟨rfl, rfl, rfl, rfl⟩
  | unsupported =>
    exact Dealt.fail d { cmdDealStatus d 0x05 0x20 0x01 with up := true } rfl rfl rfl (by simp [cmdDealStatus])

/-- A read or write command sets its cursors. -/
theorem scsiSwitch_rdWr {d : Udisk} (en : d.en = true)
    (cmd : d.mBOC.cmd = .read10 ∨ d.mBOC.cmd = .write10 ∨ d.mBOC.cmd = .wrVerify10) :
    scsiSwitch f d = (cmdRdWrDealPre f d, []) := by
  unfold scsiSwitch
  rcases cmd with cmd | cmd | cmd <;> rw [cmd] <;> simp only [en, if_true]

/-- A signed block goes through the `switch` with its flags taken over. -/
theorem scsiCmdDeal_signed (sig : d.mBOC.HasSignature) : Dealt (takeCbw d) d.rejected (scsiCmdDeal f d) := by
  rw [scsiCmdDeal, if_pos sig]
  exact scsiSwitch_dealt f (takeCbw d)

/-- A signed read or write block sets the cursors and makes no call. -/
theorem scsiCmdDeal_rdWr (en : d.en = true) (pbuf : Vector Byte packSize) (sig : (blockOf pbuf).HasSignature)
    (rdWr : (blockOf pbuf).IsRead ∨ (blockOf pbuf).IsWrite) :
    scsiCmdDeal f (receive pbuf d) = (cmdRdWrDealPre f (takeCbw (receive pbuf d)), []) := by
  have on : (takeCbw (receive pbuf d)).en = true := by simp only [takeCbw, receive, en]
  rw [scsiCmdDeal, if_pos (show (receive pbuf d).mBOC.HasSignature from sig)]
  exact scsiSwitch_rdWr f on rdWr

/-- A block without the signature stalls both endpoints. -/
theorem scsiCmdDeal_unsigned (sig : ¬ d.mBOC.HasSignature) :
    Failed d (scsiCmdDeal f d).1 ∧ (scsiCmdDeal f d).2 = stalls true true := by
  rw [scsiCmdDeal, if_neg sig]
  exact ⟨⟨rfl, rfl, rfl, rfl, by simp [cmdDealFail, cmdDealStatus]⟩, rfl⟩

/-- No command block makes a flash call. -/
theorem scsiCmdDeal_calls : ∀ a ∈ (scsiCmdDeal f d).2, a.flashAddr = none := by
  have stall : ∀ tx rx, ∀ a ∈ stalls tx rx, a.flashAddr = none := by
    intro tx rx a mem
    rcases mem_stalls.mp mem with ⟨rfl, -⟩ | ⟨rfl, -⟩ <;> rfl
  intro a mem
  by_cases sig : d.mBOC.HasSignature
  · rcases scsiCmdDeal_signed f d sig with ⟨-, none, -⟩ | ⟨-, -, tx, calls⟩
    · rw [none] at mem
      cases mem
    · rw [calls] at mem
      exact stall _ _ a mem
  · rw [(scsiCmdDeal_unsigned f d sig).2] at mem
    exact stall _ _ a mem

/-! ## Packets to the host -/

theorem bulkUpData_upload : ∀ a ∈ (bulkUpData d).2, a.isUpload = true := by
  unfold bulkUpData
  split <;> simp [Action.isUpload]

/-- The first bytes of the union that `UDISK_Up_CSW` sends are those of the CSW. -/
theorem cswBytes_front (d : Udisk) : (d.mBOC.overlay d.cswBytes).toList.take 13 = d.cswBytes := by
  have size : d.cswBytes.length = 13 := by simp [cswBytes]
  have taken := BulkOnlyCmd.overlay_take d.mBOC d.cswBytes (by rw [size]; decide)
  rwa [size] at taken

theorem upCsw_upload : ∀ a ∈ (upCsw d).2, a.isUpload = true := by
  simp [upCsw, Action.isUpload]

theorem upPack_upload : ∀ a ∈ (upPack f d).2, a.isUpload = true := by
  unfold upPack
  split
  · simp [upOnePack, Action.isUpload]
  · exact bulkUpData_upload d

/-- A packet to the host leaves the other flags alone. -/
theorem upPack_flags : (upPack f d).1.en = d.en ∧ (upPack f d).1.down = d.down ∧ (upPack f d).1.csw = d.csw := by
  unfold upPack bulkUpData
  split
  · exact ⟨rfl, rfl, rfl⟩
  · split <;> exact ⟨rfl, rfl, rfl⟩

theorem inEpDeal_upload : ∀ a ∈ (inEpDeal f d).2, a.isUpload = true := by
  unfold inEpDeal
  split
  · exact upPack_upload f d
  · split
    · exact upCsw_upload d
    · simp

theorem afterCmd_upload : ∀ a ∈ (afterCmd f d).2, a.isUpload = true := by
  unfold afterCmd
  split
  · simp
  · split
    · exact upPack_upload f d
    · split
      · exact upCsw_upload d
      · simp

theorem afterCmd_down {d : Udisk} (down : d.down = true) : afterCmd f d = (d, []) := by
  simp only [afterCmd, down, if_true]

theorem afterCmd_up {d : Udisk} (down : d.down = false) (up : d.up = true) : afterCmd f d = upPack f d := by
  simp only [afterCmd, down, up, Bool.false_eq_true, if_false, if_true]

theorem afterCmd_csw {d : Udisk} (down : d.down = false) (up : d.up = false) (good : d.cswStatus = 0x00) :
    afterCmd f d = upCsw d := by
  simp only [afterCmd, down, up, good, Bool.false_eq_true, if_false, if_true]

/-- A status of failure is kept back. -/
theorem afterCmd_held {d : Udisk} (down : d.down = false) (up : d.up = false) (bad : d.cswStatus ≠ 0x00) :
    afterCmd f d = (d, []) := by
  simp only [afterCmd, down, up, if_neg bad, Bool.false_eq_true, if_false]

/-- What follows a command block keeps the direction flag from the host. -/
theorem afterCmd_flags : (afterCmd f d).1.en = d.en ∧ (afterCmd f d).1.down = d.down := by
  unfold afterCmd
  cases down : d.down with
  | true => simp [down]
  | false =>
    simp only [Bool.false_eq_true, if_false]
    split
    · exact ⟨(upPack_flags f d).1, (upPack_flags f d).2.1.trans down⟩
    · split
      · exact ⟨rfl, rfl⟩
      · exact ⟨rfl, down⟩

/-- In the data stage every packet is data, whatever its length. -/
theorem outEpDeal_data {d : Udisk} (down : d.down = true) (pbuf : Vector Byte packSize) (packlen : BitVec 16) :
    outEpDeal f pbuf packlen d = downOnePack f pbuf d := by
  simp only [outEpDeal, down, if_true]

/-- In the command state a packet of another length than a block's is dropped. -/
theorem outEpDeal_other {d : Udisk} (idle : d.down = false) (pbuf : Vector Byte packSize) {packlen : BitVec 16}
    (other : packlen ≠ 0x1F) : outEpDeal f pbuf packlen d = (d, []) := by
  simp only [outEpDeal, idle, Bool.false_eq_true, if_false, if_neg other]

/-- In the command state a packet of 31 bytes is a command block. -/
theorem outEpDeal_command {d : Udisk} (idle : d.down = false) (pbuf : Vector Byte packSize) :
    outEpDeal f pbuf 0x1F d =
      ((afterCmd f (scsiCmdDeal f (receive pbuf d)).1).1,
        (scsiCmdDeal f (receive pbuf d)).2 ++ (afterCmd f (scsiCmdDeal f (receive pbuf d)).1).2) := by
  simp only [outEpDeal, idle, Bool.false_eq_true, if_false, if_true]

/-- A command block makes no flash call. -/
theorem outEpDeal_calls {d : Udisk} (idle : d.down = false) (pbuf : Vector Byte packSize) :
    ∀ a ∈ (outEpDeal f pbuf 0x1F d).2, a.flashAddr = none := by
  intro a mem
  rw [outEpDeal_command f idle] at mem
  rcases List.mem_append.mp mem with deal | after
  · exact scsiCmdDeal_calls f _ a deal
  · exact Action.flashAddr_upload (afterCmd_upload f _ a after)

/-! ## One packet of a sector -/

section Packet

variable {d : Udisk} (flashId : Byte) (pbuf : Vector Byte packSize)

/-- The byte address `UDISK_Down_OnePack` computes for the current sector. -/
def secStartAddr (d : Udisk) : BitVec 32 := d.curSecLba * 4096 / 4096 * 4096

theorem secStartAddr_toNat (fits : d.curSecLba.toNat < 2 ^ 20) :
    d.secStartAddr.toNat = d.curSecLba.toNat * 4096 := by
  simp only [secStartAddr, BitVec.toNat_mul, BitVec.toNat_udiv, BitVec.ofNat_eq_ofNat,
    BitVec.toNat_ofNat, Nat.reducePow, Nat.reduceMod]
  omega

/-- The packet after this one is of the same sector. -/
theorem packs_inside {count : BitVec 16} (inside : count.toNat + 1 < 64) :
    ¬ (count + 1).setWidth 32 = (udiskFun flashId).sectorSize / 64 := by
  intro same
  have value := congrArg BitVec.toNat same
  simp only [udiskFun, BitVec.toNat_setWidth, BitVec.toNat_add, BitVec.toNat_udiv, BitVec.ofNat_eq_ofNat,
    BitVec.toNat_ofNat, Nat.reducePow, Nat.reduceMod, Nat.reduceDiv] at value
  omega

/-- This packet is the last of its sector. -/
theorem packs_whole {count : BitVec 16} (last : count.toNat = 63) :
    (count + 1).setWidth 32 = (udiskFun flashId).sectorSize / 64 := by
  apply BitVec.eq_of_toNat_eq
  simp only [udiskFun, BitVec.toNat_setWidth, BitVec.toNat_add, BitVec.toNat_udiv, BitVec.ofNat_eq_ofNat,
    BitVec.toNat_ofNat, Nat.reducePow, Nat.reduceMod, Nat.reduceDiv]
  omega

/-- The erase before the first packet of a sector. -/
def eraseFirst (d : Udisk) : List Action := if d.secPackCount = 0 then [.eraseSector d.secStartAddr] else []

/-- A packet inside a sector. -/
theorem downOnePack_inside (inside : d.secPackCount.toNat + 1 < 64) :
    downOnePack (udiskFun flashId) pbuf d =
      ({ d with secPackCount := d.secPackCount + 1, transferDataLen := d.transferDataLen - 64 },
        eraseFirst d ++ [.stage (d.secPackCount.toNat * packSize) pbuf]) := by
  have other := packs_inside flashId inside
  simp only [udiskFun] at other
  simp only [downOnePack, udiskFun, if_neg other, eraseFirst, secStartAddr]

/-- The last packet of a sector, and whether it is the last of the transfer. -/
theorem downOnePack_last (last : d.secPackCount.toNat = 63) :
    downOnePack (udiskFun flashId) pbuf d =
      (let e := { d with secPackCount := d.secPackCount + 1, transferDataLen := d.transferDataLen - 64 }
       let r := if d.transferDataLen - 64 = 0 then upCsw { e with down := false } else (e, [])
       ({ r.1 with secPackCount := 0, curSecLba := r.1.curSecLba + 1 },
        [.stage (63 * packSize) pbuf, .writeData d.secStartAddr 4096] ++ r.2)) := by
  have whole := packs_whole flashId last
  simp only [udiskFun] at whole
  have more : ¬ d.secPackCount = 0 := by
    intro same
    rw [same] at last
    cases last
  simp only [downOnePack, udiskFun, if_pos whole, if_neg more, secStartAddr, last]
  rfl

/-- The last packet of a sector that another one follows. -/
theorem downOnePack_sector (last : d.secPackCount.toNat = 63) (more : ¬ d.transferDataLen - 64 = 0) :
    downOnePack (udiskFun flashId) pbuf d =
      ({ d with secPackCount := 0, transferDataLen := d.transferDataLen - 64, curSecLba := d.curSecLba + 1 },
        [.stage (63 * packSize) pbuf, .writeData d.secStartAddr 4096]) := by
  rw [downOnePack_last flashId pbuf last]
  simp only [if_neg more, List.append_nil]

/-- The disk as it reports the end of the transfer. -/
def afterLast (d : Udisk) : Udisk :=
  { d with secPackCount := d.secPackCount + 1, transferDataLen := d.transferDataLen - 64, down := false }

/-- The last packet of the transfer. -/
theorem downOnePack_final (last : d.secPackCount.toNat = 63) (done : d.transferDataLen - 64 = 0) :
    downOnePack (udiskFun flashId) pbuf d =
      ({ (upCsw d.afterLast).1 with secPackCount := 0, curSecLba := d.curSecLba + 1 },
        [.stage (63 * packSize) pbuf, .writeData d.secStartAddr 4096] ++ (upCsw d.afterLast).2) := by
  rw [downOnePack_last flashId pbuf last]
  simp only [if_pos done, afterLast, upCsw]

end Packet

end Udisk

end OffLineProgrammer.UsbDisk
