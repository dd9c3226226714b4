import OffLineProgrammer.UsbDisk.Commands

/-!
# What an accepted command block leaves

One statement for the whole `switch` (`scsiSwitch_accepted`): the flags, the
status, the length of the data stage and the reply of a block that is not
rejected. Nothing after this module opens the `switch`. `Ruled` collects what
holds of the disk's variables between any two packets.
-/

namespace OffLineProgrammer.UsbDisk
set_option autoImplicit false
open OffLineProgrammer.Lib

namespace BulkOnlyCmd

/-- The bound a command puts on its data stage. -/
def bound (m : BulkOnlyCmd) : Option (BitVec 32) :=
  match m.cmd with
  | .inquiry => some 0x24
  | .readFormatCapacity => some 0x0C
  | .readCapacity => some 0x08
  | .modeSense => some 0x0C
  | .modeSense2 => some 0x10
  | _ => none

def IsRdWr (m : BulkOnlyCmd) : Prop := m.IsRead ∨ m.IsWrite

instance (m : BulkOnlyCmd) : Decidable m.IsRdWr := by unfold IsRdWr; infer_instance

/-- The remaining length a command starts its data stage with. -/
def stageLen (f : UdiskFunction) (m : BulkOnlyCmd) : BitVec 32 :=
  if m.IsRdWr then m.transferLength * f.sectorSize
  else
    match m.bound with
    | some b => if m.dataLen > b then b else m.dataLen
    | none => m.dataLen

/-- The two commands that leave the status of the command before. -/
def KeepsStatus (m : BulkOnlyCmd) : Prop := m.cmd = .modeSense ∨ m.cmd = .modeSense2

instance (m : BulkOnlyCmd) : Decidable m.KeepsStatus := by unfold KeepsStatus; infer_instance

/-- The data stage is to the host, or from it. -/
def dataIn (m : BulkOnlyCmd) : Bool := m.dataLen != 0 && m.flag &&& 0x80 != 0
def dataOut (m : BulkOnlyCmd) : Bool := m.dataLen != 0 && m.flag &&& 0x80 == 0

/-- An unknown operation code, or a page that MODE SENSE(10) does not have. -/
def Refused (m : BulkOnlyCmd) : Prop := m.cmd = .unsupported ∨ (m.cmd = .modeSense2 ∧ m.cbBuf 2 ≠ 0x3F)

instance (m : BulkOnlyCmd) : Decidable m.Refused := by unfold Refused; infer_instance

theorem not_isRdWr {m : BulkOnlyCmd} {k : ScsiCmd} (cmd : m.cmd = k)
    (other : k ≠ .read10 ∧ k ≠ .write10 ∧ k ≠ .wrVerify10) : ¬ m.IsRdWr := by
  subst cmd
  rintro (read | write | verify)
  · exact other.1 read
  · exact other.2.1 write
  · exact other.2.2 verify

theorem not_keepsStatus {m : BulkOnlyCmd} {k : ScsiCmd} (cmd : m.cmd = k)
    (other : k ≠ .modeSense ∧ k ≠ .modeSense2) : ¬ m.KeepsStatus := by
  subst cmd
  rintro (sense | sense)
  · exact other.1 sense
  · exact other.2 sense

theorem IsWrite.not_keepsStatus {m : BulkOnlyCmd} (cmd : m.IsWrite) : ¬ m.KeepsStatus := by
  rcases cmd with write | verify
  · exact BulkOnlyCmd.not_keepsStatus write (by decide)
  · exact BulkOnlyCmd.not_keepsStatus verify (by decide)

theorem dataIn_empty {m : BulkOnlyCmd} (empty : m.dataLen = 0) : m.dataIn = false := by simp [dataIn, empty]

theorem dataOut_empty {m : BulkOnlyCmd} (empty : m.dataLen = 0) : m.dataOut = false := by simp [dataOut, empty]

/-- A data stage to the host is not one from it. -/
theorem dataIn_not_out {m : BulkOnlyCmd} (out : m.dataOut = true) : m.dataIn = false := by
  unfold dataOut at out
  unfold dataIn
  rw [Bool.and_eq_true, beq_iff_eq] at out
  rw [out.2, bne_self_eq_false, Bool.and_false]

theorem dataOut_not_in {m : BulkOnlyCmd} (dir : m.dataIn = true) : m.dataOut = false := by
  cases out : m.dataOut with
  | false => rfl
  | true => exact absurd ((dataIn_not_out out).symm.trans dir) Bool.false_ne_true

theorem dataIn_nonempty {m : BulkOnlyCmd} (dir : m.dataIn = true) : m.dataLen ≠ 0 := fun empty =>
  absurd ((dataIn_empty empty).symm.trans dir) Bool.false_ne_true

theorem dataOut_nonempty {m : BulkOnlyCmd} (dir : m.dataOut = true) : m.dataLen ≠ 0 := fun empty =>
  absurd ((dataOut_empty empty).symm.trans dir) Bool.false_ne_true

theorem stageLen_rdWr {m : BulkOnlyCmd} (flashId : Byte) (cmd : m.IsRdWr) :
    (m.stageLen (udiskFun flashId)).toNat = 4096 * m.sectors := by
  have small := m.sectors_lt
  have len : (m.transferLength * (udiskFun flashId).sectorSize).toNat = m.sectors * 4096 % 4294967296 :=
    BitVec.toNat_mul ..
  rw [stageLen, if_pos cmd, len]
  omega

/-- A bound is one of the five. -/
theorem bound_le {m : BulkOnlyCmd} {b : BitVec 32} (bound : m.bound = some b) : b.toNat ≤ 36 := by
  unfold BulkOnlyCmd.bound at bound
  split at bound <;> first | (cases bound; decide) | cases bound

theorem overlay_cbBuf (m : BulkOnlyCmd) (bytes : List Byte) :
    (m.overlay bytes).cbBuf 0 = bytes.getD 15 (m.cbBuf 0) := by
  simp only [cbBuf, overlay, Fin.isValue, Fin.val_zero, Nat.add_zero, Vector.getElem_ofFn]

end BulkOnlyCmd

namespace Udisk

/-- The reply the builder of the command writes, if it has one. -/
def response (f : UdiskFunction) (d : Udisk) : List Byte :=
  match d.mBOC.cmd with
  | .inquiry => inquiryReply f d
  | .readFormatCapacity => rdFormatCapacity f
  | .readCapacity => rdCapacity f
  | .modeSense => modeSense1A f
  | .modeSense2 => modeSense5A f
  | .requestSense => reqSense d
  | _ => []

/-- The disk after a block that is not rejected. -/
structure Accepted (f : UdiskFunction) (d e : Udisk) : Prop where
  en : e.en = d.en
  up : e.up = (d.up || d.mBOC.dataIn)
  down : e.down = (d.down || d.mBOC.dataOut)
  csw : e.csw = true
  tag : e.cbwTagSave = d.mBOC.tag
  len : e.transferDataLen = d.mBOC.stageLen f
  status : e.cswStatus = if d.mBOC.KeepsStatus then d.cswStatus else 0x00
  count : e.secPackCount = if d.mBOC.IsRdWr then 0 else d.secPackCount
  dispatch : e.mBOC.cbBuf 0 = CMD_U_READ10 ↔ d.mBOC.IsRead
  reply : e.endp2Bytes.take (response f d).length = response f d

section Switch

variable {f : UdiskFunction} {d : Udisk}

theorem endp2Bytes_mBOC {e : Udisk} (pointed : e.endp2Buf = .mBOC) : e.endp2Bytes = e.mBOC.toList := by
  simp only [endp2Bytes, pointed]

/-- A command that only reports success. -/
theorem Accepted.silent (other : ¬ d.mBOC.IsRdWr) (bound : d.mBOC.bound = none) (sets : ¬ d.mBOC.KeepsStatus)
    (none : response f d = []) : Accepted f d (cmdDealStatus (takeCbw d) 0x00 0x00 0x00) where
  en := rfl
  up := rfl
  down := rfl
  csw := rfl
  tag := rfl
  len := by simp only [cmdDealStatus, takeCbw, BulkOnlyCmd.stageLen, if_neg other, bound]
  status := by simp only [cmdDealStatus, if_neg sets]
  count := by simp only [cmdDealStatus, takeCbw, if_neg other]
  dispatch := (d.mBOC.isRead_iff).symm
  reply := by rw [none]; rfl

/-- A read or write command. -/
theorem Accepted.rdWr (cmd : d.mBOC.IsRdWr) (sets : ¬ d.mBOC.KeepsStatus) (none : response f d = []) :
    Accepted f d (cmdRdWrDealPre f (takeCbw d)) where
  en := rfl
  up := rfl
  down := rfl
  csw := rfl
  tag := rfl
  len := by simp only [cmdRdWrDealPre, cmdDealStatus, takeCbw, BulkOnlyCmd.stageLen, if_pos cmd]
  status := by simp only [cmdRdWrDealPre, cmdDealStatus, if_neg sets]
  count := by simp only [cmdRdWrDealPre, cmdDealStatus, if_pos cmd]
  dispatch := (d.mBOC.isRead_iff).symm
  reply := by rw [none]; rfl

/-- A command that puts a reply in the union and bounds the length. -/
theorem Accepted.replied {bytes : List Byte} {b : BitVec 32} {key asc status : Byte} (other : ¬ d.mBOC.IsRdWr)
    (bound : d.mBOC.bound = some b) (kept : status = if d.mBOC.KeepsStatus then d.cswStatus else 0x00)
    (builds : response f d = bytes) (short : bytes.length ≤ 31)
    (opcode : bytes.getD 15 (d.mBOC.cbBuf 0) ≠ CMD_U_READ10) :
    Accepted f d (cmdDealStatus (Udisk.reply (clampDataLen (takeCbw d) b) bytes) key asc status) where
  en := rfl
  up := rfl
  down := rfl
  csw := rfl
  tag := rfl
  len := by
    rw [BulkOnlyCmd.stageLen, if_neg other, bound]
    rfl
  status := kept
  count := by simp only [cmdDealStatus, Udisk.reply, clampDataLen, takeCbw, if_neg other]
  dispatch := by
    simp only [cmdDealStatus, Udisk.reply, clampDataLen, takeCbw, BulkOnlyCmd.overlay_cbBuf]
    exact iff_of_false opcode (fun read => other (Or.inl read))
  reply := by
    rw [endp2Bytes_mBOC rfl, builds]
    exact BulkOnlyCmd.overlay_take d.mBOC bytes short

/-- INQUIRY points at its table. -/
theorem Accepted.inquiry {tab : Vector Byte 36} (cmd : d.mBOC.cmd = .inquiry) (builds : response f d = tab.toList) :
    Accepted f d (cmdDealStatus { clampDataLen (takeCbw d) 0x24 with inquityTab := tab, endp2Buf := .inquityTab }
      0x00 0x00 0x00) where
  en := rfl
  up := rfl
  down := rfl
  csw := rfl
  tag := rfl
  len := by
    rw [BulkOnlyCmd.stageLen, if_neg (BulkOnlyCmd.not_isRdWr cmd (by decide)), BulkOnlyCmd.bound, cmd]
    rfl
  status := by rw [if_neg (BulkOnlyCmd.not_keepsStatus cmd (by decide))]; rfl
  count := by rw [if_neg (BulkOnlyCmd.not_isRdWr cmd (by decide))]; rfl
  dispatch := (d.mBOC.isRead_iff).symm
  reply := by
    rw [builds]
    exact List.take_of_length_le (Nat.le_refl _)

/-- REQUEST SENSE puts its reply in the union and leaves the length as it is. -/
theorem Accepted.requestSense (cmd : d.mBOC.cmd = .requestSense) :
    Accepted f d { Udisk.reply (takeCbw d) (reqSense (takeCbw d)) with cswStatus := 0x00 } where
  en := rfl
  up := rfl
  down := rfl
  csw := rfl
  tag := rfl
  len := by
    rw [BulkOnlyCmd.stageLen, if_neg (BulkOnlyCmd.not_isRdWr cmd (by decide)), BulkOnlyCmd.bound, cmd]
    rfl
  status := by rw [if_neg (BulkOnlyCmd.not_keepsStatus cmd (by decide))]
  count := by rw [if_neg (BulkOnlyCmd.not_isRdWr cmd (by decide))]; rfl
  dispatch := by
    simp only [Udisk.reply, takeCbw, BulkOnlyCmd.overlay_cbBuf]
    exact iff_of_false (show (0x00 : Byte) ≠ CMD_U_READ10 by decide) (by simp [BulkOnlyCmd.IsRead, cmd])
  reply := by
    have builds : response f d = reqSense (takeCbw d) := by simp only [response, cmd, reqSense, takeCbw]
    rw [endp2Bytes_mBOC rfl, builds]
    exact BulkOnlyCmd.overlay_take d.mBOC _ (by simp [reqSense])

/-- **The `switch` on a block that is not rejected.** -/
theorem scsiSwitch_accepted (flashId : Byte) (en : d.en = true) (accepted : d.rejected = false) :
    Accepted (udiskFun flashId) d (scsiSwitch (udiskFun flashId) (takeCbw d)).1 := by
  have on : (takeCbw d).en = true := en
  have same : (takeCbw d).mBOC = d.mBOC := rfl
  have opcode : ¬ d.mBOC.IsRead → d.mBOC.cbBuf 0 ≠ CMD_U_READ10 := mt (d.mBOC.isRead_iff).mpr
  unfold rejected at accepted
  unfold scsiSwitch
  rw [same]
  cases cmd : d.mBOC.cmd with
  | inquiry =>
    apply Accepted.inquiry cmd
    simp only [response, cmd, inquiryReply]
    rfl
  | readFormatCapacity =>
    simp only [on, if_true]
    exact Accepted.replied (BulkOnlyCmd.not_isRdWr cmd (by decide))
      (by simp only [BulkOnlyCmd.bound, cmd]) (if_neg (BulkOnlyCmd.not_keepsStatus cmd (by decide))).symm
      (by simp only [response, cmd]) (by simp [rdFormatCapacity, be32]) (opcode (by simp [BulkOnlyCmd.IsRead, cmd]))
  | readCapacity =>
    simp only [on, if_true]
    exact Accepted.replied (BulkOnlyCmd.not_isRdWr cmd (by decide))
      (by simp only [BulkOnlyCmd.bound, cmd]) (if_neg (BulkOnlyCmd.not_keepsStatus cmd (by decide))).symm
      (by simp only [response, cmd]) (by simp [rdCapacity, be32]) (opcode (by simp [BulkOnlyCmd.IsRead, cmd]))
  | read10 =>
    simp only [on, if_true]
    exact Accepted.rdWr (Or.inl cmd) (BulkOnlyCmd.not_keepsStatus cmd (by decide)) (by simp only [response, cmd])
  | wrVerify10 =>
    simp only [on, if_true]
    exact Accepted.rdWr (Or.inr (Or.inr cmd)) (BulkOnlyCmd.not_keepsStatus cmd (by decide)) (by simp only [response, cmd])
  | write10 =>
    simp only [on, if_true]
    exact Accepted.rdWr (Or.inr (Or.inl cmd)) (BulkOnlyCmd.not_keepsStatus cmd (by decide)) (by simp only [response, cmd])
  | modeSense =>
    simp only [on, if_true]
    have kept : Udisk.reply (clampDataLen (takeCbw d) 0x0C) (modeSense1A (udiskFun flashId)) =
        cmdDealStatus (Udisk.reply (clampDataLen (takeCbw d) 0x0C) (modeSense1A (udiskFun flashId))) d.senseKey
          d.senseAsc d.cswStatus := rfl
    rw [kept]
    exact Accepted.replied (BulkOnlyCmd.not_isRdWr cmd (by decide)) (by simp only [BulkOnlyCmd.bound, cmd])
      (if_pos (Or.inl cmd)).symm (by simp only [response, cmd]) (by simp [modeSense1A, be32])
      (opcode (by simp [BulkOnlyCmd.IsRead, cmd]))
  | modeSense2 =>
    have page : d.mBOC.cbBuf 2 = 0x3F := by simpa [cmd] using accepted
    rw [if_pos page]
    have kept : Udisk.reply (clampDataLen (takeCbw d) 0x10) (modeSense5A (udiskFun flashId)) =
        cmdDealStatus (Udisk.reply (clampDataLen (takeCbw d) 0x10) (modeSense5A (udiskFun flashId))) d.senseKey
          d.senseAsc d.cswStatus := rfl
    rw [kept]
    exact Accepted.replied (BulkOnlyCmd.not_isRdWr cmd (by decide)) (by simp only [BulkOnlyCmd.bound, cmd])
      (if_pos (Or.inr cmd)).symm (by simp only [response, cmd]) (by simp [modeSense5A, be32])
      -- the last byte of the sector size lies over the operation code
      (by simp [modeSense5A, be32, udiskFun, CMD_U_READ10])
  | requestSense => exact Accepted.requestSense cmd
  | testReady =>
    simp only [on, if_true]
    exact Accepted.silent (BulkOnlyCmd.not_isRdWr cmd (by decide))
      (by simp only [BulkOnlyCmd.bound, cmd]) (BulkOnlyCmd.not_keepsStatus cmd (by decide)) (by simp only [response, cmd])
  | prevtRemove =>
    exact Accepted.silent (BulkOnlyCmd.not_isRdWr cmd (by decide))
      (by simp only [BulkOnlyCmd.bound, cmd]) (BulkOnlyCmd.not_keepsStatus cmd (by decide)) (by simp only [response, cmd])
  | verify10 =>
    exact Accepted.silent (BulkOnlyCmd.not_isRdWr cmd (by decide))
      (by simp only [BulkOnlyCmd.bound, cmd]) (BulkOnlyCmd.not_keepsStatus cmd (by decide)) (by simp only [response, cmd])
  | startStop =>
    exact Accepted.silent (BulkOnlyCmd.not_isRdWr cmd (by decide))
      (by simp only [BulkOnlyCmd.bound, cmd]) (BulkOnlyCmd.not_keepsStatus cmd (by decide)) (by simp only [response, cmd])
  | unsupported => simp [cmd] at accepted

theorem rejected_iff {b : BulkOnlyCmd} (en : d.en = true) (block : d.mBOC = b) : d.rejected = true ↔ b.Refused := by
  subst block
  unfold rejected BulkOnlyCmd.Refused
  cases cmd : d.mBOC.cmd <;> simp [en]

theorem refused_rejected {b : BulkOnlyCmd} (en : d.en = true) (block : d.mBOC = b) (refused : b.Refused) :
    d.rejected = true :=
  (rejected_iff en block).mpr refused

/-- **The `switch` on a block that is rejected** while the disk is enabled. -/
theorem scsiSwitch_rejected (f : UdiskFunction) (en : d.en = true) (refused : d.rejected = true) :
    ∃ up, (d.up = true → up = true) ∧
      scsiSwitch f d = cmdDealFail { cmdDealStatus d 0x05 0x20 0x01 with up := up } := by
  unfold rejected at refused
  unfold scsiSwitch
  cases cmd : d.mBOC.cmd with
  | unsupported => exact ⟨true, fun _ => rfl, rfl⟩
  | modeSense2 =>
    have page : d.mBOC.cbBuf 2 ≠ 0x3F := by simpa [cmd] using refused
    exact ⟨d.up, id, by rw [if_neg page]; rfl⟩
  | _ => simp [cmd, en] at refused

@[simp] theorem receive_mBOC (pbuf : Vector Byte packSize) (d : Udisk) : (receive pbuf d).mBOC = blockOf pbuf := by
  rw [receive]

theorem receive_signed {pbuf : Vector Byte packSize} (sig : (blockOf pbuf).HasSignature) (d : Udisk) :
    (receive pbuf d).mBOC.HasSignature := by
  rw [receive]
  exact sig

/-- A block that is not rejected, before anything is sent. -/
theorem scsiCmdDeal_accepted (flashId : Byte) {pbuf : Vector Byte packSize} (en : d.en = true)
    (sig : (blockOf pbuf).HasSignature) (accepted : (receive pbuf d).rejected = false) :
    Accepted (udiskFun flashId) (receive pbuf d) (scsiCmdDeal (udiskFun flashId) (receive pbuf d)).1 ∧
      (scsiCmdDeal (udiskFun flashId) (receive pbuf d)).2 = [] := by
  have signed := receive_signed sig d
  have on : (receive pbuf d).en = true := by rw [receive, en]
  have switch := scsiSwitch_accepted flashId on accepted
  have deal : scsiCmdDeal (udiskFun flashId) (receive pbuf d) =
      scsiSwitch (udiskFun flashId) (takeCbw (receive pbuf d)) := if_pos signed
  rcases scsiCmdDeal_signed (udiskFun flashId) (receive pbuf d) signed with ⟨-, none, -⟩ | ⟨refused, -⟩
  · rw [deal] at none ⊢
    exact ⟨switch, none⟩
  · rw [accepted] at refused
    cases refused

/-- What a packet of 31 bytes with the signature does in the command state. -/
theorem outEpDeal_accepted (flashId : Byte) {pbuf : Vector Byte packSize} (en : d.en = true) (idle : d.down = false)
    (sig : (blockOf pbuf).HasSignature) (accepted : (receive pbuf d).rejected = false) :
    ∃ e, Accepted (udiskFun flashId) (receive pbuf d) e ∧ (scsiCmdDeal (udiskFun flashId) (receive pbuf d)).1 = e ∧
      outEpDeal (udiskFun flashId) pbuf 0x1F d = afterCmd (udiskFun flashId) e := by
  obtain ⟨leaves, calls⟩ := scsiCmdDeal_accepted flashId en sig accepted
  refine ⟨_, leaves, rfl, ?_⟩
  rw [outEpDeal_command (udiskFun flashId) idle, calls, List.nil_append]

theorem rejected_takeCbw (d : Udisk) : (takeCbw d).rejected = d.rejected := rfl

/-- The variables after `UDISK_CMD_Deal_Fail`. -/
def refused (d : Udisk) : Udisk := { cmdDealStatus d 0x05 0x20 0x01 with up := false, down := false }

theorem cmdDealFail_refused (d : Udisk) (up : Bool) :
    cmdDealFail { cmdDealStatus d 0x05 0x20 0x01 with up := up } = (refused d, stalls up d.down) := rfl

theorem afterCmd_refused (f : UdiskFunction) (d : Udisk) : afterCmd f (refused d) = (refused d, []) := by
  simp [afterCmd, refused, cmdDealStatus]

/-- What is left of a rejected one: nothing is sent. -/
theorem outEpDeal_rejected (f : UdiskFunction) {pbuf : Vector Byte packSize} (en : d.en = true) (idle : d.down = false)
    (sig : (blockOf pbuf).HasSignature) (rejected : (receive pbuf d).rejected = true) :
    ∃ up, ((takeCbw (receive pbuf d)).up = true → up = true) ∧ (scsiCmdDeal f (receive pbuf d)).1 = refused (takeCbw (receive pbuf d)) ∧
      outEpDeal f pbuf 0x1F d = (refused (takeCbw (receive pbuf d)), stalls up (takeCbw (receive pbuf d)).down) := by
  have on : (takeCbw (receive pbuf d)).en = true := by simp only [takeCbw, receive, en]
  obtain ⟨up, keeps, run⟩ := scsiSwitch_rejected f on ((rejected_takeCbw _).trans rejected)
  rw [cmdDealFail_refused] at run
  have deal : scsiCmdDeal f (receive pbuf d) = scsiSwitch f (takeCbw (receive pbuf d)) := if_pos (receive_signed sig d)
  rw [run] at deal
  refine ⟨up, keeps, congrArg Prod.fst deal, ?_⟩
  rw [outEpDeal_command f idle, deal, afterCmd_refused, List.append_nil]

end Switch

end Udisk

end OffLineProgrammer.UsbDisk
