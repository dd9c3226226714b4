import OffLineProgrammer.UsbDisk.Accepted

/-!
# The capacity the disk reports

Four commands report a capacity, each in its own layout: READ CAPACITY(10) the
last block address, READ FORMAT CAPACITIES and the block descriptors of both
MODE SENSE commands the number of blocks, all four the block length. The
builders of `Udisk.c` read the sector size alone, never the number of sectors,
so what the host decodes is the sector size in the place of the count.
-/

namespace OffLineProgrammer.UsbDisk
set_option autoImplicit false
open OffLineProgrammer.Lib

/-- `struct udisk_function` with the number of sectors `FLASH_Port_Init` stores in it;
`Udisk_Init` keeps the pointer, and no handler reads this field. -/
structure UdiskGeometry extends UdiskFunction where
  sectorNumber : BitVec 32

/-- The number the bytes spell, most significant first. -/
def bigEndian (bytes : List Byte) : Nat := bytes.foldl (fun n b => n * 256 + b.toNat) 0

theorem bigEndian_be32 (x : BitVec 32) : bigEndian (be32 x) = x.toNat := by
  simp only [bigEndian, be32, List.foldl_cons, List.foldl_nil, BitVec.toNat_setWidth, BitVec.toNat_ushiftRight,
    Nat.shiftRight_eq_div_pow]
  omega

/-- The lower three bytes of a word that needs no more. -/
theorem bigEndian_be32_low {x : BitVec 32} (small : x.toNat < 2 ^ 24) : bigEndian ((be32 x).drop 1) = x.toNat := by
  simp only [bigEndian, be32, List.drop_succ_cons, List.drop_zero, List.foldl_cons, List.foldl_nil,
    BitVec.toNat_setWidth, BitVec.toNat_ushiftRight, Nat.shiftRight_eq_div_pow]
  omega

/-- The commands that report a capacity. -/
inductive Report where
  | readCapacity | readFormatCapacity | modeSense6 | modeSense10
  deriving DecidableEq, Repr

namespace Report

def cmd : Report → ScsiCmd
  | readCapacity => .readCapacity
  | readFormatCapacity => .readFormatCapacity
  | modeSense6 => .modeSense
  | modeSense10 => .modeSense2

/-- Header and first descriptor. -/
def size : Report → Nat
  | readCapacity => 8
  | readFormatCapacity | modeSense6 => 12
  | modeSense10 => 16

/-- The builder of the reply. -/
def bytes (f : UdiskFunction) : Report → List Byte
  | readCapacity => Udisk.rdCapacity f
  | readFormatCapacity => Udisk.rdFormatCapacity f
  | modeSense6 => Udisk.modeSense1A f
  | modeSense10 => Udisk.modeSense5A f

/-- What a host reads in a report: number of blocks and block length. -/
def decode (bs : List Byte) : Report → Nat × Nat
  | readCapacity => (bigEndian (bs.take 4) + 1, bigEndian ((bs.drop 4).take 4))
  | readFormatCapacity | modeSense6 => (bigEndian ((bs.drop 4).take 4), bigEndian ((bs.drop 9).take 3))
  | modeSense10 => (bigEndian ((bs.drop 8).take 4), bigEndian ((bs.drop 13).take 3))

/-- The block asks for the report and for all of it. -/
structure Asked (r : Report) (m : BulkOnlyCmd) : Prop where
  signature : m.HasSignature
  cmd : m.cmd = r.cmd
  page : r = .modeSense10 → m.cbBuf 2 = 0x3F
  room : r.size ≤ m.dataLen.toNat
  toHost : m.flag &&& 0x80 ≠ 0

instance (r : Report) (m : BulkOnlyCmd) : Decidable (r.Asked m) :=
  decidable_of_iff (m.HasSignature ∧ m.cmd = r.cmd ∧ (r = .modeSense10 → m.cbBuf 2 = 0x3F) ∧ r.size ≤ m.dataLen.toNat ∧
      m.flag &&& 0x80 ≠ 0)
    ⟨fun ⟨signature, cmd, page, room, toHost⟩ => ⟨signature, cmd, page, room, toHost⟩,
      fun asked => ⟨asked.signature, asked.cmd, asked.page, asked.room, asked.toHost⟩⟩

end Report

/-- The reply bytes of a callback: those it sends from where `pEndp2_Buf` points. -/
def Action.sent : Action → List Byte
  | .usbSend buf len => buf.take len.toNat
  | _ => []

namespace Udisk

/-- The reply to the command block in a packet. -/
def reported (f : UdiskFunction) (d : Udisk) (pbuf : Vector Byte packSize) : List Byte :=
  (outEpDeal f pbuf 0x1F d).2.flatMap Action.sent

section Reports

variable {f : UdiskFunction} {d : Udisk} {pbuf : Vector Byte packSize} {r : Report}

/-- The disk when the reply has been built. -/
structure Built (f : UdiskFunction) (r : Report) (m : BulkOnlyCmd) (e : Udisk) : Prop where
  down : e.down = false
  up : e.up = true
  len : e.transferDataLen.toNat = r.size
  block : e.mBOC = m.overlay (r.bytes f)
  endp2 : e.endp2Buf = .mBOC

/-- A bound below the length asked for is the length sent. -/
theorem clampDataLen_toNat {b : BitVec 32} (fits : b.toNat ≤ d.transferDataLen.toNat) :
    (clampDataLen d b).transferDataLen.toNat = b.toNat := by
  unfold clampDataLen
  split
  · rfl
  · rename_i small
    rw [gt_iff_lt, BitVec.lt_def] at small
    exact Nat.le_antisymm (Nat.le_of_not_lt small) fits

theorem Built.reply {b : BitVec 32} (down : d.down = false) (up : d.up = true) (fits : b.toNat ≤ d.transferDataLen.toNat)
    (size : b.toNat = r.size) : Built f r d.mBOC (Udisk.reply (clampDataLen d b) (r.bytes f)) where
  down := down
  up := up
  len := by
    rw [Udisk.reply, clampDataLen_toNat fits, size]
  block := by rw [Udisk.reply, clampDataLen]
  endp2 := by rw [Udisk.reply]

theorem Built.status {m : BulkOnlyCmd} {e : Udisk} (built : Built f r m e) (key asc status : Byte) :
    Built f r m (cmdDealStatus e key asc status) :=
  ⟨built.down, built.up, built.len, built.block, built.endp2⟩

theorem scsiSwitch_report (en : d.en = true) (down : d.down = false) (up : d.up = true) (cmd : d.mBOC.cmd = r.cmd)
    (page : r = .modeSense10 → d.mBOC.cbBuf 2 = 0x3F) (room : r.size ≤ d.transferDataLen.toNat) :
    ∃ e, scsiSwitch f d = (e, []) ∧ Built f r d.mBOC e := by
  unfold scsiSwitch
  rw [cmd]
  cases r with
  | readCapacity =>
    exact ⟨_, by simp only [Report.cmd, en, if_true]; rfl, (Built.reply (b := 0x08) down up room rfl).status 0x00 0x00 0x00⟩
  | readFormatCapacity =>
    exact ⟨_, by simp only [Report.cmd, en, if_true]; rfl, (Built.reply (b := 0x0C) down up room rfl).status 0x00 0x00 0x00⟩
  | modeSense6 =>
    exact ⟨_, by simp only [Report.cmd, en, if_true]; rfl, Built.reply (b := 0x0C) down up room rfl⟩
  | modeSense10 =>
    exact ⟨_, by simp only [Report.cmd, page rfl, if_true]; rfl, Built.reply (b := 0x10) down up room rfl⟩

theorem scsiCmdDeal_report (en : d.en = true) (idle : d.down = false) (asked : r.Asked (blockOf pbuf)) :
    ∃ e, scsiCmdDeal f (receive pbuf d) = (e, []) ∧ Built f r (blockOf pbuf) e := by
  have room := asked.room
  have asks : (blockOf pbuf).dataLen ≠ 0 := by
    intro none
    rw [none] at room
    cases r <;> simp [Report.size] at room
  have block : (takeCbw (receive pbuf d)).mBOC = blockOf pbuf := by rw [takeCbw, receive_mBOC]
  have switch := scsiSwitch_report (f := f) (d := takeCbw (receive pbuf d)) (r := r) (by rw [takeCbw, receive, en])
    (by simpa [takeCbw, receive, idle] using fun _ => asked.toHost)
    (by simpa [takeCbw, receive] using Or.inr ⟨asks, asked.toHost⟩)
    (by rw [block]; exact asked.cmd) (by rw [block]; exact asked.page) (by rw [takeCbw, receive_mBOC]; exact room)
  rw [scsiCmdDeal, if_pos (receive_signed asked.signature d)]
  rw [block] at switch
  exact switch

/-- **The reply** is the start of the union with the builder's bytes laid over it,
unless these leave the code of READ10 where the operation code was. -/
theorem reported_eq (en : d.en = true) (idle : d.down = false) (asked : r.Asked (blockOf pbuf))
    (other : ((blockOf pbuf).overlay (r.bytes f)).cbBuf 0 ≠ CMD_U_READ10) :
    reported f d pbuf = ((blockOf pbuf).overlay (r.bytes f)).toList.take r.size := by
  obtain ⟨e, deal, built⟩ := scsiCmdDeal_report (f := f) en idle asked
  have short : ¬ e.transferDataLen > 64 := by
    have len := built.len
    rw [gt_iff_lt, BitVec.lt_def, len]
    cases r <;> simp [Report.size]
  have sends : (afterCmd f e).2 = [.usbSend e.endp2Bytes e.transferDataLen] := by
    rw [afterCmd_up f built.down built.up, upPack, if_neg (by rw [built.block]; exact other), bulkUpData, if_neg short]
  rw [reported, outEpDeal_command f idle, deal, List.nil_append, sends]
  simp only [List.flatMap_cons, List.flatMap_nil, List.append_nil, Action.sent, endp2Bytes, built.endp2, built.len,
    built.block]

/-- Three of the replies do not reach the operation code. -/
theorem reported_short (en : d.en = true) (idle : d.down = false) (asked : r.Asked (blockOf pbuf))
    (short : r ≠ .modeSense10) :
    reported f d pbuf = ((blockOf pbuf).overlay (r.bytes f)).toList.take r.size := by
  have code : (blockOf pbuf).cbBuf 0 ≠ CMD_U_READ10 := by
    intro code
    have read := (BulkOnlyCmd.isRead_iff _).mpr code
    rw [BulkOnlyCmd.IsRead, asked.cmd] at read
    cases r <;> cases read
  apply reported_eq en idle asked
  rw [BulkOnlyCmd.overlay_cbBuf]
  cases r with
  | modeSense10 => exact absurd rfl short
  | _ => exact code

/-! ## The decoded capacities -/

variable {g : UdiskGeometry}

/-- READ CAPACITY gives the sector size as the number of blocks. -/
theorem decode_readCapacity (en : d.en = true) (idle : d.down = false)
    (asked : Report.readCapacity.Asked (blockOf pbuf)) (size : 0 < g.sectorSize.toNat) :
    Report.readCapacity.decode (reported g.toUdiskFunction d pbuf) = (g.sectorSize.toNat, g.sectorSize.toNat) := by
  have bytes : reported g.toUdiskFunction d pbuf = be32 (g.sectorSize - 1) ++ be32 g.sectorSize := by
    rw [reported_short en idle asked (by decide)]
    exact BulkOnlyCmd.overlay_take (blockOf pbuf) (rdCapacity g.toUdiskFunction) (by simp [rdCapacity, be32])
  have last : (g.sectorSize - 1).toNat + 1 = g.sectorSize.toNat := by bv_omega
  have front : bigEndian ((be32 (g.sectorSize - 1) ++ be32 g.sectorSize).take 4) = (g.sectorSize - 1).toNat :=
    bigEndian_be32 _
  have back : bigEndian (((be32 (g.sectorSize - 1) ++ be32 g.sectorSize).drop 4).take 4) = g.sectorSize.toNat :=
    bigEndian_be32 _
  rw [bytes, Report.decode, front, back, last]

/-- READ FORMAT CAPACITIES gives the sector size as the number of blocks, and as
the block length three bytes of the length the host asked for. -/
theorem decode_readFormatCapacity (en : d.en = true) (idle : d.down = false)
    (asked : Report.readFormatCapacity.Asked (blockOf pbuf)) :
    Report.readFormatCapacity.decode (reported g.toUdiskFunction d pbuf) =
      (g.sectorSize.toNat, bigEndian (((blockOf pbuf).toList.take 12).drop 9)) := by
  have eight : (rdFormatCapacity g.toUdiskFunction).length = 8 := rfl
  have bytes : reported g.toUdiskFunction d pbuf =
      rdFormatCapacity g.toUdiskFunction ++ ((blockOf pbuf).toList.take 12).drop 8 := by
    rw [reported_short en idle asked (by decide), Report.bytes, Report.size,
      BulkOnlyCmd.overlay_take_more (blockOf pbuf) (rdFormatCapacity g.toUdiskFunction) (by decide) (by rw [eight]; decide), eight]
  obtain ⟨rest, left⟩ : ∃ rest, ((blockOf pbuf).toList.take 12).drop 8 = rest := ⟨_, rfl⟩
  have four : rest.length = 4 := by simp [← left]
  have count : bigEndian (((rdFormatCapacity g.toUdiskFunction ++ rest).drop 4).take 4) = g.sectorSize.toNat :=
    bigEndian_be32 _
  have length : ((rdFormatCapacity g.toUdiskFunction ++ rest).drop 9).take 3 = ((blockOf pbuf).toList.take 12).drop 9 := by
    rw [List.drop_append, eight, List.drop_of_length_le (by rw [eight]; decide), List.nil_append,
      List.take_of_length_le (by simp [four]), ← left, List.drop_drop]
  rw [bytes, left, Report.decode, count, length]

/-- MODE SENSE(6) gives one block less. -/
theorem decode_modeSense6 (en : d.en = true) (idle : d.down = false)
    (asked : Report.modeSense6.Asked (blockOf pbuf)) (size : 0 < g.sectorSize.toNat)
    (small : g.sectorSize.toNat < 2 ^ 24) :
    Report.modeSense6.decode (reported g.toUdiskFunction d pbuf) = (g.sectorSize.toNat - 1, g.sectorSize.toNat) := by
  have bytes : reported g.toUdiskFunction d pbuf =
      [0xB0, 0x00, 0x00, 0x08] ++ be32 (g.sectorSize - 1) ++ be32 g.sectorSize := by
    rw [reported_short en idle asked (by decide)]
    exact BulkOnlyCmd.overlay_take (blockOf pbuf) (modeSense1A g.toUdiskFunction) (by simp [modeSense1A, be32])
  have last : (g.sectorSize - 1).toNat = g.sectorSize.toNat - 1 := by bv_omega
  have count : bigEndian ((([0xB0, 0x00, 0x00, 0x08] ++ be32 (g.sectorSize - 1) ++ be32 g.sectorSize).drop 4).take 4) =
      (g.sectorSize - 1).toNat := bigEndian_be32 _
  have length : bigEndian ((([0xB0, 0x00, 0x00, 0x08] ++ be32 (g.sectorSize - 1) ++ be32 g.sectorSize).drop 9).take 3) =
      g.sectorSize.toNat := bigEndian_be32_low small
  rw [bytes, Report.decode, count, length, last]

/-- So does MODE SENSE(10), if its last byte is not taken for the code of READ10. -/
theorem decode_modeSense10 (en : d.en = true) (idle : d.down = false)
    (asked : Report.modeSense10.Asked (blockOf pbuf)) (size : 0 < g.sectorSize.toNat)
    (small : g.sectorSize.toNat < 2 ^ 24) (other : g.sectorSize.setWidth 8 ≠ CMD_U_READ10) :
    Report.modeSense10.decode (reported g.toUdiskFunction d pbuf) = (g.sectorSize.toNat - 1, g.sectorSize.toNat) := by
  have bytes : reported g.toUdiskFunction d pbuf =
      [0x00, 0x0E, 0x00, 0x00, 0x00, 0x00, 0x00, 0x08] ++ be32 (g.sectorSize - 1) ++ be32 g.sectorSize := by
    rw [reported_eq en idle asked (by rw [BulkOnlyCmd.overlay_cbBuf]; exact other)]
    exact BulkOnlyCmd.overlay_take (blockOf pbuf) (modeSense5A g.toUdiskFunction) (by simp [modeSense5A, be32])
  have last : (g.sectorSize - 1).toNat = g.sectorSize.toNat - 1 := by bv_omega
  have count : bigEndian ((([0x00, 0x0E, 0x00, 0x00, 0x00, 0x00, 0x00, 0x08] ++ be32 (g.sectorSize - 1) ++
      be32 g.sectorSize).drop 8).take 4) = (g.sectorSize - 1).toNat := bigEndian_be32 _
  have length : bigEndian ((([0x00, 0x0E, 0x00, 0x00, 0x00, 0x00, 0x00, 0x08] ++ be32 (g.sectorSize - 1) ++
      be32 g.sectorSize).drop 13).take 3) = g.sectorSize.toNat := bigEndian_be32_low small
  rw [bytes, Report.decode, count, length, last]

/-- The number of blocks and the block length a host takes from each report. -/
def told (g : UdiskGeometry) (m : BulkOnlyCmd) : Report → Nat × Nat
  | .readCapacity => (g.sectorSize.toNat, g.sectorSize.toNat)
  | .readFormatCapacity => (g.sectorSize.toNat, bigEndian ((m.toList.take 12).drop 9))
  | .modeSense6 | .modeSense10 => (g.sectorSize.toNat - 1, g.sectorSize.toNat)

/-- **What each report tells**; the number of sectors is in none. -/
theorem decode_reported (en : d.en = true) (idle : d.down = false) (asked : r.Asked (blockOf pbuf))
    (size : 0 < g.sectorSize.toNat) (small : g.sectorSize.toNat < 2 ^ 24)
    (other : r = .modeSense10 → g.sectorSize.setWidth 8 ≠ CMD_U_READ10) :
    r.decode (reported g.toUdiskFunction d pbuf) = told g (blockOf pbuf) r := by
  cases r with
  | readCapacity => exact decode_readCapacity en idle asked size
  | readFormatCapacity => exact decode_readFormatCapacity en idle asked
  | modeSense6 => exact decode_modeSense6 en idle asked size small
  | modeSense10 => exact decode_modeSense10 en idle asked size small (other rfl)

/-- **The reports never agree**: whatever the geometry, the state of the enabled
disk and the blocks that ask for the four reports, the host does not decode the
configured capacity from all of them, nor any other. -/
theorem capacity_disagrees (g : UdiskGeometry) (size : 0 < g.sectorSize.toNat) (small : g.sectorSize.toNat < 2 ^ 24)
    (d : Udisk) (en : d.en = true) (idle : d.down = false) (ask : Report → Vector Byte packSize)
    (asked : ∀ r, Report.Asked r (blockOf (ask r))) :
    (¬ ∀ r, Report.decode (reported g.toUdiskFunction d (ask r)) r = (g.sectorNumber.toNat, g.sectorSize.toNat)) ∧
    ¬ ∃ capacity, ∀ r, Report.decode (reported g.toUdiskFunction d (ask r)) r = capacity := by
  have disagree : ¬ ∃ capacity, ∀ r, Report.decode (reported g.toUdiskFunction d (ask r)) r = capacity := by
    rintro ⟨capacity, all⟩
    have count := (all .readCapacity).trans (all .modeSense6).symm
    rw [decode_reported en idle (asked .readCapacity) size small Report.noConfusion,
      decode_reported en idle (asked .modeSense6) size small Report.noConfusion] at count
    have blocks : g.sectorSize.toNat = g.sectorSize.toNat - 1 := congrArg Prod.fst count
    omega
  exact ⟨fun all => disagree ⟨_, all⟩, disagree⟩

end Reports

/-- A block that asks for each report whole. -/
def askReport : Report → Vector Byte packSize
  | .readCapacity => packet [0x55, 0x53, 0x42, 0x43, 1, 0, 0, 0, 0x08, 0, 0, 0, 0x80, 0, 0x0A, 0x25]
  | .readFormatCapacity =>
    packet [0x55, 0x53, 0x42, 0x43, 2, 0, 0, 0, 0xFC, 0, 0, 0, 0x80, 0, 0x0A, 0x23, 0, 0, 0, 0, 0, 0, 0, 0xFC]
  | .modeSense6 => packet [0x55, 0x53, 0x42, 0x43, 3, 0, 0, 0, 0xC0, 0, 0, 0, 0x80, 0, 0x06, 0x1A, 0, 0x3F, 0, 0xC0]
  | .modeSense10 =>
    packet [0x55, 0x53, 0x42, 0x43, 4, 0, 0, 0, 0xC0, 0, 0, 0, 0x80, 0, 0x0A, 0x5A, 0, 0x3F, 0, 0, 0, 0, 0, 0xC0]

theorem askReport_asked : ∀ r, Report.Asked r (blockOf (askReport r)) := by
  intro r
  cases r <;> decide

/-- 4096 sectors of 4096 bytes: the sizes agree, the reports do not. -/
theorem capacity_disagrees_square :
    ¬ ∃ capacity, ∀ r, Report.decode (reported (udiskFun 0x17) udiskInit (askReport r)) r = capacity :=
  (capacity_disagrees ⟨udiskFun 0x17, 4096⟩ (by decide) (by decide) udiskInit rfl rfl askReport askReport_asked).2

/-- 2048 sectors of 4096 bytes: READ CAPACITY answers 4096 blocks. -/
theorem capacity_doubled :
    ¬ ∀ r, Report.decode (reported (udiskFun 0x17) udiskInit (askReport r)) r = (2048, 4096) := by
  intro all
  have blocks := all .readCapacity
  rw [decode_readCapacity (g := ⟨udiskFun 0x17, 2048⟩) rfl rfl (askReport_asked .readCapacity) (by decide)] at blocks
  revert blocks
  decide

end Udisk

end OffLineProgrammer.UsbDisk
