import OffLineProgrammer.UsbDisk.Transfer

/-!
# The data stage of a read

An invariant on the number of packets ties the sector, the packet count and the
remaining length to the address of the next packet.
-/

namespace OffLineProgrammer.UsbDisk
set_option autoImplicit false
open OffLineProgrammer.Lib OffLineProgrammer.Storage Udisk Host

/-- The disk after `k` packets of the read `c`. -/
structure Reader (c : Io) (k : Nat) (d : Udisk) : Prop where
  en : d.en = true
  down : d.down = false
  csw : d.csw = true
  good : d.cswBytes = goodCsw c
  op : d.mBOC.cbBuf 0 = CMD_U_READ10
  cursor : 64 * d.curSecLba.toNat + d.secPackCount.toNat = 64 * c.first + k
  count : d.secPackCount.toNat < 64
  left : d.transferDataLen.toNat + 64 * k = 4096 * c.sectors
  up : d.up = decide (k < 64 * c.sectors)

section Reads

variable (flashId : Byte) {m : Mem} {c : Io} {wire : List (List Byte)} {h : Host} {d : Udisk} {k : Nat}

/-- The address of the next packet. -/
theorem Reader.address (r : Reader c k d) (more : k < 64 * c.sectors) :
    (d.curSecLba * 4096 + 64 * d.secPackCount.setWidth 32).toNat = 4096 * c.first + 64 * k := by
  have fits : c.first + c.sectors ≤ 4096 := c.fits
  have cursor := r.cursor
  have count := r.count
  bv_omega

/-- One packet moves the cursor. -/
theorem Reader.next (r : Reader c k d) (more : k < 64 * c.sectors) :
    Reader c (k + 1) (upOnePack (udiskFun flashId) d).1 := by
  have fits : c.first + c.sectors ≤ 4096 := c.fits
  obtain ⟨en, down, csw, good, op, cursor, count, left, up⟩ := r
  have len : (d.transferDataLen - 64).toNat + 64 * (k + 1) = 4096 * c.sectors := by bv_omega
  have final : ((d.transferDataLen - 64) != 0) = decide (k + 1 < 64 * c.sectors) := by
    rw [Bool.eq_iff_iff, bne_iff_ne, decide_eq_true_eq]
    constructor
    · intro rest
      bv_omega
    · intro rest zero
      rw [zero] at len
      simp at len
      omega
  have flag : (upOnePack (udiskFun flashId) d).1.up = decide (k + 1 < 64 * c.sectors) := by
    simp only [upOnePack, up, decide_eq_true more, Bool.true_and, final]
  by_cases inside : d.secPackCount.toNat + 1 < 64
  · have other := beq_eq_false_iff_ne.mpr (packs_inside flashId inside)
    refine ⟨en, down, csw, good, op, ?_, ?_, len, flag⟩
    · simp only [upOnePack, other, Bool.false_eq_true, if_false]
      bv_omega
    · simp only [upOnePack, other, Bool.false_eq_true, if_false]
      bv_omega
  · have whole := beq_iff_eq.mpr (packs_whole flashId (by omega : d.secPackCount.toNat = 63))
    refine ⟨en, down, csw, good, op, ?_, ?_, len, flag⟩
    · simp only [upOnePack, whole, if_true]
      bv_omega
    · simp only [upOnePack, whole, if_true]
      decide

/-- Packet `k` of the read. -/
def dataPacket (m : Mem) (c : Io) (k : Nat) : List Byte := m.read (4096 * c.first + 64 * k) 64

/-- The host has read `k` packets and the next one waits in EP4. -/
structure ReadAt (m : Mem) (c : Io) (wire : List (List Byte)) (k : Nat) (h : Host) : Prop where
  holds : h.env.Holds m
  sending : Sending h.env (dataPacket m c k)
  wire : h.wire = wire ++ (List.range k).map (dataPacket m c)
  disk : Reader c (k + 1) h.disk

/-- `UDISK_Up_OnePack` puts the next packet in EP4. -/
theorem upOnePack_reads (r : Reader c k d) (more : k < 64 * c.sectors) {env : Env} (holds : env.Holds m)
    {seen : List (List Byte)} (read : seen = wire ++ (List.range k).map (dataPacket m c)) :
    ∃ h', deal (upOnePack (udiskFun flashId) d) env seen = some h' ∧ ReadAt m c wire k h' := by
  have fits : c.first + c.sectors ≤ 4096 := c.fits
  have address := r.address more
  obtain ⟨w', run, holds', sending⟩ := sendSector_packet holds (a := d.curSecLba * 4096 + 64 * d.secPackCount.setWidth 32)
    (by rw [address]; simp only [chipSize]; omega)
  rw [address] at sending
  have calls : (upOnePack (udiskFun flashId) d).2 =
      [.readData (d.curSecLba * 4096 + 64 * d.secPackCount.setWidth 32) 64, .usbSendPack 64] := rfl
  refine ⟨⟨(upOnePack (udiskFun flashId) d).1, w', seen⟩, ?_, holds', sending, read, r.next flashId more⟩
  simp only [deal, calls, run, Option.bind_eq_bind, Option.bind_some]

/-- The block of a read puts the first packet in EP4. -/
theorem Idle.read (idle : Idle m wire h) (read : c.IsRead) :
    ∃ h', step (udiskFun flashId) (.out c.cbw 0x1F) h = some h' ∧ ReadAt m c wire 0 h' := by
  have deal := scsiCmdDeal_rdWr (udiskFun flashId) h.disk idle.en c.cbw c.signed (Or.inl read)
  have len := bne_iff_ne.mpr c.dataLen_ne
  have dir : (blockOf c.cbw).flag &&& 0x80 ≠ 0 := by
    rcases c.direction with ⟨-, dir, -⟩ | ⟨write, -⟩
    · exact dir
    · exact absurd read (c.isWrite_iff.mp write)
  obtain ⟨cursor, count, left, good⟩ := rdWrPre flashId c h.disk
  have down : (cmdRdWrDealPre (udiskFun flashId) (takeCbw (receive c.cbw h.disk))).down = false := by
    simp only [cmdRdWrDealPre, cmdDealStatus, takeCbw, receive, idle.down, beq_eq_false_iff_ne.mpr dir, Bool.and_false,
      Bool.or_false]
  have up : (cmdRdWrDealPre (udiskFun flashId) (takeCbw (receive c.cbw h.disk))).up = true := by
    simp only [cmdRdWrDealPre, cmdDealStatus, takeCbw, receive, len, bne_iff_ne.mpr dir, Bool.and_true, Bool.or_true]
  have op : (cmdRdWrDealPre (udiskFun flashId) (takeCbw (receive c.cbw h.disk))).mBOC.cbBuf 0 = CMD_U_READ10 := by
    simp only [cmdRdWrDealPre, cmdDealStatus, takeCbw, receive]
    exact (BulkOnlyCmd.isRead_iff (blockOf c.cbw)).mp read
  have en : (cmdRdWrDealPre (udiskFun flashId) (takeCbw (receive c.cbw h.disk))).en = true := by
    simp only [cmdRdWrDealPre, cmdDealStatus, takeCbw, receive, idle.en]
  have some_ := c.nonempty
  have reader : Reader c 0 (cmdRdWrDealPre (udiskFun flashId) (takeCbw (receive c.cbw h.disk))) := by
    refine ⟨en, down, rfl, good, op, ?_, ?_, ?_, ?_⟩
    · rw [cursor, count]
    · rw [count]; decide
    · rw [left, Nat.mul_zero, Nat.add_zero]
    · rw [up, eq_comm, decide_eq_true_eq]
      unfold Io.sectors
      omega
  have next : outEpDeal (udiskFun flashId) c.cbw 0x1F h.disk =
      upOnePack (udiskFun flashId) (cmdRdWrDealPre (udiskFun flashId) (takeCbw (receive c.cbw h.disk))) := by
    rw [outEpDeal_command (udiskFun flashId) idle.down, deal]
    simp only [afterCmd, reader.down, up, upPack, if_pos reader.op, Bool.false_eq_true, if_false, if_true,
      List.nil_append, Prod.eta]
  rw [step, next, ← idle.wire]
  exact upOnePack_reads flashId reader (by unfold Io.sectors; omega) idle.holds (by simp)

/-- The packets of the read. -/
def dataPackets (m : Mem) (c : Io) : List (List Byte) := (List.range (64 * c.sectors)).map (dataPacket m c)

/-- The wire after one more packet. -/
theorem ReadAt.seen (at_ : ReadAt m c wire k h) :
    h.wire ++ [packet4 h.env] = wire ++ (List.range (k + 1)).map (dataPacket m c) := by
  rw [at_.wire, at_.sending.2, List.range_succ, List.map_append, List.append_assoc]
  rfl

/-- The host reads a packet that is not the last. -/
theorem ReadAt.more (at_ : ReadAt m c wire k h) (more : k + 1 < 64 * c.sectors) :
    ∃ h', step (udiskFun flashId) .readIn h = some h' ∧ ReadAt m c wire (k + 1) h' := by
  have up : h.disk.up = true := by rw [at_.disk.up, decide_eq_true more]
  have next : inEpDeal (udiskFun flashId) h.disk = upOnePack (udiskFun flashId) h.disk := by
    simp only [inEpDeal, up, if_true, upPack, if_pos at_.disk.op]
  rw [step, if_pos at_.sending.1, next]
  exact upOnePack_reads flashId at_.disk more at_.holds.sent at_.seen

/-- The host reads the last packet: the CSW follows. -/
theorem ReadAt.last (at_ : ReadAt m c wire k h) (last : k + 1 = 64 * c.sectors) :
    ∃ h', step (udiskFun flashId) .readIn h = some h' ∧ CswDue m c (wire ++ dataPackets m c) h' := by
  have up : h.disk.up = false := by
    rw [at_.disk.up, last]
    exact decide_eq_false (Nat.lt_irrefl _)
  have next : inEpDeal (udiskFun flashId) h.disk = upCsw h.disk := by
    simp only [inEpDeal, up, at_.disk.csw, Bool.false_eq_true, if_false, if_true]
  have seen := at_.seen
  rw [last] at seen
  rw [step, if_pos at_.sending.1, next, seen]
  exact upCsw_due at_.disk.en at_.disk.good at_.holds.sent

/-- The read after `k` packets have been read, the CSW included. -/
def ReadPhase (m : Mem) (c : Io) (wire : List (List Byte)) (k : Nat) (h : Host) : Prop :=
  (k < 64 * c.sectors ∧ ReadAt m c wire k h) ∨
  (k = 64 * c.sectors ∧ CswDue m c (wire ++ dataPackets m c) h) ∨
  (64 * c.sectors < k ∧ Idle m (wire ++ (dataPackets m c ++ [goodCsw c])) h)

theorem ReadPhase.next (phase : ReadPhase m c wire k h) (more : k < 64 * c.sectors + 1) :
    ∃ h', step (udiskFun flashId) .readIn h = some h' ∧ ReadPhase m c wire (k + 1) h' := by
  rcases phase with ⟨inside, at_⟩ | ⟨all, due⟩ | ⟨past, -⟩
  · by_cases last : k + 1 = 64 * c.sectors
    · obtain ⟨h', run, due⟩ := at_.last flashId last
      exact ⟨h', run, Or.inr (Or.inl ⟨last, due⟩)⟩
    · obtain ⟨h', run, next⟩ := at_.more flashId (by omega)
      exact ⟨h', run, Or.inl ⟨by omega, next⟩⟩
  · obtain ⟨h', run, idle⟩ := due.readIn flashId
    rw [List.append_assoc] at idle
    exact ⟨h', run, Or.inr (Or.inr ⟨by omega, idle⟩)⟩
  · omega

theorem ReadPhase.holds (phase : ReadPhase m c wire k h) : h.flash = m := by
  rcases phase with ⟨-, at_⟩ | ⟨-, due⟩ | ⟨-, idle⟩
  · exact at_.holds.bus.stored
  · exact due.idle.holds.bus.stored
  · exact idle.holds.bus.stored

/-- **A read runs to its end**, sends its sectors, and never touches the flash. -/
theorem Idle.reads (idle : Idle m wire h) (read : c.IsRead) :
    Run.Throughout (step (udiskFun flashId)) (fun g => g.flash = m)
      (Idle m (wire ++ (dataPackets m c ++ [goodCsw c]))) c.script h := by
  have some_ : 0 < c.sectors := c.nonempty
  obtain ⟨h₁, run, at_⟩ := idle.read flashId read
  have start : ReadPhase m c wire 0 h₁ := Or.inl ⟨by omega, at_⟩
  have go : ∀ k e g, (List.replicate (64 * c.sectors + 1) HostEvent.readIn)[k]? = some e → ReadPhase m c wire k g →
      g.flash = m ∧ ∃ g', step (udiskFun flashId) e g = some g' ∧ ReadPhase m c wire (k + 1) g' := by
    intro k e g found phase
    rw [List.getElem?_replicate] at found
    split at found
    · rename_i more
      cases found
      exact ⟨phase.holds, phase.next flashId more⟩
    · cases found
  have rest := Run.throughout_indexed go start
  rw [List.length_replicate] at rest
  have final : ∀ g, ReadPhase m c wire (64 * c.sectors + 1) g → Idle m (wire ++ (dataPackets m c ++ [goodCsw c])) g := by
    rintro g (⟨less, -⟩ | ⟨same, -⟩ | ⟨-, idle⟩)
    · omega
    · omega
    · exact idle
  rw [Io.script, if_pos read]
  exact Run.Throughout.next idle.holds.bus.stored run (Run.throughout_mono (fun _ p => p) final rest)

end Reads

end OffLineProgrammer.UsbDisk
