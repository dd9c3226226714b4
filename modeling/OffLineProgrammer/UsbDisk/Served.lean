import OffLineProgrammer.UsbDisk.Port

/-!
# A supported command, packet by packet

`Command` is a well-formed block with its data packets, and `stages` what the
host does until the CSW is due: the block, the data packets, and the reads of the
data. A command ends in one way only (`stages_served`): its data packets are
sent, then its CSW, and the disk is between two commands. Without a data stage
a status of failure is kept back.
-/

namespace OffLineProgrammer.UsbDisk
set_option autoImplicit false
open OffLineProgrammer.Lib Udisk

/-! ## Well-formed supported commands -/

namespace BulkOnlyCmd

/-- The length and the direction are those of the command. -/
def WellFormed (m : BulkOnlyCmd) : Prop :=
  m.HasSignature ∧
  match m.cmd with
  | .read10 => m.dataLen.toNat = 4096 * m.sectors ∧ m.flag &&& 0x80 ≠ 0
  | .write10 | .wrVerify10 => m.dataLen.toNat = 4096 * m.sectors ∧ m.flag &&& 0x80 = 0
  | .inquiry | .readFormatCapacity | .readCapacity | .modeSense => m.flag &&& 0x80 ≠ 0
  | .modeSense2 => m.flag &&& 0x80 ≠ 0 ∧ m.cbBuf 2 = 0x3F
  | .requestSense => m.flag &&& 0x80 ≠ 0 ∧ m.dataLen.toNat ≤ 18
  | .testReady | .prevtRemove | .verify10 | .startStop => m.dataLen = 0
  | .unsupported => False

instance (m : BulkOnlyCmd) : Decidable m.WellFormed := by
  unfold WellFormed
  cases m.cmd <;> infer_instance

/-- The packets a well-formed command sends before its CSW. -/
def packetsIn (m : BulkOnlyCmd) : Nat :=
  if m.IsRead then 64 * m.sectors else if m.dataIn then 1 else 0

/-- The commands whose builder writes a reply. -/
def Replies (m : BulkOnlyCmd) : Prop :=
  m.cmd = .inquiry ∨ m.cmd = .readFormatCapacity ∨ m.cmd = .readCapacity ∨ m.cmd = .modeSense ∨ m.cmd = .modeSense2 ∨
    m.cmd = .requestSense

/-- The data stages of the well-formed commands. -/
inductive Stage (m : BulkOnlyCmd) : Prop where
  | none (empty : m.dataLen = 0)
  | reply (cmd : m.Replies) (dir : m.dataIn = true) (short : m.dataLen.toNat ≤ 36 ∨ m.bound ≠ none)
  | read (cmd : m.IsRead) (dir : m.dataIn = true) (length : m.dataLen.toNat = 4096 * m.sectors) (some_ : 0 < m.sectors)
  | write (cmd : m.IsWrite) (dir : m.dataOut = true) (length : m.dataLen.toNat = 4096 * m.sectors)
      (some_ : 0 < m.sectors)

section Stages

variable {m : BulkOnlyCmd}

theorem dataIn_of (some_ : m.dataLen ≠ 0) (dir : m.flag &&& 0x80 ≠ 0) : m.dataIn = true := by
  simp only [dataIn, Bool.and_eq_true, bne_iff_ne]
  exact ⟨some_, dir⟩

theorem dataOut_of (some_ : m.dataLen ≠ 0) (dir : m.flag &&& 0x80 = 0) : m.dataOut = true := by
  simp only [dataOut, Bool.and_eq_true, bne_iff_ne, beq_iff_eq]
  exact ⟨some_, dir⟩

theorem sectors_pos (some_ : m.dataLen ≠ 0) (length : m.dataLen.toNat = 4096 * m.sectors) : 0 < m.sectors := by
  apply Nat.pos_of_ne_zero
  intro zero
  rw [zero, Nat.mul_zero] at length
  exact some_ (BitVec.eq_of_toNat_eq length)

theorem WellFormed.stage (ok : m.WellFormed) : m.Stage := by
  obtain ⟨-, ok⟩ := ok
  by_cases empty : m.dataLen = 0
  · exact .none empty
  · cases cmd : m.cmd <;> simp only [cmd] at ok
    case read10 => exact .read cmd (dataIn_of empty ok.2) ok.1 (sectors_pos empty ok.1)
    case wrVerify10 => exact .write (Or.inr cmd) (dataOut_of empty ok.2) ok.1 (sectors_pos empty ok.1)
    case write10 => exact .write (Or.inl cmd) (dataOut_of empty ok.2) ok.1 (sectors_pos empty ok.1)
    case requestSense => exact .reply (by simp [Replies, cmd]) (dataIn_of empty ok.1) (Or.inl (by omega))
    case modeSense2 => exact .reply (by simp [Replies, cmd]) (dataIn_of empty ok.1) (Or.inr (by simp [bound, cmd]))
    case inquiry | readFormatCapacity | readCapacity | modeSense =>
      exact .reply (by simp [Replies, cmd]) (dataIn_of empty ok) (Or.inr (by simp [bound, cmd]))
    case testReady | prevtRemove | verify10 | startStop => exact absurd ok empty

theorem Replies.other (replies : m.Replies) : ¬ m.IsRdWr := by
  rcases replies with cmd | cmd | cmd | cmd | cmd | cmd <;> exact not_isRdWr cmd (by decide)

/-- The length of a read or write is that of its sectors. -/
theorem WellFormed.length (ok : m.WellFormed) (cmd : m.IsRdWr) : m.dataLen.toNat = 4096 * m.sectors := by
  obtain ⟨-, ok⟩ := ok
  rcases cmd with read | write | verify
  · rw [read] at ok; exact ok.1
  · rw [write] at ok; exact ok.1
  · rw [verify] at ok; exact ok.1

theorem WellFormed.sectors_zero (ok : m.WellFormed) (cmd : m.IsRdWr) (empty : m.dataLen = 0) : m.sectors = 0 := by
  have length := ok.length cmd
  rw [empty] at length
  simp only [BitVec.ofNat_eq_ofNat, BitVec.toNat_ofNat, Nat.zero_mod] at length
  omega

theorem WellFormed.packetsIn_zero (ok : m.WellFormed) (empty : m.dataLen = 0) : m.packetsIn = 0 := by
  unfold packetsIn
  split
  · rename_i read
    rw [ok.sectors_zero (Or.inl read) empty]
  · rw [dataIn_empty empty, if_neg Bool.false_ne_true]

theorem IsWrite.not_read (cmd : m.IsWrite) : ¬ m.IsRead := by
  rcases cmd with write | verify
  · rw [IsRead, write]; decide
  · rw [IsRead, verify]; decide

theorem packetsIn_write (cmd : m.IsWrite) (dir : m.dataOut = true) : m.packetsIn = 0 := by
  rw [packetsIn, if_neg (IsWrite.not_read cmd), dataIn_not_out dir]
  rfl

/-- Without data the transfer length is zero. -/
theorem WellFormed.stageLen_zero (ok : m.WellFormed) (flashId : Byte) (empty : m.dataLen = 0) :
    m.stageLen (udiskFun flashId) = 0 := by
  unfold stageLen
  split
  · rename_i cmd
    have zero : m.transferLength = 0 := BitVec.eq_of_toNat_eq (ok.sectors_zero cmd empty)
    simp [zero]
  · rw [empty]
    split
    · split
      · rename_i past
        exact absurd past (by simp [BitVec.lt_def])
      · rfl
    · rfl

/-- No well-formed command is rejected. -/
theorem WellFormed.accepted (ok : m.WellFormed) {d : Udisk} (en : d.en = true) (block : d.mBOC = m) : d.rejected = false := by
  obtain ⟨-, ok⟩ := ok
  subst block
  unfold rejected
  cases cmd : d.mBOC.cmd <;> simp only [cmd] at ok <;> simp [en]
  exact ok.2

/-- A reply fits one packet. -/
theorem stageLen_short (f : UdiskFunction) (other : ¬ m.IsRdWr) (short : m.dataLen.toNat ≤ 36 ∨ m.bound ≠ none) :
    (m.stageLen f).toNat ≤ 36 := by
  unfold stageLen
  rw [if_neg other]
  cases bound : m.bound with
  | none => simpa [bound] using short
  | some b =>
    have small := bound_le bound
    simp only
    split
    · exact small
    · bv_omega

end Stages

end BulkOnlyCmd

/-- A well-formed supported command with the data packets that follow it. -/
structure Command where
  cbw : Vector Byte packSize
  payload : List (Vector Byte packSize)
  wellFormed : (blockOf cbw).WellFormed
  length : payload.length = if (blockOf cbw).IsWrite then 64 * (blockOf cbw).sectors else 0

namespace Command

def block (c : Command) : BulkOnlyCmd := blockOf c.cbw

theorem ok (c : Command) : c.block.WellFormed := c.wellFormed

/-- The host until the CSW is due. -/
def stages (c : Command) : List PortEvent :=
  .out c.cbw 0x1F :: (c.payload.map (fun p => .out p 0x40) ++ List.replicate c.block.packetsIn .inDone)

/-- The host reads the CSW. -/
def script (c : Command) : List PortEvent := c.stages ++ [.inDone]

end Command

/-! ## What is sent -/

/-- The packet as a CSW, if it is one: thirteen bytes that begin with `'USBS'`. -/
def Action.csw? : Action → Option (List Byte)
  | .usbSend buf len => if len = 0x0D ∧ buf.take 4 = [0x55, 0x53, 0x42, 0x53] then some (buf.take 13) else none
  | _ => none

/-- A CSW without residue. -/
def cswOf (tag : Vector Byte 4) (status : Byte) : List Byte :=
  [0x55, 0x53, 0x42, 0x53] ++ tag.toList ++ [0x00, 0x00, 0x00, 0x00, status]

theorem cswOf_status (tag : Vector Byte 4) (status : Byte) : (cswOf tag status).getD 12 0 = status := by
  simp [cswOf]

/-- The packet of `UDISK_Up_CSW`. -/
def cswCall (d : Udisk) : Action := .usbSend (d.mBOC.overlay d.cswBytes).toList 0x0D

theorem upCsw_calls (d : Udisk) : (upCsw d).2 = [cswCall d] := rfl

theorem cswCall_csw (d : Udisk) : (cswCall d).csw? = some (cswOf d.cbwTagSave d.cswStatus) := by
  have taken := cswBytes_front d
  have front : (d.mBOC.overlay d.cswBytes).toList.take 4 = [0x55, 0x53, 0x42, 0x53] := by
    have four := congrArg (List.take 4) taken
    rw [List.take_take] at four
    exact four
  simp only [cswCall, Action.csw?, front, and_self, if_true, taken]
  rfl

/-- No reply begins with `'U'`. -/
theorem response_head {d : Udisk} (flashId : Byte) (replies : d.mBOC.Replies) :
    ∃ b, (response (udiskFun flashId) d).head? = some b ∧ b ≠ 0x55 := by
  unfold response
  rcases replies with cmd | cmd | cmd | cmd | cmd | cmd <;> rw [cmd]
  · exact ⟨0x00, by simp [inquiryReply, List.head?_eq_getElem?], by decide⟩
  · exact ⟨0x00, rfl, by decide⟩
  · exact ⟨0x00, by simp [rdCapacity, be32, udiskFun], by decide⟩
  · exact ⟨0xB0, rfl, by decide⟩
  · exact ⟨0x00, rfl, by decide⟩
  · exact ⟨0x70, rfl, by decide⟩

/-- No reply begins as a CSW does. -/
theorem reply_plain {d e : Udisk} {flashId : Byte} (accepted : Accepted (udiskFun flashId) d e)
    (replies : d.mBOC.Replies) (len : BitVec 32) : (Action.usbSend e.endp2Bytes len).csw? = none := by
  obtain ⟨b, built, other⟩ := response_head flashId replies
  have some_ : (response (udiskFun flashId) d).length ≠ 0 := by
    intro none
    rw [List.eq_nil_of_length_eq_zero none] at built
    cases built
  have differs : e.endp2Bytes.take 4 ≠ [0x55, 0x53, 0x42, 0x53] := by
    intro same
    have first := congrArg List.head? same
    have head := congrArg List.head? accepted.reply
    rw [List.head?_take, if_neg some_, built] at head
    rw [List.head?_take, if_neg (by decide), head] at first
    exact other (Option.some.inj first)
  simp only [Action.csw?, differs, and_false, if_false]

namespace Port

/-- The packets given to EP4. -/
def sent (p : Port) : List Action := p.calls.filter Action.isSend

/-- The status a command ends with. -/
def statusAfter (p : Port) (c : Command) : Byte := if c.block.KeepsStatus then p.disk.cswStatus else 0x00

/-- Between the last data packet and the CSW. -/
structure LastSent (c : Command) (p : Port) (data : List Action) (q : Port) : Prop where
  ruled : q.disk.Ruled
  up : q.disk.up = false
  down : q.disk.down = false
  csw : q.disk.csw = true
  left : q.disk.transferDataLen = 0
  tag : q.disk.cbwTagSave = c.block.tag
  status : q.disk.cswStatus = p.statusAfter c
  ep4 : q.ep4 = .valid
  sent : q.sent = p.sent ++ data

/-- The CSW is in EP4. -/
structure Reported (c : Command) (p : Port) (q : Port) : Prop where
  ruled : q.disk.Ruled
  up : q.disk.up = false
  down : q.disk.down = false
  csw : q.disk.csw = false
  left : q.disk.transferDataLen = 0
  status : q.disk.cswStatus = p.statusAfter c
  ep4 : q.ep4 = .valid
  sent : ∃ data a, q.sent = p.sent ++ data ++ [a] ∧ data.length = c.block.packetsIn ∧ (∀ b ∈ data, b.csw? = none) ∧
    a.csw? = some (cswOf c.block.tag (p.statusAfter c))

/-- The status is kept back: nothing was sent and nothing will be. -/
structure Held (c : Command) (p : Port) (q : Port) : Prop where
  ruled : q.disk.Ruled
  rest : q.AtRest
  left : q.disk.transferDataLen = 0
  status : q.disk.cswStatus = p.statusAfter c
  sent : q.sent = p.sent

section Phases

variable (flashId : Byte) {c : Command} {p q : Port} {data : List Action}

theorem sent_serve {r : Udisk × List Action} (returns : .rxStall ∉ r.2) :
    ∃ q, serve r p = some q ∧ q.disk = r.1 ∧ q.ep4 = App.armed p.ep4 r.2 ∧ q.sent = p.sent ++ r.2.filter Action.isSend :=
  ⟨_, serve_some returns, rfl, rfl, List.filter_append ..⟩

/-- A handler that ends with the CSW of `d`. -/
theorem serve_reports {r : Udisk × List Action} {d : Udisk} (returns : .rxStall ∉ r.2)
    (armed : App.armed q.ep4 r.2 = .valid) (sends : r.2.filter Action.isSend = [cswCall d]) (ruled : r.1.Ruled)
    (past : r.1.up = false ∧ r.1.down = false ∧ r.1.csw = false ∧ r.1.transferDataLen = 0)
    (tag : d.cbwTagSave = c.block.tag) (status : d.cswStatus = p.statusAfter c) (same : r.1.cswStatus = d.cswStatus)
    (before : q.sent = p.sent ++ data) (count : data.length = c.block.packetsIn) (plain : ∀ b ∈ data, b.csw? = none) :
    ∃ q', serve r q = some q' ∧ Reported c p q' := by
  obtain ⟨q', go, disk, ep4, sent⟩ := @sent_serve q r returns
  obtain ⟨up, down, csw, left⟩ := past
  refine ⟨q', go, disk ▸ ruled, by rw [disk, up], by rw [disk, down], by rw [disk, csw], by rw [disk, left],
    by rw [disk, same, status], ep4.trans armed, data, cswCall d, ?_, count, plain, ?_⟩
  · rw [sent, before, sends]
  · rw [cswCall_csw, tag, status]

/-- The CSW goes out. -/
theorem serve_csw {d : Udisk} (ruled : (upCsw d).1.Ruled) (left : d.transferDataLen = 0) (tag : d.cbwTagSave = c.block.tag)
    (status : d.cswStatus = p.statusAfter c) (before : q.sent = p.sent ++ data) (count : data.length = c.block.packetsIn)
    (plain : ∀ b ∈ data, b.csw? = none) : ∃ q', serve (upCsw d) q = some q' ∧ Reported c p q' :=
  serve_reports (by simp [upCsw_calls, cswCall]) rfl rfl ruled ⟨rfl, rfl, rfl, left⟩ tag status rfl before count plain

/-- The host reads the last data packet. -/
theorem LastSent.inDone (last : LastSent c p data q) (count : data.length = c.block.packetsIn)
    (plain : ∀ b ∈ data, b.csw? = none) : ∃ q', step (udiskFun flashId) .inDone q = some q' ∧ Reported c p q' := by
  have deal : inEpDeal (udiskFun flashId) q.disk = upCsw q.disk := by
    simp only [inEpDeal, last.up, last.csw, Bool.false_eq_true, if_false, if_true]
  have go : step (udiskFun flashId) .inDone q = serve (upCsw q.disk) { q with ep4 := .nak } := by
    rw [step, if_pos last.ep4, deal]
  rw [go]
  exact serve_csw last.ruled.upCsw last.left last.tag last.status last.sent count plain

/-- The block is taken. -/
theorem command_out (ruled : p.disk.Ruled) (rest : p.AtRest) (c : Command) :
    ∃ e, step (udiskFun flashId) (.out c.cbw 0x1F) p = serve (afterCmd (udiskFun flashId) e) p ∧
      Accepted (udiskFun flashId) (receive c.cbw p.disk) e ∧ (afterCmd (udiskFun flashId) e).1.Ruled ∧
      e.up = c.block.dataIn ∧ e.down = c.block.dataOut ∧ e.cswStatus = p.statusAfter c := by
  have en : (receive c.cbw p.disk).en = true := by rw [receive, ruled.en]
  have idle : (receive c.cbw p.disk).down = false := by rw [receive, rest.down]
  obtain ⟨e, accepted, -, run⟩ := outEpDeal_accepted flashId ruled.en rest.down c.wellFormed.1
    (c.wellFormed.accepted en (receive_mBOC c.cbw p.disk))
  refine ⟨e, by rw [step, run], accepted, accepted.ruled (ruled.receive c.cbw) idle, ?_, ?_, ?_⟩
  · rw [accepted.up, receive_mBOC, receive, rest.up, Bool.false_or]
    rfl
  · rw [accepted.down, receive_mBOC, idle, Bool.false_or]
    rfl
  · rw [accepted.status, receive_mBOC, receive]
    rfl

/-- The block of a command that sends data is taken, and the first packet is made. -/
theorem command_in (ruled : p.disk.Ruled) (rest : p.AtRest) (dir : c.block.dataIn = true) :
    ∃ e, step (udiskFun flashId) (.out c.cbw 0x1F) p = serve (upPack (udiskFun flashId) e) p ∧
      Accepted (udiskFun flashId) (receive c.cbw p.disk) e ∧ (upPack (udiskFun flashId) e).1.Ruled ∧
      e.up = true ∧ e.down = false ∧ e.cswStatus = p.statusAfter c := by
  obtain ⟨e, go, accepted, ruled', up, down, status⟩ := command_out flashId ruled rest c
  have dataOut : c.block.dataOut = false := BulkOnlyCmd.dataOut_not_in dir
  rw [dir] at up
  rw [dataOut] at down
  rw [afterCmd_up _ down up] at go ruled'
  exact ⟨e, go, accepted, ruled', up, down, status⟩

/-- A command without data. -/
theorem empty_out (ruled : p.disk.Ruled) (rest : p.AtRest) (empty : c.block.dataLen = 0) :
    ∃ q, step (udiskFun flashId) (.out c.cbw 0x1F) p = some q ∧
      ((p.statusAfter c = 0x00 ∧ Reported c p q) ∨ (p.statusAfter c ≠ 0x00 ∧ Held c p q)) := by
  obtain ⟨e, go, accepted, ruled', up, down, status⟩ := command_out flashId ruled rest c
  have dataIn : c.block.dataIn = false := BulkOnlyCmd.dataIn_empty empty
  have dataOut : c.block.dataOut = false := BulkOnlyCmd.dataOut_empty empty
  have left : e.transferDataLen = 0 := by
    rw [accepted.len, receive_mBOC]
    exact c.ok.stageLen_zero flashId empty
  have tag : e.cbwTagSave = c.block.tag := by
    rw [accepted.tag, receive_mBOC]
    rfl
  rw [dataIn] at up
  rw [dataOut] at down
  rw [go]
  by_cases good : e.cswStatus = 0x00
  · rw [afterCmd_csw _ down up good] at ruled' ⊢
    have count : ([] : List Action).length = c.block.packetsIn := by
      rw [c.ok.packetsIn_zero empty]
      rfl
    obtain ⟨q, go, reported⟩ := @serve_csw _ _ _ [] _ ruled' left tag status (List.append_nil _).symm count (by simp)
    exact ⟨q, go, Or.inl ⟨status.symm.trans good, reported⟩⟩
  · rw [afterCmd_held _ down up good] at ruled' ⊢
    obtain ⟨q, go, disk, ep4, sent⟩ := @sent_serve p (e, []) List.not_mem_nil
    refine ⟨q, go, Or.inr ⟨status ▸ good, ?_⟩⟩
    refine ⟨by rw [disk]; exact ruled', ⟨by rw [disk]; exact up, by rw [disk]; exact down, ep4.trans rest.ep4⟩,
      by rw [disk]; exact left, by rw [disk]; exact status, ?_⟩
    rw [sent]
    exact List.append_nil _

/-- A command with a reply: its one packet. -/
theorem reply_out (ruled : p.disk.Ruled) (rest : p.AtRest) (replies : c.block.Replies) (dir : c.block.dataIn = true)
    (short : c.block.dataLen.toNat ≤ 36 ∨ c.block.bound ≠ none) :
    ∃ q a, step (udiskFun flashId) (.out c.cbw 0x1F) p = some q ∧ LastSent c p [a] q ∧ a.csw? = none := by
  obtain ⟨e, go, accepted, ruled', -, down, status⟩ := command_in flashId ruled rest dir
  have block : (receive c.cbw p.disk).mBOC = c.block := receive_mBOC c.cbw p.disk
  have other : ¬ e.mBOC.cbBuf 0 = CMD_U_READ10 := by
    rw [accepted.dispatch, block]
    exact fun read => replies.other (Or.inl read)
  have one : ¬ e.transferDataLen > 64 := by
    have small := BulkOnlyCmd.stageLen_short (udiskFun flashId) replies.other short
    rw [← block, ← accepted.len] at small
    bv_omega
  have run : upPack (udiskFun flashId) e =
      ({ e with transferDataLen := 0, up := false }, [.usbSend e.endp2Bytes e.transferDataLen]) := by
    rw [upPack, if_neg other, bulkUpData, if_neg one]
  rw [run] at ruled'
  rw [go, run]
  obtain ⟨q, served, disk, ep4, sent⟩ := @sent_serve p
    ({ e with transferDataLen := 0, up := false }, [.usbSend e.endp2Bytes e.transferDataLen]) (by simp)
  refine ⟨q, .usbSend e.endp2Bytes e.transferDataLen, served, ?_, reply_plain accepted (block ▸ replies) _⟩
  refine ⟨disk ▸ ruled', by rw [disk], by rw [disk]; exact down, by rw [disk]; exact accepted.csw, by rw [disk],
    by rw [disk]; exact accepted.tag.trans (congrArg BulkOnlyCmd.tag block), by rw [disk]; exact status, ep4, sent⟩

/-- The disk after `j` packets of a read. -/
structure Reader (c : Command) (j : Nat) (d : Udisk) : Prop where
  up : d.up = decide (j < 64 * c.block.sectors)
  down : d.down = false
  csw : d.csw = true
  left : d.transferDataLen.toNat + 64 * j = 4096 * c.block.sectors
  opcode : d.mBOC.cbBuf 0 = CMD_U_READ10
  tag : d.cbwTagSave = c.block.tag
  status : d.cswStatus = 0x00

/-- One packet of a read. -/
theorem Reader.next {d : Udisk} {j : Nat} (reader : Reader c j d) (more : j < 64 * c.block.sectors) :
    Reader c (j + 1) (upPack (udiskFun flashId) d).1 ∧
      ∃ addr, (upPack (udiskFun flashId) d).2 = [.readData addr 64, .usbSendPack 64] := by
  have left := reader.left
  have small : d.transferDataLen.toNat < 2 ^ 32 := d.transferDataLen.isLt
  rw [upPack, if_pos reader.opcode]
  refine ⟨⟨?_, reader.down, reader.csw, ?_, reader.opcode, reader.tag, reader.status⟩, _, rfl⟩
  · show (d.up && d.transferDataLen - 64 != 0) = _
    rw [reader.up, decide_eq_true more, Bool.true_and, Bool.eq_iff_iff, bne_iff_ne, decide_eq_true_iff]
    constructor
    · intro rest
      bv_omega
    · intro further
      bv_omega
  · show (d.transferDataLen - 64).toNat + 64 * (j + 1) = _
    bv_omega

/-- `j` packets of a read are sent, the last of them is in EP4. -/
structure Reading (c : Command) (p : Port) (j : Nat) (q : Port) : Prop where
  ruled : q.disk.Ruled
  disk : Reader c j q.disk
  ep4 : q.ep4 = .valid
  sent : q.sent = p.sent ++ List.replicate j (.usbSendPack 64)

theorem Reader.serve {d : Udisk} {j : Nat} (reader : Reader c j d) (more : j < 64 * c.block.sectors)
    (ruled : (upPack (udiskFun flashId) d).1.Ruled)
    (before : q.sent = p.sent ++ List.replicate j (.usbSendPack 64)) :
    ∃ q', Port.serve (upPack (udiskFun flashId) d) q = some q' ∧ Reading c p (j + 1) q' := by
  obtain ⟨next, addr, calls⟩ := reader.next flashId more
  obtain ⟨q', go, disk, ep4, sent⟩ := @sent_serve q (upPack (udiskFun flashId) d) (by simp [calls])
  refine ⟨q', go, disk ▸ ruled, disk ▸ next, ?_, ?_⟩
  · rw [ep4, calls]
    rfl
  · rw [sent, before, calls, List.replicate_succ', ← List.append_assoc]
    rfl

/-- A read command sends its first packet at once. -/
theorem read_out (ruled : p.disk.Ruled) (rest : p.AtRest) (cmd : c.block.IsRead) (dir : c.block.dataIn = true)
    (some_ : 0 < c.block.sectors) : ∃ q, step (udiskFun flashId) (.out c.cbw 0x1F) p = some q ∧ Reading c p 1 q := by
  obtain ⟨e, go, accepted, ruled', up, down, status⟩ := command_in flashId ruled rest dir
  have block : (receive c.cbw p.disk).mBOC = c.block := receive_mBOC c.cbw p.disk
  have reader : Reader c 0 e := by
    refine ⟨?_, down, accepted.csw, ?_, ?_, accepted.tag.trans (congrArg BulkOnlyCmd.tag block), ?_⟩
    · rw [up, decide_eq_true (by omega)]
    · rw [accepted.len, block, BulkOnlyCmd.stageLen_rdWr flashId (Or.inl cmd), Nat.mul_zero, Nat.add_zero]
    · rw [accepted.dispatch, block]
      exact cmd
    · rw [status, statusAfter, if_neg (BulkOnlyCmd.not_keepsStatus cmd (by decide))]
  rw [go]
  exact reader.serve flashId (by omega) ruled' (List.append_nil _).symm

/-- The host reads a packet that is not the last. -/
theorem Reading.inDone {j : Nat} (reading : Reading c p j q) (more : j < 64 * c.block.sectors) :
    ∃ q', step (udiskFun flashId) .inDone q = some q' ∧ Reading c p (j + 1) q' := by
  have up : q.disk.up = true := by rw [reading.disk.up, decide_eq_true more]
  have deal : inEpDeal (udiskFun flashId) q.disk = upPack (udiskFun flashId) q.disk := by
    simp only [inEpDeal, up, if_true]
  have ruled : (inEpDeal (udiskFun flashId) q.disk).1.Ruled := reading.ruled.inEpDeal
  rw [deal] at ruled
  rw [step, if_pos reading.ep4, deal]
  exact reading.disk.serve flashId more ruled reading.sent

theorem Reading.last (reading : Reading c p (64 * c.block.sectors) q) (cmd : c.block.IsRead) :
    LastSent c p (List.replicate (64 * c.block.sectors) (.usbSendPack 64)) q := by
  have left := reading.disk.left
  refine ⟨reading.ruled, ?_, reading.disk.down, reading.disk.csw, ?_, reading.disk.tag, ?_, reading.ep4, reading.sent⟩
  · rw [reading.disk.up]
    exact decide_eq_false (Nat.lt_irrefl _)
  · apply BitVec.eq_of_toNat_eq
    show _ = 0
    omega
  · rw [reading.disk.status, statusAfter, if_neg (BulkOnlyCmd.not_keepsStatus cmd (by decide))]

/-- The disk after `k` packets of a write. -/
structure Writing (c : Command) (p : Port) (k : Nat) (q : Port) : Prop where
  ruled : q.disk.Ruled
  up : q.disk.up = false
  down : q.disk.down = true
  csw : q.disk.csw = true
  left : q.disk.transferDataLen.toNat + 64 * k = 4096 * c.block.sectors
  count : q.disk.secPackCount.toNat = k % 64
  tag : q.disk.cbwTagSave = c.block.tag
  status : q.disk.cswStatus = 0x00
  ep4 : q.ep4 = .nak
  sent : q.sent = p.sent

/-- A write command waits for its data. -/
theorem write_out (ruled : p.disk.Ruled) (rest : p.AtRest) (cmd : c.block.IsWrite) (dir : c.block.dataOut = true) :
    ∃ q, step (udiskFun flashId) (.out c.cbw 0x1F) p = some q ∧ Writing c p 0 q := by
  obtain ⟨e, go, accepted, ruled', up, down, status⟩ := command_out flashId ruled rest c
  have block : (receive c.cbw p.disk).mBOC = c.block := receive_mBOC c.cbw p.disk
  have sets : ¬ c.block.KeepsStatus := BulkOnlyCmd.IsWrite.not_keepsStatus cmd
  rw [BulkOnlyCmd.dataIn_not_out dir] at up
  rw [dir] at down
  rw [afterCmd_down _ down] at go ruled'
  obtain ⟨q, served, disk, ep4, sent⟩ := @sent_serve p (e, []) List.not_mem_nil
  refine ⟨q, go.trans served, disk ▸ ruled', by rw [disk, up], by rw [disk, down], by rw [disk, accepted.csw], ?_, ?_,
    ?_, ?_, ep4.trans rest.ep4, ?_⟩
  · rw [disk, accepted.len, block, BulkOnlyCmd.stageLen_rdWr flashId (Or.inr cmd), Nat.mul_zero, Nat.add_zero]
  · have cmd : c.block.IsRdWr := Or.inr cmd
    rw [disk, accepted.count, block, if_pos cmd]
    rfl
  · rw [disk, accepted.tag, block]
  · rw [disk, status, statusAfter, if_neg sets]
  · rw [sent]
    exact List.append_nil _

/-- A data packet that is not the last. -/
theorem Writing.next {k : Nat} (writing : Writing c p k q) (more : k + 1 < 64 * c.block.sectors)
    (pbuf : Vector Byte packSize) :
    ∃ q', step (udiskFun flashId) (.out pbuf 0x40) q = some q' ∧ Writing c p (k + 1) q' := by
  have left := writing.left
  have count := writing.count
  have ruled : (downOnePack (udiskFun flashId) pbuf q.disk).1.Ruled := writing.ruled.downOnePack writing.down pbuf
  have rest : (q.disk.transferDataLen - 64).toNat + 64 * (k + 1) = 4096 * c.block.sectors := by bv_omega
  rw [step, outEpDeal_data _ writing.down]
  by_cases last : q.disk.secPackCount.toNat = 63
  · have further : ¬ q.disk.transferDataLen - 64 = 0 := by bv_omega
    rw [downOnePack_sector flashId pbuf last further] at ruled ⊢
    obtain ⟨q', go, disk, ep4, sent⟩ := @sent_serve q
      ({ q.disk with
          secPackCount := 0, transferDataLen := q.disk.transferDataLen - 64, curSecLba := q.disk.curSecLba + 1 },
        [.stage (63 * packSize) pbuf, .writeData q.disk.secStartAddr 4096]) (by simp)
    refine ⟨q', go, disk ▸ ruled, by rw [disk, writing.up], by rw [disk, writing.down], by rw [disk, writing.csw],
      by rw [disk]; exact rest, ?_, by rw [disk, writing.tag], by rw [disk, writing.status],
      ep4.trans writing.ep4, ?_⟩
    · rw [disk]
      show 0 = (k + 1) % 64
      omega
    · rw [sent, writing.sent]
      exact List.append_nil _
  · have below := writing.ruled.count
    rw [downOnePack_inside flashId pbuf (by omega)] at ruled ⊢
    obtain ⟨returns, silent, same⟩ := inside_calls q.disk (q.disk.secPackCount.toNat * packSize) pbuf
    obtain ⟨q', go, disk, ep4, sent⟩ := @sent_serve q
      ({ q.disk with secPackCount := q.disk.secPackCount + 1, transferDataLen := q.disk.transferDataLen - 64 },
        eraseFirst q.disk ++ [Action.stage (q.disk.secPackCount.toNat * packSize) pbuf]) returns
    refine ⟨q', go, disk ▸ ruled, by rw [disk, writing.up], by rw [disk, writing.down], by rw [disk, writing.csw],
      by rw [disk]; exact rest, ?_, by rw [disk, writing.tag], by rw [disk, writing.status],
      (ep4.trans (same q.ep4)).trans writing.ep4, ?_⟩
    · rw [disk]
      show (q.disk.secPackCount + 1).toNat = (k + 1) % 64
      bv_omega
    · rw [sent, silent, writing.sent, List.append_nil]

/-- The last data packet brings the CSW. -/
theorem Writing.last {k : Nat} (writing : Writing c p k q) (cmd : c.block.IsWrite) (dir : c.block.dataOut = true)
    (all : k + 1 = 64 * c.block.sectors) (pbuf : Vector Byte packSize) :
    ∃ q', step (udiskFun flashId) (.out pbuf 0x40) q = some q' ∧ Reported c p q' := by
  have left := writing.left
  have count := writing.count
  have ruled : (downOnePack (udiskFun flashId) pbuf q.disk).1.Ruled := writing.ruled.downOnePack writing.down pbuf
  have done : q.disk.transferDataLen - 64 = 0 := by bv_omega
  have none : ([] : List Action).length = c.block.packetsIn := (BulkOnlyCmd.packetsIn_write cmd dir).symm
  have sets : ¬ c.block.KeepsStatus := BulkOnlyCmd.IsWrite.not_keepsStatus cmd
  have status : q.disk.cswStatus = p.statusAfter c := by rw [writing.status, statusAfter, if_neg sets]
  rw [step, outEpDeal_data _ writing.down]
  rw [downOnePack_final flashId pbuf (by omega) done] at ruled ⊢
  exact @serve_reports _ _ _ [] _ q.disk.afterLast (by simp [upCsw_calls, cswCall]) rfl rfl ruled
    ⟨rfl, rfl, rfl, done⟩ writing.tag status rfl (by rw [writing.sent, List.append_nil]) none (by simp)

/-! ## Whole commands -/

/-- The reads up to the last data packet. -/
theorem Reading.run {k : Nat} : ∀ {j : Nat} {q : Port}, Reading c p j q → j + k = 64 * c.block.sectors →
    ∃ q', Run.run (step (udiskFun flashId)) (List.replicate k .inDone) q = some q' ∧
      Reading c p (64 * c.block.sectors) q' := by
  induction k with
  | zero =>
    intro j q reading all
    rw [Nat.add_zero] at all
    exact ⟨q, rfl, all ▸ reading⟩
  | succ k ih =>
    intro j q reading all
    obtain ⟨q₁, go, next⟩ := reading.inDone flashId (by omega)
    rw [List.replicate_succ, Run.run_cons go]
    exact ih next (by omega)

/-- The data packets of a write. -/
theorem Writing.run (cmd : c.block.IsWrite) (dir : c.block.dataOut = true) : ∀ {ps : List (Vector Byte packSize)} {k : Nat}
    {q : Port}, Writing c p k q → 0 < ps.length → k + ps.length = 64 * c.block.sectors →
    ∃ q', Run.run (step (udiskFun flashId)) (ps.map fun b => .out b 0x40) q = some q' ∧ Reported c p q' := by
  intro ps
  induction ps with
  | nil => intro k q _ some_; cases some_
  | cons b ps ih =>
    intro k q writing _ all
    rw [List.length_cons] at all
    by_cases more : ps = []
    · subst more
      obtain ⟨q', go, reported⟩ := writing.last flashId cmd dir all b
      exact ⟨q', Run.run_cons go, reported⟩
    · have rest : 0 < ps.length := List.length_pos_of_ne_nil more
      obtain ⟨q₁, go, next⟩ := writing.next flashId (by omega) b
      rw [List.map_cons, Run.run_cons go]
      exact ih next rest (by omega)

/-- A command without data packets from the host. -/
theorem stages_in (nothing : c.payload = []) :
    c.stages = .out c.cbw 0x1F :: List.replicate c.block.packetsIn .inDone := by
  rw [Command.stages, nothing, List.map_nil, List.nil_append]

theorem payload_nil (other : ¬ c.block.IsWrite ∨ c.block.sectors = 0) : c.payload = [] := by
  apply List.eq_nil_of_length_eq_zero
  have length := c.length
  split at length
  · rename_i write
    rcases other with read | zero
    · exact absurd write read
    · have none : (blockOf c.cbw).sectors = 0 := zero
      rw [length, none]
  · exact length

/-- **Every command ends in its CSW**, or keeps it back where it has no data and
leaves a status of failure as it was. -/
theorem stages_served (flashId : Byte) (ruled : p.disk.Ruled) (rest : p.AtRest) (c : Command) :
    ∃ q, Run.run (step (udiskFun flashId)) c.stages p = some q ∧
      ((¬ (c.block.dataLen = 0 ∧ p.statusAfter c ≠ 0x00) ∧ Reported c p q) ∨
        (c.block.dataLen = 0 ∧ p.statusAfter c ≠ 0x00 ∧ Held c p q)) := by
  cases c.ok.stage with
  | none empty =>
    have payload : c.payload = [] := payload_nil (by
      by_cases write : c.block.IsWrite
      · exact Or.inr (c.ok.sectors_zero (Or.inr write) empty)
      · exact Or.inl write)
    rw [stages_in payload, c.ok.packetsIn_zero empty]
    obtain ⟨q, go, ends⟩ := empty_out flashId ruled rest empty
    refine ⟨q, Run.run_cons go, ?_⟩
    rcases ends with ⟨good, reported⟩ | ⟨bad, held⟩
    · exact Or.inl ⟨fun h => h.2 good, reported⟩
    · exact Or.inr ⟨empty, bad, held⟩
  | reply cmd dir short =>
    have nonempty : c.block.dataLen ≠ 0 := BulkOnlyCmd.dataIn_nonempty dir
    have one : c.block.packetsIn = 1 := by
      rw [BulkOnlyCmd.packetsIn, if_neg (fun read => cmd.other (Or.inl read)), if_pos dir]
    rw [stages_in (payload_nil (Or.inl fun write => cmd.other (Or.inr write))), one]
    obtain ⟨q, a, go, last, plain⟩ := reply_out flashId ruled rest cmd dir short
    obtain ⟨q', done, reported⟩ := last.inDone flashId one.symm (by simpa using plain)
    refine ⟨q', ?_, Or.inl ⟨fun h => nonempty h.1, reported⟩⟩
    rw [Run.run_cons go]
    exact Run.run_cons done
  | read cmd dir length some_ =>
    have nonempty : c.block.dataLen ≠ 0 := BulkOnlyCmd.dataIn_nonempty dir
    have count : c.block.packetsIn = 64 * c.block.sectors := if_pos cmd
    have split : 64 * c.block.sectors = (64 * c.block.sectors - 1) + 1 := by omega
    rw [stages_in (payload_nil (Or.inl fun write => BulkOnlyCmd.IsWrite.not_read write cmd)), count, split,
      List.replicate_succ']
    obtain ⟨q, go, reading⟩ := read_out flashId ruled rest cmd dir some_
    obtain ⟨q₁, reads, full⟩ := @Reading.run flashId c p (64 * c.block.sectors - 1) 1 q reading (by omega)
    obtain ⟨q', done, reported⟩ := (full.last cmd).inDone flashId
      (by rw [List.length_replicate, count]) (by
        intro b mem
        rw [List.eq_of_mem_replicate mem]
        rfl)
    refine ⟨q', ?_, Or.inl ⟨fun h => nonempty h.1, reported⟩⟩
    rw [Run.run_cons go, Run.run_append reads]
    exact Run.run_cons done
  | write cmd dir length some_ =>
    have nonempty : c.block.dataLen ≠ 0 := BulkOnlyCmd.dataOut_nonempty dir
    have packets : c.payload.length = 64 * c.block.sectors := c.length.trans (if_pos cmd)
    obtain ⟨q, go, writing⟩ := write_out flashId ruled rest cmd dir
    obtain ⟨q', data, reported⟩ := writing.run flashId cmd dir (by omega)
      ((Nat.zero_add _).trans packets)
    refine ⟨q', ?_, Or.inl ⟨fun h => nonempty h.1, reported⟩⟩
    rw [Command.stages, BulkOnlyCmd.packetsIn_write cmd dir, List.replicate_zero, List.append_nil, Run.run_cons go]
    exact data

/-- The host reads the CSW, and nothing more is sent. -/
theorem Reported.inDone (reported : Reported c p q) :
    ∃ r, step (udiskFun flashId) .inDone q = some r ∧ r.disk = q.disk ∧ r.calls = q.calls ∧ r.AtRest := by
  have deal : inEpDeal (udiskFun flashId) q.disk = (q.disk, []) := by
    simp only [inEpDeal, reported.up, reported.csw, Bool.false_eq_true, if_false]
  refine ⟨{ q with ep4 := .nak }, ?_, rfl, rfl, reported.up, reported.down, rfl⟩
  rw [step, if_pos reported.ep4, deal, serve_some List.not_mem_nil, List.append_nil]
  rfl

end Phases

end Port

end OffLineProgrammer.UsbDisk
