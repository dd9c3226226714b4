import OffLineProgrammer.UsbDisk.Served

/-!
# Whose turn it is

Between two packets of a supported command exactly one side has to act. In
`ToHost k` the host reads, and the disk sends the last of `k` packets as the CSW;
in `FromHost k` it waits for `k` data packets and answers the last with the CSW.
`Rest.command` says where a command block leads.
-/

namespace OffLineProgrammer.UsbDisk
set_option autoImplicit false
open OffLineProgrammer.Lib Udisk

namespace Udisk

/-! ## Turns -/

/-- Between two commands of which none has failed. -/
structure Rest (d : Udisk) : Prop where
  ruled : d.Ruled
  up : d.up = false
  down : d.down = false
  csw : d.csw = false
  good : d.cswStatus = 0x00

/-- The calls stall no endpoint. -/
def Plain (calls : List Action) : Prop := .txStall ∉ calls ∧ .rxStall ∉ calls

/-- One packet is sent, and it is the CSW if it is the last. -/
def Sends (calls : List Action) (last : Prop) : Prop :=
  Plain calls ∧ ∃ a, calls.filter Action.isSend = [a] ∧ (a.csw?.isSome = true ↔ last)

/-- No packet is sent. -/
def Silent (calls : List Action) : Prop := Plain calls ∧ calls.filter Action.isSend = []

/-- `k` packets are to be sent, one each time the host has read the one before. -/
def ToHost (f : UdiskFunction) : Nat → Udisk → Prop
  | 0, d => Rest d
  | k + 1, d => Sends (inEpDeal f d).2 (k = 0) ∧ ToHost f k (inEpDeal f d).1

/-- `k` data packets are to come. -/
def FromHost (f : UdiskFunction) : Nat → Udisk → Prop
  | 0, d => Rest d
  | k + 1, d => d.down = true ∧ ∀ pbuf, (if k = 0 then Sends (outEpDeal f pbuf 0x40 d).2 True
      else Silent (outEpDeal f pbuf 0x40 d).2) ∧ FromHost f k (outEpDeal f pbuf 0x40 d).1

theorem Rest.init : Rest udiskInit := ⟨Ruled.init, rfl, rfl, rfl, rfl⟩

/-- A read that reports no packet of this command is ignored. -/
theorem Rest.inEpDeal (f : UdiskFunction) {d : Udisk} (rest : Rest d) : inEpDeal f d = (d, []) := by
  simp only [Udisk.inEpDeal, rest.up, rest.csw, Bool.false_eq_true, if_false]

end Udisk

namespace Port

section Phases

variable {flashId : Byte} {c : Command} {p q q' : Port}

/-- What a step of the port says of the handler. -/
theorem serve_inv {r : Udisk × List Action} (go : serve r p = some q) :
    .rxStall ∉ r.2 ∧ q.disk = r.1 ∧ q.sent = p.sent ++ r.2.filter Action.isSend := by
  unfold serve at go
  split at go
  · cases go
  · rename_i returns
    cases go
    exact ⟨returns, rfl, List.filter_append ..⟩

theorem upload_plain {calls : List Action} (upload : ∀ a ∈ calls, a.isUpload = true) : Plain calls :=
  ⟨fun mem => Bool.noConfusion (upload _ mem), fun mem => Bool.noConfusion (upload _ mem)⟩

theorem Reported.rest (reported : Reported c p q) (good : p.statusAfter c = 0x00) : Udisk.Rest q.disk :=
  ⟨reported.ruled, reported.up, reported.down, reported.csw, reported.status.trans good⟩

/-- The CSW as the one packet of a handler. -/
theorem upCsw_sends (d : Udisk) : Sends (upCsw d).2 (0 = 0) := by
  refine ⟨upload_plain (upCsw_upload d), cswCall d, rfl, ?_⟩
  rw [cswCall_csw]
  exact iff_of_true rfl rfl

theorem upCsw_rest {d : Udisk} (ruled : d.Ruled) (good : d.cswStatus = 0x00) : Udisk.Rest (upCsw d).1 :=
  ⟨ruled.upCsw, rfl, rfl, rfl, good⟩

/-- After the last data packet the CSW is to be sent. -/
theorem toHost_csw (f : UdiskFunction) {d : Udisk} (ruled : d.Ruled) (up : d.up = false) (csw : d.csw = true)
    (good : d.cswStatus = 0x00) : ToHost f 1 d := by
  have deal : inEpDeal f d = upCsw d := by
    simp only [inEpDeal, up, csw, Bool.false_eq_true, if_false, if_true]
  rw [ToHost, deal]
  exact ⟨upCsw_sends d, upCsw_rest ruled good⟩

/-- A read after `j` packets. -/
theorem Reader.toHost (flashId : Byte) : ∀ {k j : Nat} {d : Udisk}, Reader c j d → d.Ruled → j + k = 64 * c.block.sectors →
    ToHost (udiskFun flashId) (k + 1) d := by
  intro k
  induction k with
  | zero =>
    intro j d reader ruled all
    refine toHost_csw _ ruled ?_ reader.csw reader.status
    rw [reader.up]
    exact decide_eq_false (by omega)
  | succ k ih =>
    intro j d reader ruled all
    have more : j < 64 * c.block.sectors := by omega
    have up : d.up = true := by rw [reader.up, decide_eq_true more]
    have deal : inEpDeal (udiskFun flashId) d = upPack (udiskFun flashId) d := by simp only [inEpDeal, up, if_true]
    have ruled' : (inEpDeal (udiskFun flashId) d).1.Ruled := ruled.inEpDeal
    obtain ⟨next, addr, calls⟩ := reader.next flashId more
    rw [ToHost]
    rw [deal] at ruled' ⊢
    refine ⟨⟨upload_plain (upPack_upload _ d), .usbSendPack 64, by rw [calls]; rfl, ?_⟩, ih next ruled' (by omega)⟩
    exact iff_of_false Bool.false_ne_true (Nat.succ_ne_zero k)

theorem downOnePack_plain (f : UdiskFunction) (pbuf : Vector Byte packSize) (d : Udisk) : Plain (downOnePack f pbuf d).2 := by
  unfold downOnePack
  simp only
  split
  · split <;> simp [Plain, upCsw]
  · simp [Plain]

/-- The packets a step has sent. -/
theorem sent_filter {calls data : List Action} {u v : List Action} (sent : v = u ++ calls.filter Action.isSend)
    (same : v = u ++ data) : calls.filter Action.isSend = data :=
  List.append_cancel_left (sent.symm.trans same)

/-- A write after `k` packets. -/
theorem Writing.fromHost (flashId : Byte) (cmd : c.block.IsWrite) (dir : c.block.dataOut = true)
    (good : p.statusAfter c = 0x00) : ∀ {n k : Nat} {q : Port}, Writing c p k q → k + (n + 1) = 64 * c.block.sectors →
    FromHost (udiskFun flashId) (n + 1) q.disk := by
  intro n
  induction n with
  | zero =>
    intro k q writing all
    refine ⟨writing.down, fun pbuf => ?_⟩
    obtain ⟨q', go, reported⟩ := writing.last flashId cmd dir all pbuf
    obtain ⟨-, disk, sent⟩ := serve_inv go
    obtain ⟨data, a, after, count, -, csw⟩ := reported.sent
    rw [BulkOnlyCmd.packetsIn_write cmd dir] at count
    rw [List.eq_nil_of_length_eq_zero count, List.append_nil, ← writing.sent] at after
    rw [if_pos rfl]
    refine ⟨⟨?_, a, sent_filter sent after, iff_of_true (by rw [csw]; rfl) trivial⟩, disk ▸ reported.rest good⟩
    rw [outEpDeal_data _ writing.down]
    exact downOnePack_plain _ pbuf _
  | succ n ih =>
    intro k q writing all
    refine ⟨writing.down, fun pbuf => ?_⟩
    obtain ⟨q', go, next⟩ := writing.next flashId (by omega) pbuf
    obtain ⟨-, disk, sent⟩ := serve_inv go
    have after : q'.sent = q.sent ++ [] := by rw [next.sent, writing.sent, List.append_nil]
    rw [if_neg (Nat.succ_ne_zero n)]
    refine ⟨⟨?_, sent_filter sent after⟩, disk ▸ ih next (by omega)⟩
    rw [outEpDeal_data _ writing.down]
    exact downOnePack_plain _ pbuf _

end Phases

end Port

namespace Udisk

/-- **Where a command block leads**: to the packets for the host, or to the data
packets from it. -/
theorem Rest.command (flashId : Byte) {d : Udisk} (rest : Rest d) (c : Command) :
    (c.payload = [] ∧ ∃ k, Sends (outEpDeal (udiskFun flashId) c.cbw 0x1F d).2 (k = 0) ∧
      ToHost (udiskFun flashId) k (outEpDeal (udiskFun flashId) c.cbw 0x1F d).1) ∨
    (c.payload ≠ [] ∧ Silent (outEpDeal (udiskFun flashId) c.cbw 0x1F d).2 ∧
      FromHost (udiskFun flashId) c.payload.length (outEpDeal (udiskFun flashId) c.cbw 0x1F d).1) := by
  let p : Port := ⟨d, .nak, []⟩
  have ruled : p.disk.Ruled := rest.ruled
  have atRest : p.AtRest := ⟨rest.up, rest.down, rfl⟩
  have good : p.statusAfter c = 0x00 := by
    rw [Port.statusAfter, show p.disk.cswStatus = 0x00 from rest.good, ite_self]
  have plain : Plain (outEpDeal (udiskFun flashId) c.cbw 0x1F d).2 := by
    have en : (receive c.cbw d).en = true := by rw [receive, rest.ruled.en]
    obtain ⟨e, -, -, run⟩ := outEpDeal_accepted flashId rest.ruled.en rest.down c.wellFormed.1
      (c.wellFormed.accepted en (receive_mBOC c.cbw d))
    rw [run]
    exact Port.upload_plain (afterCmd_upload _ e)
  cases c.ok.stage with
  | none empty =>
    left
    refine ⟨?_, 0, ?_⟩
    · apply Port.payload_nil
      by_cases write : c.block.IsWrite
      · exact Or.inr (c.ok.sectors_zero (Or.inr write) empty)
      · exact Or.inl write
    · obtain ⟨q, go, ends⟩ := Port.empty_out flashId ruled atRest empty
      obtain ⟨-, disk, sent⟩ := Port.serve_inv go
      rcases ends with ⟨-, reported⟩ | ⟨bad, -⟩
      · obtain ⟨data, a, after, count, -, csw⟩ := reported.sent
        rw [c.ok.packetsIn_zero empty] at count
        rw [List.eq_nil_of_length_eq_zero count, List.append_nil] at after
        exact ⟨⟨plain, a, Port.sent_filter sent after, iff_of_true (by rw [csw]; rfl) rfl⟩, disk ▸ reported.rest good⟩
      · exact absurd good bad
  | reply cmd dir short =>
    left
    refine ⟨Port.payload_nil (Or.inl fun write => cmd.other (Or.inr write)), 1, ?_⟩
    obtain ⟨q, a, go, last, data⟩ := Port.reply_out flashId ruled atRest cmd dir short
    obtain ⟨-, disk, sent⟩ := Port.serve_inv go
    refine ⟨⟨plain, a, Port.sent_filter sent last.sent, ?_⟩,
      disk ▸ Port.toHost_csw _ last.ruled last.up last.csw (last.status.trans good)⟩
    rw [data]
    exact iff_of_false Bool.false_ne_true (by decide)
  | read cmd dir length some_ =>
    left
    obtain ⟨k, count⟩ : ∃ k, 1 + k = 64 * c.block.sectors := ⟨64 * c.block.sectors - 1, by omega⟩
    obtain ⟨q, go, reading⟩ := Port.read_out flashId ruled atRest cmd dir some_
    obtain ⟨-, disk, sent⟩ := Port.serve_inv go
    refine ⟨Port.payload_nil (Or.inl fun write => BulkOnlyCmd.IsWrite.not_read write cmd), k + 1,
      ⟨plain, .usbSendPack 64, Port.sent_filter sent reading.sent, ?_⟩, ?_⟩
    · exact iff_of_false Bool.false_ne_true (Nat.succ_ne_zero k)
    · rw [← disk]
      exact Port.Reader.toHost flashId reading.disk reading.ruled count
  | write cmd dir length some_ =>
    right
    have packets : c.payload.length = 64 * c.block.sectors := c.length.trans (if_pos cmd)
    obtain ⟨n, count⟩ : ∃ n, 0 + (n + 1) = 64 * c.block.sectors := ⟨64 * c.block.sectors - 1, by omega⟩
    have length : c.payload.length = n + 1 := packets.trans (count.symm.trans (Nat.zero_add _))
    obtain ⟨q, go, writing⟩ := Port.write_out flashId ruled atRest cmd dir
    obtain ⟨-, disk, sent⟩ := Port.serve_inv go
    have after : q.sent = p.sent ++ [] := by rw [writing.sent, List.append_nil]
    refine ⟨fun none => ?_, ⟨plain, Port.sent_filter sent after⟩, ?_⟩
    · rw [none] at length
      cases length
    · rw [length, ← disk]
      exact writing.fromHost flashId cmd dir good count

end Udisk

end OffLineProgrammer.UsbDisk
