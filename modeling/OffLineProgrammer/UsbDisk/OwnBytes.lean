import OffLineProgrammer.UsbDisk.Accounting

/-!
# Whose bytes reach the host

`UDISK_Bulk_UpData` sends from `pEndp2_Buf` as many bytes as remain. They are
bytes of the reply that the command has built as long as the length of its data
stage is at most that of the reply (`ownBytes_iff`); a command that builds none
must not send any.
-/

namespace OffLineProgrammer.UsbDisk
set_option autoImplicit false
open OffLineProgrammer.Lib Udisk

/-- What `UDISK_Bulk_UpData` sends lies in the buffer that holds the reply, and
inside the reply. (`UDISK_Up_OnePack` sends sectors.) -/
def Own (reply : List Byte) : Action → Prop
  | .usbSend buf len => len.toNat ≤ reply.length ∧ buf.take reply.length = reply
  | _ => True

/-- Every byte sent in the data stage of the block is one of its own reply, in
every continuation. -/
def OwnBytes (f : UdiskFunction) (cbw : Vector Byte packSize) (p : Port) : Prop :=
  ∀ es a₀ a, Account.opened f cbw p = some a₀ → Run.run (Account.step f) es a₀ = some a →
    ∀ call ∈ a.data, Own (response f (receive cbw p.disk)) call

namespace BulkOnlyCmd

/-- The length of the data stage is at most that of the reply. -/
def Fits (m : BulkOnlyCmd) : Prop :=
  match m.cmd with
  | .inquiry | .readCapacity | .modeSense | .modeSense2 => True
  | .readFormatCapacity => m.dataLen.toNat ≤ 8
  | .requestSense => m.dataLen.toNat ≤ 18
  | .read10 | .write10 | .wrVerify10 => m.sectors = 0
  | .testReady | .prevtRemove | .verify10 | .startStop | .unsupported => m.dataLen = 0

end BulkOnlyCmd

section Reply

variable {f : UdiskFunction} {d : Udisk} {m : BulkOnlyCmd}

theorem response_length (f : UdiskFunction) (block : d.mBOC = m) :
    (response f d).length =
      match m.cmd with
      | .inquiry => 36
      | .readFormatCapacity | .readCapacity => 8
      | .modeSense => 12
      | .modeSense2 => 16
      | .requestSense => 18
      | _ => 0 := by
  subst block
  unfold response
  cases d.mBOC.cmd <;>
    simp [inquiryReply, rdFormatCapacity, rdCapacity, modeSense1A, modeSense5A, reqSense, be32]

theorem response_short (f : UdiskFunction) (d : Udisk) : (response f d).length ≤ 36 := by
  rw [response_length f rfl]
  cases d.mBOC.cmd <;> decide

/-- A command without a bound starts with the length of the host. -/
theorem fits_iff (flashId : Byte) (block : d.mBOC = m) :
    (m.stageLen (udiskFun flashId)).toNat ≤ (response (udiskFun flashId) d).length ↔ m.Fits := by
  have zero : m.dataLen.toNat ≤ 0 ↔ m.dataLen = 0 := by
    rw [Nat.le_zero]
    exact ⟨fun h => BitVec.eq_of_toNat_eq h, fun h => by rw [h]; rfl⟩
  have free : ∀ k, m.cmd = k → (k ≠ .read10 ∧ k ≠ .write10 ∧ k ≠ .wrVerify10) → m.bound = none →
      m.stageLen (udiskFun flashId) = m.dataLen := fun k cmd other bound =>
    BulkOnlyCmd.stageLen_free _ (BulkOnlyCmd.not_isRdWr cmd other) bound
  have least : ∀ k b, m.cmd = k → (k ≠ .read10 ∧ k ≠ .write10 ∧ k ≠ .wrVerify10) → m.bound = some b →
      (m.stageLen (udiskFun flashId)).toNat = min m.dataLen.toNat b.toNat := fun k b cmd other bound =>
    BulkOnlyCmd.stageLen_bound _ (BulkOnlyCmd.not_isRdWr cmd other) bound
  have rdWr : m.IsRdWr → (m.stageLen (udiskFun flashId)).toNat = 4096 * m.sectors :=
    BulkOnlyCmd.stageLen_rdWr flashId
  rw [response_length _ block, BulkOnlyCmd.Fits]
  cases cmd : m.cmd with
  | inquiry =>
    rw [least _ 0x24 cmd (by decide) (by simp only [BulkOnlyCmd.bound, cmd])]
    exact iff_of_true (Nat.min_le_right ..) trivial
  | readFormatCapacity =>
    rw [least _ 0x0C cmd (by decide) (by simp only [BulkOnlyCmd.bound, cmd])]
    show min m.dataLen.toNat 12 ≤ 8 ↔ _
    simp only
    omega
  | readCapacity =>
    rw [least _ 0x08 cmd (by decide) (by simp only [BulkOnlyCmd.bound, cmd])]
    exact iff_of_true (Nat.min_le_right ..) trivial
  | modeSense =>
    rw [least _ 0x0C cmd (by decide) (by simp only [BulkOnlyCmd.bound, cmd])]
    exact iff_of_true (Nat.min_le_right ..) trivial
  | modeSense2 =>
    rw [least _ 0x10 cmd (by decide) (by simp only [BulkOnlyCmd.bound, cmd])]
    exact iff_of_true (Nat.min_le_right ..) trivial
  | requestSense => rw [free _ cmd (by decide) (by simp only [BulkOnlyCmd.bound, cmd])]
  | read10 => rw [rdWr (Or.inl cmd)]; simp only; omega
  | write10 => rw [rdWr (Or.inr (Or.inl cmd))]; simp only; omega
  | wrVerify10 => rw [rdWr (Or.inr (Or.inr cmd))]; simp only; omega
  | testReady => rw [free _ cmd (by decide) (by simp only [BulkOnlyCmd.bound, cmd])]; exact zero
  | prevtRemove => rw [free _ cmd (by decide) (by simp only [BulkOnlyCmd.bound, cmd])]; exact zero
  | verify10 => rw [free _ cmd (by decide) (by simp only [BulkOnlyCmd.bound, cmd])]; exact zero
  | startStop => rw [free _ cmd (by decide) (by simp only [BulkOnlyCmd.bound, cmd])]; exact zero
  | unsupported => rw [free _ cmd (by decide) (by simp only [BulkOnlyCmd.bound, cmd])]; exact zero

end Reply

/-! ## Without a data stage to the host nothing is sent but the CSW -/

/-- The handler starts no data stage to the host, and sends no data. -/
def Calm (r : Udisk × List Action) : Prop := r.1.up = false ∧ (r.1.csw = true → r.2.filter Action.isSend = [])

section Calm

variable {flashId : Byte} {d : Udisk} {a a' : Account}

theorem upCsw_calm (d : Udisk) : Calm (upCsw d) := ⟨rfl, fun csw => Bool.noConfusion csw⟩

theorem inEpDeal_calm (f : UdiskFunction) (up : d.up = false) : Calm (inEpDeal f d) := by
  rw [inEpDeal, if_neg (by rw [up]; exact Bool.false_ne_true)]
  split
  · exact upCsw_calm d
  · exact ⟨up, fun _ => rfl⟩

theorem afterCmd_calm (f : UdiskFunction) (up : d.up = false) : Calm (afterCmd f d) := by
  cases down : d.down with
  | true =>
    rw [afterCmd_down f down]
    exact ⟨up, fun _ => rfl⟩
  | false =>
    by_cases good : d.cswStatus = 0x00
    · rw [afterCmd_csw f down up good]
      exact upCsw_calm d
    · rw [afterCmd_held f down up good]
      exact ⟨up, fun _ => rfl⟩

theorem downOnePack_calm (f : UdiskFunction) (pbuf : Vector Byte packSize) (up : d.up = false) :
    Calm (downOnePack f pbuf d) := by
  unfold downOnePack
  simp only
  split
  · split
    · exact ⟨rfl, fun csw => Bool.noConfusion csw⟩
    · refine ⟨up, fun _ => ?_⟩
      split <;> rfl
  · refine ⟨up, fun _ => ?_⟩
    split <;> rfl

/-- A calm handler adds no data. -/
theorem after_calm {r : Udisk × List Action} (calm : Calm r) (len : BitVec 32) (took : Nat) (st : EpStat) :
    (a.after len took st r).port.disk.up = false ∧ (a.after len took st r).data = a.data := by
  refine ⟨calm.1, ?_⟩
  rw [Account.after_data]
  split
  · rename_i csw
    rw [calm.2 csw, List.append_nil]
  · rfl

theorem step_calm {e : PortEvent} (up : a.port.disk.up = false)
    (go : Account.step (udiskFun flashId) e a = some a') : a'.port.disk.up = false ∧ a'.data = a.data := by
  rcases Account.step_cases go with ⟨pbuf, packlen, -, -, rfl⟩ | ⟨-, -, rfl⟩ | ⟨st, -, rfl⟩
  · exact after_calm (downOnePack_calm _ pbuf up) _ _ _
  · exact after_calm (inEpDeal_calm _ up) _ _ _
  · exact ⟨up, rfl⟩

/-- Nor does any continuation. -/
theorem run_calm : ∀ {es : List PortEvent} {a : Account}, a.port.disk.up = false →
    Run.run (Account.step (udiskFun flashId)) es a = some a' → a'.data = a.data := by
  intro es
  induction es with
  | nil =>
    intro a _ go
    cases go
    rfl
  | cons e es ih =>
    intro a up go
    obtain ⟨a₁, next, rest⟩ := Run.run_split go
    obtain ⟨up₁, data⟩ := step_calm up next
    rw [ih up₁ rest, data]

end Calm

/-! ## The data stage of a block -/

section Stage

variable {flashId : Byte} {p : Port} {cbw : Vector Byte packSize}

/-- A rejected block sends no data. -/
theorem opened_refused_calm (ruled : p.disk.Ruled) (idle : p.disk.down = false) (sig : (blockOf cbw).HasSignature)
    (refused : (blockOf cbw).Refused) {a : Account} (opened : Account.opened (udiskFun flashId) cbw p = some a) :
    a.port.disk.up = false ∧ a.data = [] := by
  obtain ⟨up, -, deal, run⟩ := outEpDeal_rejected (udiskFun flashId) ruled.en idle sig
    (refused_rejected (by rw [receive, ruled.en]) (receive_mBOC cbw p.disk) refused)
  rw [Account.opened, Port.step, run, Port.serve] at opened
  split at opened
  · cases opened
  · cases opened
    refine ⟨rfl, ?_⟩
    have silent : (stalls up (takeCbw (receive cbw p.disk)).down).filter Action.isSend = [] := by
      cases up <;> cases (takeCbw (receive cbw p.disk)).down <;> rfl
    exact (@after_calm (Account.fresh p) (_, stalls up (takeCbw (receive cbw p.disk)).down) ⟨rfl, fun _ => silent⟩ _ 0
      p.ep4).2

/-- A block without the signature is not handled to the end. -/
theorem opened_unsigned (idle : p.disk.down = false) (sig : ¬ (blockOf cbw).HasSignature) :
    Account.opened (udiskFun flashId) cbw p = none := by
  rw [Account.opened, Port.step, Port.serve, if_pos (rxStall_unsigned _ idle sig), Option.map_none]

/-- The first packet of a reply. -/
theorem bulk_own {e : Udisk} {reply : List Byte} (short : reply.length ≤ 36)
    (built : e.endp2Bytes.take reply.length = reply) :
    (∀ call ∈ (bulkUpData e).2, Own reply call) ↔ e.transferDataLen.toNat ≤ reply.length := by
  unfold bulkUpData
  split
  · rename_i long
    rw [gt_iff_lt, BitVec.lt_def] at long
    have past : (64 : BitVec 32).toNat = 64 := rfl
    simp only [List.mem_singleton, forall_eq, Own]
    omega
  · simp only [List.mem_singleton, forall_eq, Own]
    exact ⟨fun h => h.1, fun h => ⟨h, built⟩⟩

/-- A data packet that lowers the remaining length below zero. -/
structure Underflow (d : Udisk) (r : Udisk × List Action) : Prop where
  returns : .rxStall ∉ r.2
  up : r.1.up = d.up
  csw : r.1.csw = d.csw
  block : r.1.mBOC = d.mBOC
  buf : r.1.endp2Bytes = d.endp2Bytes
  len : r.1.transferDataLen = d.transferDataLen - 64
  silent : r.2.filter Action.isSend = []
  armed : ∀ st, App.armed st r.2 = st

theorem downOnePack_underflow (flashId : Byte) {d : Udisk} (pbuf : Vector Byte packSize) (count : d.secPackCount.toNat < 64)
    (less : d.transferDataLen.toNat < 64) : Underflow d (downOnePack (udiskFun flashId) pbuf d) := by
  by_cases last : d.secPackCount.toNat = 63
  · have more : ¬ d.transferDataLen - 64 = 0 := by bv_omega
    rw [downOnePack_sector flashId pbuf last more]
    exact ⟨by simp, rfl, rfl, rfl, rfl, rfl, rfl, fun _ => rfl⟩
  · rw [downOnePack_inside flashId pbuf (by omega)]
    obtain ⟨returns, silent, armed⟩ := inside_calls d (d.secPackCount.toNat * packSize) pbuf
    exact ⟨returns, rfl, rfl, rfl, rfl, rfl, silent, armed⟩

/-- The host reads a packet of the reply: the calls become data of the account. -/
theorem reads_bulk {a : Account} (valid : a.port.ep4 = .valid) (up : a.port.disk.up = true) (csw : a.port.disk.csw = true)
    (other : ¬ a.port.disk.mBOC.cbBuf 0 = CMD_U_READ10) :
    ∃ a', Account.step (udiskFun flashId) .inDone a = some a' ∧ ∀ call ∈ (bulkUpData a.port.disk).2, call ∈ a'.data := by
  have deal : inEpDeal (udiskFun flashId) a.port.disk = bulkUpData a.port.disk := by
    rw [inEpDeal, if_pos up, upPack, if_neg other]
  have returns : .rxStall ∉ (inEpDeal (udiskFun flashId) a.port.disk).2 :=
    fun mem => Action.ne_rxStall_upload (inEpDeal_upload _ _ _ mem) rfl
  refine ⟨_, Account.step_in valid returns, ?_⟩
  intro call mem
  have on : (bulkUpData a.port.disk).1.csw = true := by
    unfold bulkUpData
    split <;> exact csw
  have sends : call.isSend = true := by
    unfold bulkUpData at mem
    split at mem <;> rw [List.mem_singleton.mp mem] <;> rfl
  rw [deal, Account.after_data, if_pos on]
  exact List.mem_append_right _ (List.mem_filter.mpr ⟨mem, sends⟩)

/-- The packet that follows the block at once is all its data so far. -/
theorem bulk_data {e : Udisk} (p : Port) (len : BitVec 32) (st : EpStat) (csw : e.csw = true) :
    ((Account.fresh p).after len 0 st (bulkUpData e)).data = (bulkUpData e).2 := by
  have on : (bulkUpData e).1.csw = true := by
    unfold bulkUpData
    split <;> exact csw
  have sends : (bulkUpData e).2.filter Action.isSend = (bulkUpData e).2 := by
    unfold bulkUpData
    split <;> rfl
  rw [Account.after_data, if_pos on, sends]
  exact List.nil_append _

/-- With a data stage in each direction the host reads more than the reply. -/
theorem both_stages {a : Account} {reply : List Byte} (short : reply.length ≤ 36)
    (valid : a.port.ep4 = .valid) (up : a.port.disk.up = true) (down : a.port.disk.down = true) (csw : a.port.disk.csw = true)
    (other : ¬ a.port.disk.mBOC.cbBuf 0 = CMD_U_READ10) (count : a.port.disk.secPackCount.toNat < 64)
    (built : a.port.disk.endp2Bytes.take reply.length = reply) :
    ∃ es a', Run.run (Account.step (udiskFun flashId)) es a = some a' ∧ ∃ call ∈ a'.data, ¬ Own reply call := by
  have past : ∀ {e : Udisk}, e.endp2Bytes.take reply.length = reply → ¬ e.transferDataLen.toNat ≤ reply.length →
      ∃ call ∈ (bulkUpData e).2, ¬ Own reply call := by
    intro e built more
    by_contra none
    push Not at none
    exact more ((bulk_own short built).mp none)
  by_cases fits : a.port.disk.transferDataLen.toNat ≤ reply.length
  · -- a data packet takes the remaining length below zero, the host then reads 64 bytes
    have under := downOnePack_underflow flashId (Vector.replicate packSize 0) count
      (show a.port.disk.transferDataLen.toNat < 64 by omega)
    have first := Account.step_out (f := udiskFun flashId) down (Vector.replicate packSize 0) 0x40 under.returns
    obtain ⟨a', go, data⟩ := @reads_bulk flashId (a.after a.port.disk.transferDataLen (0x40 : BitVec 16).toNat a.port.ep4
      (downOnePack (udiskFun flashId) (Vector.replicate packSize 0) a.port.disk)) ((under.armed _).trans valid) (under.up.trans up) (under.csw.trans csw)
      (by rw [Account.after_disk, under.block]; exact other)
    obtain ⟨call, mem, foreign⟩ := @past (downOnePack (udiskFun flashId) (Vector.replicate packSize 0) a.port.disk).1
      (by rw [under.buf]; exact built) (by rw [under.len]; bv_omega)
    exact ⟨[.out (Vector.replicate packSize 0) 0x40, .inDone], a', (Run.run_cons first).trans (Run.run_cons go), call,
      data call mem, foreign⟩
  · obtain ⟨a', go, data⟩ := @reads_bulk flashId a valid up csw other
    obtain ⟨call, mem, foreign⟩ := past built fits
    exact ⟨[.inDone], a', Run.run_cons go, call, data call mem, foreign⟩

/-- **Whose bytes reach the host**: in any reachable command state exactly the
replies that fit leave nothing else to be sent. -/
theorem ownBytes_iff (flashId : Byte) (reached : Run.Reachable (Port.step (udiskFun flashId)) Port.start p)
    (idle : p.disk.down = false) (other : ¬ (blockOf cbw).IsRead) :
    OwnBytes (udiskFun flashId) cbw p ↔
      ((blockOf cbw).HasSignature ∧ ¬ (blockOf cbw).Refused ∧ (p.disk.up = true ∨ (blockOf cbw).dataIn = true) →
        (blockOf cbw).dataOut = false ∧ (blockOf cbw).Fits) := by
  have ruled := Port.reachable_ruled reached
  have settled : ∀ a₀, Account.opened (udiskFun flashId) cbw p = some a₀ → a₀.port.disk.up = false → a₀.data = [] →
      OwnBytes (udiskFun flashId) cbw p := by
    intro a₀ opened up data es a₁ a opened₁ run call mem
    rw [opened] at opened₁
    cases opened₁
    rw [run_calm up run, data] at mem
    cases mem
  by_cases sig : (blockOf cbw).HasSignature
  · by_cases refused : (blockOf cbw).Refused
    · refine iff_of_true ?_ (fun h => absurd refused h.2.1)
      intro es a₀ a opened run call mem
      obtain ⟨up, data⟩ := opened_refused_calm ruled idle sig refused opened
      rw [run_calm up run, data] at mem
      cases mem
    · obtain ⟨e, opening, opened⟩ := Account.opened_accepted flashId ruled idle sig refused
      have bulk : ¬ e.mBOC.cbBuf 0 = CMD_U_READ10 := fun read => other (opening.dispatch.mp read)
      have short := response_short (udiskFun flashId) (receive cbw p.disk)
      cases up : e.up with
      | false =>
        have none : ¬ (p.disk.up = true ∨ (blockOf cbw).dataIn = true) := by
          rw [← Bool.or_eq_true, ← opening.up, up]
          exact Bool.false_ne_true
        obtain ⟨off, data⟩ := @after_calm (Account.fresh p) _ (afterCmd_calm (udiskFun flashId) up) e.transferDataLen 0
          p.ep4
        exact iff_of_true (settled _ opened off data) (fun h => absurd h.2.2 none)
      | true =>
        have some_ : p.disk.up = true ∨ (blockOf cbw).dataIn = true := by
          rw [← Bool.or_eq_true, ← opening.up, up]
        refine Iff.trans ?_ (imp_iff_right ⟨sig, refused, some_⟩).symm
        rw [← fits_iff flashId (receive_mBOC cbw p.disk), ← opening.len]
        cases down : e.down with
        | false =>
          have run : afterCmd (udiskFun flashId) e = bulkUpData e := by
            rw [afterCmd_up _ down up, upPack, if_neg bulk]
          rw [run] at opened
          have data := bulk_data p e.transferDataLen p.ep4 opening.csw
          have out : (blockOf cbw).dataOut = false := opening.down.symm.trans down
          rw [and_iff_right out, ← bulk_own short opening.reply, ← data]
          constructor
          · exact fun own => own [] _ _ opened rfl
          · intro own es a₁ a opened₁ run₁ call mem
            rw [opened] at opened₁
            cases opened₁
            have fits := (bulk_own short opening.reply).mp (data ▸ own)
            have off : (bulkUpData e).1.up = false := by
              have one : ¬ e.transferDataLen > 64 := by bv_omega
              rw [bulkUpData, if_neg one]
            rw [run_calm off run₁] at mem
            exact own call mem
        | true =>
          have out : (blockOf cbw).dataOut = true := opening.down.symm.trans down
          refine iff_of_false ?_ (fun h => Bool.noConfusion (h.1.symm.trans out))
          intro own
          have was : p.disk.up = true := by
            rcases some_ with was | dir
            · exact was
            · rw [BulkOnlyCmd.dataIn_not_out out] at dir
              cases dir
          have valid := Port.reachable_loaded reached was
          rw [afterCmd_down _ down] at opened
          have count : e.secPackCount.toNat < 64 := by
            rw [opening.count]
            split
            · decide
            · exact ruled.count
          obtain ⟨es, a', run, call, mem, foreign⟩ := @both_stages flashId ((Account.fresh p).after e.transferDataLen 0
            p.ep4 (e, [])) _ short valid up down opening.csw bulk count opening.reply
          exact foreign (own es _ a' opened run call mem)
  · refine iff_of_true ?_ (fun h => absurd h.1 sig)
    intro es a₀ a opened
    rw [opened_unsigned idle sig] at opened
    cases opened

end Stage

/-- READ FORMAT CAPACITIES with 252 bytes to the host. -/
def readFormatCapacity252 : Vector Byte packSize :=
  packet [0x55, 0x53, 0x42, 0x43, 0x01, 0x00, 0x00, 0x00, 0xFC, 0x00, 0x00, 0x00, 0x80, 0x00, 0x0A, 0x23]

/-- INQUIRY sends its table only. -/
theorem ownBytes_inquiry : OwnBytes (udiskFun 0x17) inquiry36 Port.start :=
  (ownBytes_iff 0x17 ⟨[], rfl⟩ rfl (by decide +kernel)).mpr fun _ => ⟨by decide +kernel, by
    have cmd : (blockOf inquiry36).cmd = .inquiry := by decide +kernel
    rw [BulkOnlyCmd.Fits, cmd]
    trivial⟩

/-- READ FORMAT CAPACITIES writes 8 bytes and sends 12: the last four are the
length field of its own command block. -/
theorem ownBytes_readFormatCapacity :
    (Account.opened (udiskFun 0x17) readFormatCapacity252 Port.start).map
        (fun a => a.data.map fun | .usbSend buf len => buf.take len.toNat | _ => []) =
      some [[0x00, 0x00, 0x00, 0x08, 0x00, 0x00, 0x10, 0x00, 0xFC, 0x00, 0x00, 0x00]] ∧
    response (udiskFun 0x17) (receive readFormatCapacity252 Port.start.disk) =
      [0x00, 0x00, 0x00, 0x08, 0x00, 0x00, 0x10, 0x00] ∧
    ¬ OwnBytes (udiskFun 0x17) readFormatCapacity252 Port.start := by
  refine ⟨by decide +kernel, by decide +kernel, ?_⟩
  intro own
  have run : (Account.opened (udiskFun 0x17) readFormatCapacity252 Port.start).map
      (fun a => a.data.map fun | .usbSend _ len => len.toNat | _ => 0) = some [12] := by decide +kernel
  obtain ⟨a, opened, data⟩ := Option.map_eq_some_iff.mp run
  have calls := own [] a a opened rfl
  cases sent : a.data with
  | nil =>
    rw [sent] at data
    cases data
  | cons call rest =>
    rw [sent, List.map_cons, List.cons.injEq] at data
    have mine := calls call (by rw [sent]; exact List.mem_cons_self)
    cases call <;> first | cases data.1 | skip
    rename_i buf len
    have size : (response (udiskFun 0x17) (receive readFormatCapacity252 Port.start.disk)).length = 8 := by decide +kernel
    have twelve : len.toNat = 12 := data.1
    have small := mine.1
    rw [size, twelve] at small
    exact absurd small (by decide)

end OffLineProgrammer.UsbDisk
