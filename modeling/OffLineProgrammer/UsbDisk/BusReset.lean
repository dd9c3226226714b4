import OffLineProgrammer.UsbDisk.Commands
import OffLineProgrammer.UsbDisk.UsbApp

/-!
# The disk after a bus reset

`USBD_Reset` sets the endpoints up again and leaves the transfer flags of the
disk and the messages of the queue as they are. So the next command block is
taken as one, and nothing more of the interrupted command is sent, exactly when
no data stage was under way and no message that acts on the old state was
pending.
-/

namespace OffLineProgrammer.UsbDisk
set_option autoImplicit false
open OffLineProgrammer.Lib Udisk App

/-- The disk with its transfer flags clear. -/
def commandState (d : Udisk) : Udisk := { d with up := false, down := false, csw := false }

/-- A reset and `k` turns of the thread. -/
def pendingServed (f : UdiskFunction) (k : Nat) (a : App) : App × List Action := turns f k a.usbdReset

/-- Then a packet of 31 bytes arrives and the queue is served. -/
def packetServed (f : UdiskFunction) (k : Nat) (data : Vector Byte packSize) (a : App) : App × List Action :=
  let c := (pendingServed f k a).1.usbOut data 0x1F
  turns f c.mq.msgs.length c

/-- After a reset of `a`: whenever the next command block arrives, the messages
served before it make no call and leave EP4 unarmed, and when the queue has been
served the disk has done with the block what it does from the command state,
without an erase or a program. -/
def ResetEffective (f : UdiskFunction) (a : App) : Prop :=
  ∀ (k : Nat) (data : Vector Byte packSize), (blockOf data).HasSignature →
    (pendingServed f k a).2 = [] ∧ (pendingServed f k a).1.ep4Tx = .nak ∧
    (packetServed f k data a).1.disk = ((commandState a.disk).outEpDeal f data 0x1F).1 ∧
    (packetServed f k data a).2 = ((commandState a.disk).outEpDeal f data 0x1F).2 ∧
    ∀ call ∈ (packetServed f k data a).2, call.flashAddr = none

/-- Nothing of a command is left over: no data stage, no pending packet, no
pending completion that would send a CSW, and room for the next message. -/
structure Quiet (a : App) : Prop where
  up : a.disk.up = false
  down : a.disk.down = false
  out : .udiskOut ∉ a.mq.msgs
  csw : a.disk.csw = false ∨ a.mq.msgs = []
  room : a.mq.msgs.length < 10

section Messages

variable {f : UdiskFunction} {a : App} {d : Udisk}

theorem inEpDeal_quiet (up : d.up = false) (csw : d.csw = false) : inEpDeal f d = (d, []) := by
  simp only [inEpDeal, up, csw, Bool.false_eq_true, if_false]

/-- A completion that finds a data stage or a due CSW sends something. -/
theorem inEpDeal_calls (calls : (inEpDeal f d).2 = []) : d.up = false ∧ d.csw = false := by
  unfold inEpDeal at calls
  cases up : d.up with
  | true =>
    simp only [up, if_true, upPack, bulkUpData] at calls
    split at calls
    · cases calls
    · split at calls <;> cases calls
  | false =>
    cases csw : d.csw with
    | true =>
      simp only [up, csw, Bool.false_eq_true, if_true, if_false] at calls
      cases calls
    | false => exact ⟨rfl, rfl⟩

/-- Completions pending on a disk with nothing to send are served without effect. -/
theorem turns_quiet (k : Nat) : ∀ {a : App}, (∀ m ∈ a.mq.msgs.take k, m = .udiskIn) →
    (a.mq.msgs.take k = [] ∨ (a.disk.up = false ∧ a.disk.csw = false)) →
    ∃ mq, turns f k a = ({ a with mq := mq }, []) ∧ mq.msgs = a.mq.msgs.drop k := by
  induction k with
  | zero => intro a _ _; exact ⟨a.mq, rfl, rfl⟩
  | succ k ih =>
    intro a ins idle
    cases queue : a.mq.msgs with
    | nil =>
      obtain ⟨mq, run, msgs⟩ := @ih a (by simp [queue]) (by simp [queue])
      refine ⟨mq, ?_, ?_⟩
      · simp only [turns, thread_wait queue, run, List.nil_append]
      · rw [msgs, queue, List.drop_nil, List.drop_nil]
    | cons m ms =>
      rw [queue, List.take_succ_cons] at ins idle
      obtain ⟨up, csw⟩ := idle.resolve_left (by simp)
      have head := ins m (by simp)
      subst head
      have next : thread f a = ({ a with mq := a.mq.rest }, []) := by
        rw [thread_in queue, inEpDeal_quiet up csw]
        rfl
      have tail := rest_msgs queue
      obtain ⟨mq, run, msgs⟩ := @ih { a with mq := a.mq.rest }
        (by simp only [tail]; exact fun m mem => ins m (by simp [mem])) (Or.inr ⟨up, csw⟩)
      refine ⟨mq, ?_, ?_⟩
      · simp only [turns, next, run, List.nil_append]
      · rw [msgs, tail, List.drop_succ_cons]

/-- A block is handled the same whatever the CSW flag was. -/
theorem outEpDeal_commandState (up : d.up = false) (down : d.down = false) {buff data : Vector Byte packSize}
    (same : blockOf buff = blockOf data) (sig : (blockOf data).HasSignature) :
    outEpDeal f buff 0x1F d = outEpDeal f data 0x1F (commandState d) := by
  have deal : scsiCmdDeal f (receive buff d) = scsiCmdDeal f (receive data (commandState d)) := by
    have flags : takeCbw (receive buff d) = takeCbw (receive data (commandState d)) := by
      simp only [takeCbw, receive, commandState, same, up, down]
    have signed : (receive buff d).mBOC.HasSignature := by simp only [receive, same, sig]
    have signed' : (receive data (commandState d)).mBOC.HasSignature := by simp only [receive, sig]
    simp only [scsiCmdDeal, if_pos signed, if_pos signed', flags]
  rw [outEpDeal_command f down, outEpDeal_command f (by rfl), deal]

/-- The copy of a 31-byte packet keeps its block. -/
theorem usbOut_block (valid : a.ep5Rx = .valid) (data : Vector Byte packSize) :
    blockOf (a.usbOut data 0x1F).buff = blockOf data := by
  apply Vector.ext
  intro i hi
  have copied : i < ((0x1F#16).toNat + 1) / 2 * 2 := by
    have : ((0x1F#16).toNat + 1) / 2 * 2 = 32 := by decide
    omega
  simp only [usbOut, valid, if_true, blockOf, Vector.getElem_ofFn]
  exact if_pos copied

/-- A packet that EP5 takes while there is room in the queue. -/
theorem usbOut_fields (valid : a.ep5Rx = .valid) (room : a.mq.msgs.length < 10) (data : Vector Byte packSize) :
    (a.usbOut data 0x1F).disk = a.disk ∧ (a.usbOut data 0x1F).rxCnt = 0x1F ∧
    (a.usbOut data 0x1F).mq.msgs = a.mq.msgs ++ [.udiskOut] := by
  simp only [usbOut, valid, if_true, send_msgs room, and_self]

/-- When only completions without effect are pending, the next packet is handled
on the disk as the reset found it. -/
theorem reset_served (ins : ∀ m ∈ a.mq.msgs, m = .udiskIn)
    (idle : a.mq.msgs = [] ∨ (a.disk.up = false ∧ a.disk.csw = false)) (room : a.mq.msgs.length < 10)
    (k : Nat) (data : Vector Byte packSize) :
    ∃ buff, blockOf buff = blockOf data ∧ (pendingServed f k a).2 = [] ∧ (pendingServed f k a).1.ep4Tx = .nak ∧
      (packetServed f k data a).1.disk = (outEpDeal f buff 0x1F a.disk).1 ∧
      (packetServed f k data a).2 = (outEpDeal f buff 0x1F a.disk).2 := by
  have idle₁ : a.usbdReset.mq.msgs.take k = [] ∨ (a.usbdReset.disk.up = false ∧ a.usbdReset.disk.csw = false) := by
    rcases idle with empty | quiet
    · exact Or.inl (by rw [show a.usbdReset.mq.msgs = [] from empty, List.take_nil])
    · exact Or.inr quiet
  obtain ⟨mq, run, msgs⟩ := @turns_quiet f k a.usbdReset (fun m mem => ins m (List.mem_of_mem_take mem)) idle₁
  have room₁ : mq.msgs.length < 10 := by
    rw [msgs, List.length_drop]
    exact Nat.lt_of_le_of_lt (Nat.sub_le _ _) room
  obtain ⟨disk, count, queue⟩ := @usbOut_fields { a.usbdReset with mq := mq } rfl room₁ data
  have block := @usbOut_block { a.usbdReset with mq := mq } rfl data
  refine ⟨(App.usbOut data 0x1F { a.usbdReset with mq := mq }).buff, block, ?_⟩
  refine ⟨by rw [pendingServed, run], by rw [pendingServed, run]; rfl, ?_⟩
  simp only [packetServed, pendingServed, run]
  generalize App.usbOut data 0x1F { a.usbdReset with mq := mq } = c at disk count queue
  -- the completions still pending are served first, then the packet
  have front : c.mq.msgs.take mq.msgs.length = mq.msgs := by rw [queue, List.take_left]
  have ins₂ : ∀ m ∈ c.mq.msgs.take mq.msgs.length, m = .udiskIn := by
    rw [front, msgs]
    exact fun m mem => ins m (List.mem_of_mem_drop mem)
  have idle₂ : c.mq.msgs.take mq.msgs.length = [] ∨ (c.disk.up = false ∧ c.disk.csw = false) := by
    rw [front, msgs, disk]
    rcases idle with empty | quiet
    · exact Or.inl (by rw [show a.usbdReset.mq.msgs = [] from empty, List.drop_nil])
    · exact Or.inr quiet
  obtain ⟨mq₂, run₂, msgs₂⟩ := @turns_quiet f mq.msgs.length c ins₂ idle₂
  rw [queue, List.drop_left] at msgs₂
  have out := @thread_out f { c with mq := mq₂ } [] msgs₂
  rw [queue, List.length_append, List.length_singleton, turns_add, run₂, turns_one, out, List.nil_append]
  simp only [count, disk]
  exact ⟨rfl, rfl⟩

/-- **From a quiet state a reset is effective.** -/
theorem Quiet.effective (q : Quiet a) : ResetEffective f a := by
  have ins : ∀ m ∈ a.mq.msgs, m = .udiskIn := by
    intro m mem
    cases m with
    | udiskIn => rfl
    | udiskOut => exact absurd mem q.out
  have idle : a.mq.msgs = [] ∨ (a.disk.up = false ∧ a.disk.csw = false) := by
    rcases q.csw with csw | empty
    · exact Or.inr ⟨q.up, csw⟩
    · exact Or.inl empty
  intro k data sig
  obtain ⟨buff, block, calls, nak, disk, sent⟩ := reset_served (f := f) ins idle q.room k data
  have deal : outEpDeal f buff 0x1F a.disk = outEpDeal f data 0x1F (commandState a.disk) :=
    outEpDeal_commandState q.up q.down block sig
  rw [disk, sent, deal]
  exact ⟨calls, nak, rfl, rfl, outEpDeal_calls f rfl data⟩

/-! ## Two blocks that show what is left over -/

/-- PREVENT REMOVAL without data: answered by a CSW at once. -/
def prevtRemoveBlock : Vector Byte packSize :=
  packet [0x55, 0x53, 0x42, 0x43, 0x01, 0x00, 0x00, 0x00, 0x00, 0x00, 0x00, 0x00, 0x80, 0x00, 0x06, 0x1E]

/-- REQUEST SENSE with a length of 200: answered by more than one packet. -/
def longSenseBlock : Vector Byte packSize :=
  packet [0x55, 0x53, 0x42, 0x43, 0x01, 0x00, 0x00, 0x00, 0xC8, 0x00, 0x00, 0x00, 0x80, 0x00, 0x06, 0x03]

/-- A sector data packet is staged, whatever it holds. -/
theorem downOnePack_stage (pbuf : Vector Byte packSize) :
    Action.stage (d.secPackCount.toNat * packSize) pbuf ∈ (downOnePack f pbuf d).2 := by
  unfold downOnePack
  simp only
  split <;> simp

/-- What PREVENT REMOVAL does outside a data stage. -/
theorem prevtRemove_deal (down : d.down = false) {buff : Vector Byte packSize}
    (block : blockOf buff = blockOf prevtRemoveBlock) :
    outEpDeal f buff 0x1F d =
      (if d.up then bulkUpData (cmdDealStatus (takeCbw (receive buff d)) 0 0 0)
        else upCsw (cmdDealStatus (takeCbw (receive buff d)) 0 0 0)) := by
  have sig : (receive buff d).mBOC.HasSignature := by
    simp only [receive, block]
    decide
  have cmd : (takeCbw (receive buff d)).mBOC.cmd = .prevtRemove := by
    simp only [takeCbw, receive, block]
    decide
  have len : (receive buff d).mBOC.dataLen = 0 := by
    simp only [receive, block]
    decide
  have op : ¬ (cmdDealStatus (takeCbw (receive buff d)) 0 0 0).mBOC.cbBuf 0 = CMD_U_READ10 := by
    simp only [cmdDealStatus, takeCbw, receive, block]
    decide
  have deal : scsiCmdDeal f (receive buff d) = (cmdDealStatus (takeCbw (receive buff d)) 0 0 0, []) := by
    rw [scsiCmdDeal, if_pos sig, scsiSwitch, cmd]
  have flags : (cmdDealStatus (takeCbw (receive buff d)) 0 0 0).down = false ∧
      (cmdDealStatus (takeCbw (receive buff d)) 0 0 0).up = d.up := by
    simp only [cmdDealStatus, takeCbw, len, bne_self_eq_false, Bool.false_and, Bool.or_false]
    simp only [receive, down, and_self]
  have status : (cmdDealStatus (takeCbw (receive buff d)) 0 0 0).cswStatus = 0x00 := rfl
  rw [outEpDeal_command f down, deal]
  simp only [afterCmd, flags.1, flags.2, status, upPack, if_neg op, Bool.false_eq_true, if_false, if_true,
    List.nil_append, Prod.eta]

/-- From the command state it is the CSW and nothing else. -/
theorem prevtRemove_expected (d : Udisk) :
    ∃ bytes, (outEpDeal f prevtRemoveBlock 0x1F (commandState d)).2 = [.usbSend bytes 0x0D] := by
  rw [prevtRemove_deal (d := commandState d) rfl rfl]
  exact ⟨_, rfl⟩

/-- In any state the block makes the disk do something. -/
theorem prevtRemove_calls (d : Udisk) {buff : Vector Byte packSize} (block : blockOf buff = blockOf prevtRemoveBlock) :
    1 ≤ (outEpDeal f buff 0x1F d).2.length := by
  cases down : d.down with
  | true =>
    rw [outEpDeal_data f down]
    exact List.length_pos_of_mem (downOnePack_stage buff)
  | false =>
    rw [prevtRemove_deal down block]
    split
    · unfold bulkUpData
      split <;> exact Nat.le_refl 1
    · exact Nat.le_refl 1

/-- Only from the command state does the block bring the CSW alone. -/
theorem prevtRemove_quiet {buff : Vector Byte packSize} (block : blockOf buff = blockOf prevtRemoveBlock)
    (same : (outEpDeal f buff 0x1F d).2 = (outEpDeal f prevtRemoveBlock 0x1F (commandState d)).2) :
    d.up = false ∧ d.down = false := by
  obtain ⟨bytes, expected⟩ := prevtRemove_expected (f := f) d
  rw [expected] at same
  cases down : d.down with
  | true =>
    have data := outEpDeal_data f down buff 0x1F
    have stage := downOnePack_stage (f := f) (d := d) buff
    rw [← data, same] at stage
    cases List.mem_singleton.mp stage
  | false =>
    cases up : d.up with
    | false => exact ⟨rfl, rfl⟩
    | true =>
      have len : (cmdDealStatus (takeCbw (receive buff d)) 0 0 0).transferDataLen = 0 := by
        simp only [cmdDealStatus, takeCbw, receive, block]
        decide
      rw [prevtRemove_deal down block, up, if_pos rfl, bulkUpData, len, if_neg (by decide)] at same
      cases same

/-- A long reply leaves a data stage open after its first packet. -/
theorem longSense_deal (down : d.down = false) {buff : Vector Byte packSize}
    (block : blockOf buff = blockOf longSenseBlock) :
    (outEpDeal f buff 0x1F d).1.up = true ∧ ∃ bytes, (outEpDeal f buff 0x1F d).2 = [.usbSend bytes 64] := by
  have sig : (receive buff d).mBOC.HasSignature := by
    simp only [receive, block]
    decide
  have cmd : (takeCbw (receive buff d)).mBOC.cmd = .requestSense := by
    simp only [takeCbw, receive, block]
    decide
  have flags : (takeCbw (receive buff d)).up = true ∧ (takeCbw (receive buff d)).down = false := by
    have len : (receive buff d).mBOC.dataLen ≠ 0 ∧ (receive buff d).mBOC.flag &&& 0x80 ≠ 0 := by
      simp only [receive, block]
      decide
    simp only [takeCbw, bne_iff_ne.mpr len.1, bne_iff_ne.mpr len.2, beq_eq_false_iff_ne.mpr len.2, Bool.and_false,
      Bool.and_true, Bool.or_true, Bool.or_false]
    exact ⟨trivial, by simp only [receive, down]⟩
  have size : (takeCbw (receive buff d)).transferDataLen > 64 := by
    simp only [takeCbw, receive, block]
    decide
  generalize e : takeCbw (receive buff d) = t at cmd flags size
  have deal : scsiCmdDeal f (receive buff d) = ({ reply t (reqSense t) with cswStatus := 0x00 }, []) := by
    rw [scsiCmdDeal, if_pos sig, e, scsiSwitch, cmd]
  have op : ¬ (t.mBOC.overlay (reqSense t)).cbBuf 0 = CMD_U_READ10 := by
    simp [BulkOnlyCmd.cbBuf, BulkOnlyCmd.overlay, reqSense, CMD_U_READ10]
  rw [outEpDeal_command f down, deal]
  simp only [afterCmd, reply, flags.1, flags.2, upPack, if_neg op, bulkUpData, if_pos size,
    Bool.false_eq_true, if_false, if_true, List.nil_append]
  exact ⟨trivial, _, rfl⟩

/-- Each packet served while the block is in the buffer makes the disk do something. -/
theorem turns_outs (n : Nat) : ∀ {a : App}, blockOf a.buff = blockOf prevtRemoveBlock → a.rxCnt = 0x1F →
    (a.mq.msgs.take n).count .udiskOut ≤ (turns f n a).2.length := by
  induction n with
  | zero => intro a _ _; simp [turns]
  | succ n ih =>
    intro a block count
    simp only [turns, List.length_append]
    cases queue : a.mq.msgs with
    | nil => simp
    | cons m ms =>
      have tail := rest_msgs queue
      cases m with
      | udiskIn =>
        have rest := @ih (thread f a).1 (by rw [thread_in queue]; exact block) (by rw [thread_in queue]; exact count)
        have msgs : (thread f a).1.mq.msgs = ms := by rw [thread_in queue]; exact tail
        rw [msgs] at rest
        simp only [List.take_succ_cons, List.count_cons]
        simp only [show ((Msg.udiskIn == Msg.udiskOut) = true) ↔ False by decide, if_false]
        omega
      | udiskOut =>
        have rest := @ih (thread f a).1 (by rw [thread_out queue]; exact block) (by rw [thread_out queue]; exact count)
        have msgs : (thread f a).1.mq.msgs = ms := by rw [thread_out queue]; exact tail
        have here : 1 ≤ (thread f a).2.length := by
          rw [thread_out queue, count]
          exact prevtRemove_calls a.disk block
        rw [msgs] at rest
        simp only [List.take_succ_cons, List.count_cons, beq_self_eq_true, if_true]
        omega

/-! ## What an effective reset needs -/

theorem prevtRemove_signature : (blockOf prevtRemoveBlock).HasSignature := by decide

/-- A completion at the head of the queue finds nothing to send. -/
theorem ResetEffective.head (eff : ResetEffective f a) {ms : List Msg} (queue : a.mq.msgs = .udiskIn :: ms) :
    a.disk.up = false ∧ a.disk.csw = false := by
  have calls := (eff 1 prevtRemoveBlock prevtRemove_signature).1
  rw [pendingServed, turns_one, @thread_in f a.usbdReset ms queue] at calls
  exact inEpDeal_calls calls

theorem pendingServed_valid (k : Nat) : (pendingServed f k a).1.ep5Rx = .valid := turns_valid k rfl

/-- At most one packet is in the queue once the block has arrived. -/
theorem ResetEffective.outs (eff : ResetEffective f a) (k : Nat) :
    ((pendingServed f k a).1.usbOut prevtRemoveBlock 0x1F).mq.msgs.count .udiskOut ≤ 1 := by
  obtain ⟨-, -, -, sent, -⟩ := eff k prevtRemoveBlock prevtRemove_signature
  obtain ⟨bytes, one⟩ := prevtRemove_expected (f := f) a.disk
  have valid := pendingServed_valid (f := f) (a := a) k
  have block := usbOut_block valid prevtRemoveBlock
  have count : ((pendingServed f k a).1.usbOut prevtRemoveBlock 0x1F).rxCnt = 0x1F := by
    simp only [App.usbOut, valid, if_true]
  have served := @turns_outs f ((pendingServed f k a).1.usbOut prevtRemoveBlock 0x1F).mq.msgs.length _ block count
  rw [List.take_length] at served
  have length := congrArg List.length (sent.trans one)
  simp only [packetServed, List.length_singleton] at length
  omega

/-- Where there is room for the block, no packet is pending. -/
theorem ResetEffective.no_out (eff : ResetEffective f a) (k : Nat) (room : (pendingServed f k a).1.mq.msgs.length < 10) :
    .udiskOut ∉ (pendingServed f k a).1.mq.msgs := by
  have once := eff.outs k
  rw [(usbOut_fields (pendingServed_valid k) room _).2.2, List.count_append, List.count_singleton_self] at once
  exact List.count_eq_zero.mp (by omega)

theorem all_in {ms : List Msg} (out : .udiskOut ∉ ms) : ∀ m ∈ ms, m = .udiskIn := by
  intro m mem
  cases m with
  | udiskIn => rfl
  | udiskOut => exact absurd mem out

/-- A packet finds a full queue: only the messages that were there are served. -/
theorem packetServed_full (full : ¬ a.mq.msgs.length < 10) (data : Vector Byte packSize) :
    ∃ c : App, packetServed f 0 data a = turns f a.mq.msgs.length c ∧ c.disk = a.disk ∧ c.mq = a.mq ∧
      blockOf c.buff = blockOf data ∧ c.rxCnt = 0x1F := by
  have valid : a.usbdReset.ep5Rx = .valid := rfl
  have kept : (App.usbOut data 0x1F a.usbdReset).mq = a.mq := by
    simp only [App.usbOut, valid, if_true]
    exact send_full full _
  refine ⟨App.usbOut data 0x1F a.usbdReset, ?_, ?_, kept, usbOut_block valid data, ?_⟩
  · simp only [packetServed, pendingServed, turns, kept]
  · simp only [App.usbOut, if_true, usbdReset]
  · simp only [App.usbOut, valid, if_true]

/-- A queue full of completions loses the block. -/
theorem ResetEffective.full_in (eff : ResetEffective f a) {ms : List Msg} (queue : a.mq.msgs = .udiskIn :: ms)
    (full : ¬ a.mq.msgs.length < 10) : False := by
  have bound := a.mq.bound
  have tail : (pendingServed f 1 a).1.mq.msgs = ms := by
    rw [pendingServed, turns_one, @thread_in f a.usbdReset ms queue]
    exact rest_msgs queue
  have none := eff.no_out 1 (by rw [tail]; rw [queue, List.length_cons] at bound; omega)
  rw [tail] at none
  have ins : ∀ m ∈ a.mq.msgs, m = .udiskIn := by
    rw [queue]
    exact all_in (by simpa using none)
  obtain ⟨c, served, disk, mq, -, -⟩ := packetServed_full (f := f) full prevtRemoveBlock
  obtain ⟨-, -, -, sent, -⟩ := eff 0 prevtRemoveBlock prevtRemove_signature
  obtain ⟨bytes, one⟩ := prevtRemove_expected (f := f) a.disk
  obtain ⟨_, quiet, -⟩ := @turns_quiet f a.mq.msgs.length c
    (by rw [mq]; exact fun m mem => ins m (List.mem_of_mem_take mem)) (Or.inr (by rw [disk]; exact eff.head queue))
  rw [served, quiet, one] at sent
  cases sent

/-- A queue full behind a packet adds to the block's reply. -/
theorem ResetEffective.full_out (eff : ResetEffective f a) {ms : List Msg} (queue : a.mq.msgs = .udiskOut :: ms)
    (full : ¬ a.mq.msgs.length < 10) : False := by
  have bound := a.mq.bound
  -- PREVENT REMOVAL shows that no other packet is pending
  obtain ⟨c, served, -, mq, block, count⟩ := packetServed_full (f := f) full prevtRemoveBlock
  obtain ⟨-, -, -, sent, -⟩ := eff 0 prevtRemoveBlock prevtRemove_signature
  obtain ⟨bytes, one⟩ := prevtRemove_expected (f := f) a.disk
  have outs := @turns_outs f a.mq.msgs.length c block count
  rw [mq, List.take_length, ← served, sent, one, queue, List.count_cons_self, List.length_singleton] at outs
  have ins := all_in (List.count_eq_zero.mp (by omega : ms.count .udiskOut = 0))
  -- and the long reply that the next message is a completion with something to send
  obtain ⟨c, served, disk, mq, block, count⟩ := packetServed_full (f := f) full longSenseBlock
  obtain ⟨-, -, -, sent, -⟩ := eff 0 longSenseBlock (by decide)
  obtain ⟨-, bytes, one⟩ := @longSense_deal f (commandState a.disk) rfl longSenseBlock rfl
  rw [served, one, queue] at sent
  have queue₁ : c.mq.msgs = .udiskOut :: ms := by rw [mq, queue]
  have first := @thread_out f c ms queue₁
  cases ms with
  | nil =>
    rw [queue] at full
    exact full (by decide)
  | cons m rest =>
    have head := ins m List.mem_cons_self
    subst head
    have second := @thread_in f (thread f c).1 rest (by rw [first]; exact rest_msgs queue₁)
    simp only [List.length_cons, turns] at sent
    cases down : a.disk.down with
    | true =>
      have data := outEpDeal_data f (d := c.disk) (by rw [disk, down]) c.buff c.rxCnt
      have stage := downOnePack_stage (f := f) (d := c.disk) c.buff
      have mem := List.mem_append_left ((thread f (thread f c).1).2 ++ (turns f rest.length (thread f (thread f c).1).1).2)
        stage
      rw [← data, ← congrArg Prod.snd first, sent] at mem
      cases List.mem_singleton.mp mem
    | false =>
      obtain ⟨up, _, here⟩ := longSense_deal (f := f) (d := c.disk) (by rw [disk, down]) block
      rw [← count] at up here
      have more : (thread f (thread f c).1).2 ≠ [] := by
        intro nothing
        rw [second] at nothing
        have idle := (inEpDeal_calls nothing).1
        rw [first] at idle
        exact absurd (idle.symm.trans up) Bool.false_ne_true
      have length := congrArg List.length sent
      have size := List.length_pos_iff.mpr more
      have now := congrArg List.length (congrArg Prod.snd first)
      rw [here] at now
      simp only [List.length_append, List.length_singleton] at length now
      omega

/-- A full queue loses the block or serves it with what it adds. -/
theorem ResetEffective.room (eff : ResetEffective f a) : a.mq.msgs.length < 10 := by
  by_contra full
  cases queue : a.mq.msgs with
  | nil => exact full (by rw [queue]; decide)
  | cons m ms =>
    cases m with
    | udiskIn => exact eff.full_in queue full
    | udiskOut => exact eff.full_out queue full

/-- **An effective reset needs a quiet state.** -/
theorem ResetEffective.quiet (eff : ResetEffective f a) : Quiet a := by
  have room := eff.room
  have none : .udiskOut ∉ a.mq.msgs := eff.no_out 0 room
  have ins := all_in none
  have idle : a.mq.msgs = [] ∨ (a.disk.up = false ∧ a.disk.csw = false) := by
    cases queue : a.mq.msgs with
    | nil => exact Or.inl rfl
    | cons m ms =>
      have head := ins m (by rw [queue]; exact List.mem_cons_self)
      subst head
      exact Or.inr (eff.head queue)
  obtain ⟨buff, block, -, -, -, sent⟩ := reset_served (f := f) ins idle room 0 prevtRemoveBlock
  obtain ⟨-, -, -, same, -⟩ := eff 0 prevtRemoveBlock prevtRemove_signature
  obtain ⟨up, down⟩ := prevtRemove_quiet block (sent.symm.trans same)
  refine ⟨up, down, none, ?_, room⟩
  rcases idle with empty | quiet
  · exact Or.inr empty
  · exact Or.inl quiet.2

end Messages

/-- **A bus reset returns the disk to the command state** exactly when nothing of
a command is left over. -/
theorem resetEffective_iff (f : UdiskFunction) (a : App) : ResetEffective f a ↔ Quiet a :=
  ⟨ResetEffective.quiet, Quiet.effective⟩

/-- A reset after the block of a write: the next block is taken as sector data. -/
theorem reset_in_write : ¬ ∀ a, Run.Reachable (App.step (udiskFun 0)) App.start a → ResetEffective (udiskFun 0) a := by
  intro always
  have eff := always _ ⟨[.usbOut writeSector8 0x1F, .thread], rfl⟩
  exact absurd eff.quiet.down (by decide)

end OffLineProgrammer.UsbDisk
