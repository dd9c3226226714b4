import OffLineProgrammer.UsbDisk.Port

/-!
# The lengths of a data stage

`Account` follows one command block: the data bytes moved for it, whether
`UDISK_Transfer_DataLen` has gone below zero, and the residue of its CSW. The
remaining length is set by the command and lowered by each packet; `Upload` and
`Incoming` say how, and `accounting_iff` for which blocks the sums come out.
-/

namespace OffLineProgrammer.UsbDisk
set_option autoImplicit false
open OffLineProgrammer.Lib Udisk

/-! ## The account of a command -/

/-- `mCSW_Residue`, least significant byte first. -/
def residueOf (buf : List Byte) : Nat :=
  (buf.getD 8 0).toNat + 256 * (buf.getD 9 0).toNat + 65536 * (buf.getD 10 0).toNat + 16777216 * (buf.getD 11 0).toNat

/-- The bytes given to EP4. -/
def sentBytes : List Action → Nat
  | [] => 0
  | .usbSendPack len :: as => len.toNat + sentBytes as
  | .usbSend _ len :: as => len.toNat + sentBytes as
  | _ :: as => sentBytes as

def Action.residue? : Action → Option Nat
  | .usbSend buf _ => some (residueOf buf)
  | _ => none

/-- The data bytes of a packet to EP5. -/
def PortEvent.taken (d : Udisk) : PortEvent → Nat
  | .out _ packlen => if d.down then packlen.toNat else 0
  | _ => 0

/-- The packet is the next command block. -/
def PortEvent.isBlock (d : Udisk) : PortEvent → Bool
  | .out _ packlen => !d.down && packlen == 0x1F
  | _ => false

/-- The packets to EP5 have lengths in `Len`. -/
def PortEvent.OfLength (Len : BitVec 16 → Prop) : PortEvent → Prop
  | .out _ packlen => Len packlen
  | _ => True

structure Account where
  port : Port
  /-- The calls that have sent data of the command. -/
  data : List Action
  /-- The data bytes sent and taken for the command. -/
  moved : Nat
  /-- `UDISK_Transfer_DataLen` has been lowered below zero. -/
  wrapped : Bool
  /-- The residue of the CSW, once it is sent. -/
  residue : Option Nat

namespace Account

/-- The account once the port is `p`: `len` was the remaining length before. Only
`UDISK_Up_CSW` clears the CSW flag, so what is sent while it is set is data. -/
def track (len : BitVec 32) (took : Nat) (a : Account) (p : Port) : Account where
  port := p
  data := if p.disk.csw then a.data ++ (p.calls.drop a.port.calls.length).filter Action.isSend else a.data
  moved := a.moved + took + if p.disk.csw then sentBytes (p.calls.drop a.port.calls.length) else 0
  wrapped := a.wrapped || decide (len < p.disk.transferDataLen)
  residue := if p.disk.csw then a.residue
    else a.residue.or ((p.calls.drop a.port.calls.length).findSome? Action.residue?)

/-- Nothing moved yet. -/
def fresh (p : Port) : Account := ⟨p, [], 0, false, none⟩

/-- The block is taken; what counts is the length the command has set. -/
def opened (f : UdiskFunction) (cbw : Vector Byte packSize) (p : Port) : Option Account :=
  (Port.step f (.out cbw 0x1F) p).map
    (track (scsiCmdDeal f (receive cbw p.disk)).1.transferDataLen 0 (fresh p))

/-- What follows it, up to the next block. -/
def step (f : UdiskFunction) (e : PortEvent) (a : Account) : Option Account :=
  if e.isBlock a.port.disk then none
  else (Port.step f e a.port).map (track a.port.disk.transferDataLen (e.taken a.port.disk) a)

/-- The account is right for a block with the data length `D`. -/
structure Right (D : Nat) (a : Account) : Prop where
  within : a.moved ≤ D
  positive : a.wrapped = false
  residue : ∀ r, a.residue = some r → r + a.moved = D

end Account

/-- The account is right in every state that a continuation reaches. -/
def Accounts (f : UdiskFunction) (Len : BitVec 16 → Prop) (cbw : Vector Byte packSize) (p : Port) : Prop :=
  ∀ es a₀ a, (∀ e ∈ es, e.OfLength Len) → Account.opened f cbw p = some a₀ → Run.run (Account.step f) es a₀ = some a →
    a.Right (blockOf cbw).dataLen.toNat

namespace Account

/-! ## One step -/

section Steps

variable {f : UdiskFunction} {a a' : Account}

/-- A handler `r` that leaves the status `st` of EP4 to its calls. -/
def after (a : Account) (len : BitVec 32) (took : Nat) (st : EpStat) (r : Udisk × List Action) : Account :=
  track len took a ⟨r.1, App.armed st r.2, a.port.calls ++ r.2⟩

variable (len : BitVec 32) (took : Nat) (st : EpStat) (r : Udisk × List Action)

@[simp] theorem after_disk : (a.after len took st r).port.disk = r.1 := rfl

@[simp] theorem after_ep4 : (a.after len took st r).port.ep4 = App.armed st r.2 := rfl

theorem after_moved : (a.after len took st r).moved = a.moved + took + if r.1.csw then sentBytes r.2 else 0 := by
  simp only [after, track, List.drop_left]

theorem after_data :
    (a.after len took st r).data = if r.1.csw then a.data ++ r.2.filter Action.isSend else a.data := by
  simp only [after, track, List.drop_left]

theorem after_wrapped : (a.after len took st r).wrapped = (a.wrapped || decide (len < r.1.transferDataLen)) := rfl

theorem after_residue :
    (a.after len took st r).residue = if r.1.csw then a.residue else a.residue.or (r.2.findSome? Action.residue?) := by
  simp only [after, track, List.drop_left]

theorem armed_nil (st : EpStat) : App.armed st [] = st := rfl

theorem not_below (x : BitVec 32) : decide (x < x) = false := by simp

/-- Nothing is called: only the status of EP4 may change. -/
theorem after_idle (a : Account) (st : EpStat) :
    a.after a.port.disk.transferDataLen 0 st (a.port.disk, []) = { a with port := { a.port with ep4 := st } } := by
  simp only [after, track, List.append_nil, List.drop_length, List.filter_nil, sentBytes, List.findSome?_nil, ite_self,
    Nat.add_zero, Option.or_none, not_below, Bool.or_false]
  rw [armed_nil]

/-- **What a step does.** -/
theorem step_cases {e : PortEvent} (go : step f e a = some a') :
    (∃ pbuf packlen, e = .out pbuf packlen ∧ a.port.disk.down = true ∧
      a' = a.after a.port.disk.transferDataLen packlen.toNat a.port.ep4 (downOnePack f pbuf a.port.disk)) ∨
    (e = .inDone ∧ a.port.ep4 = .valid ∧ a' = a.after a.port.disk.transferDataLen 0 .nak (inEpDeal f a.port.disk)) ∨
    (∃ st, (st = a.port.ep4 ∨ (a.port.ep4 = .stall ∧ st = .valid)) ∧
      a' = { a with port := { a.port with ep4 := st } }) := by
  rw [step] at go
  split at go
  · cases go
  · rename_i other
    obtain ⟨p', next, rfl⟩ := Option.map_eq_some_iff.mp go
    cases e with
    | out pbuf packlen =>
      rw [Port.step, Port.serve] at next
      split at next
      · cases next
      · cases next
        cases down : a.port.disk.down with
        | true =>
          refine Or.inl ⟨pbuf, packlen, rfl, rfl, ?_⟩
          simp only [PortEvent.taken, down, if_true, after, outEpDeal_data f down]
        | false =>
          have short : packlen ≠ 0x1F := by
            intro block
            simp [PortEvent.isBlock, down, block] at other
          refine Or.inr (Or.inr ⟨a.port.ep4, Or.inl rfl, ?_⟩)
          rw [← after_idle]
          simp only [PortEvent.taken, down, Bool.false_eq_true, if_false, after, outEpDeal_other f down pbuf short]
    | inDone =>
      rw [Port.step] at next
      split at next
      · rename_i valid
        rw [Port.serve] at next
        split at next
        · cases next
        · cases next
          exact Or.inr (Or.inl ⟨rfl, valid, rfl⟩)
      · cases next
    | clearHalt =>
      cases next
      refine Or.inr (Or.inr ⟨if a.port.ep4 = .stall then .valid else a.port.ep4, ?_, ?_⟩)
      · split
        · rename_i stalled
          exact Or.inr ⟨stalled, rfl⟩
        · exact Or.inl rfl
      · rw [← after_idle, after, armed_nil, List.append_nil, PortEvent.taken]
        exact fun _ _ => PortEvent.noConfusion

/-- A data packet in the data stage. -/
theorem step_out (down : a.port.disk.down = true) (pbuf : Vector Byte packSize) (packlen : BitVec 16)
    (returns : .rxStall ∉ (downOnePack f pbuf a.port.disk).2) :
    step f (.out pbuf packlen) a =
      some (a.after a.port.disk.transferDataLen packlen.toNat a.port.ep4 (downOnePack f pbuf a.port.disk)) := by
  have data : PortEvent.isBlock a.port.disk (.out pbuf packlen) = false := by simp [PortEvent.isBlock, down]
  rw [step, data, if_neg Bool.false_ne_true, Port.step, outEpDeal_data f down, Port.serve_some returns, Option.map_some,
    PortEvent.taken, if_pos down, after]

/-- The host reads the packet of EP4. -/
theorem step_in (valid : a.port.ep4 = .valid) (returns : .rxStall ∉ (inEpDeal f a.port.disk).2) :
    step f .inDone a = some (a.after a.port.disk.transferDataLen 0 .nak (inEpDeal f a.port.disk)) := by
  rw [step, PortEvent.isBlock, if_neg Bool.false_ne_true, Port.step, if_pos valid, Port.serve_some returns, Option.map_some,
    PortEvent.taken, after] <;> exact fun _ _ => PortEvent.noConfusion

/-- The host clears the halt of EP4. -/
theorem step_clear (f : UdiskFunction) (stalled : a.port.ep4 = .stall) :
    step f .clearHalt a = some { a with port := { a.port with ep4 := .valid } } := by
  rw [← after_idle, step, PortEvent.isBlock, if_neg Bool.false_ne_true, Port.step, if_pos stalled, Option.map_some,
    PortEvent.taken, after, armed_nil, List.append_nil] <;> exact fun _ _ => PortEvent.noConfusion

end Steps

/-! ## Phases of a command -/

section Phases

variable {flashId : Byte} {T : Nat} {a a' : Account}

/-- The data are moved; the CSW may be due, or is sent with the residue 0. -/
structure Settled (T : Nat) (a : Account) : Prop where
  up : a.port.disk.up = false
  down : a.port.disk.down = false
  wrapped : a.wrapped = false
  moved : a.moved = T
  residue : ∀ r, a.residue = some r → r = 0

/-- The CSW is due once the packet of EP4 is read. -/
structure Due (T : Nat) (a : Account) : Prop where
  settled : Settled T a
  csw : a.port.disk.csw = true
  none : a.residue = .none
  ep4 : a.port.ep4 = .valid

/-- Data to the host: what is moved and what remains are `T` bytes. -/
structure Upload (T : Nat) (a : Account) : Prop where
  up : a.port.disk.up = true
  down : a.port.disk.down = false
  csw : a.port.disk.csw = true
  wrapped : a.wrapped = false
  none : a.residue = .none
  ep4 : a.port.ep4 = .valid
  left : a.moved + a.port.disk.transferDataLen.toNat = T
  sectors : a.port.disk.mBOC.cbBuf 0 = CMD_U_READ10 →
    a.port.disk.transferDataLen.toNat % 64 = 0 ∧ a.port.disk.transferDataLen.toNat ≠ 0

theorem cswCall_residue (d : Udisk) : (upCsw d).2.findSome? Action.residue? = some 0 := by
  have zero : ∀ i : Nat, 8 ≤ i → i < 12 → (d.mBOC.overlay d.cswBytes).toList.getD i 0 = 0 := by
    intro i low high
    have at_ : ((d.mBOC.overlay d.cswBytes).toList.take 13).getD i 0 = (d.mBOC.overlay d.cswBytes).toList.getD i 0 := by
      rw [List.getD_eq_getElem?_getD, List.getElem?_take, if_pos (by omega), ← List.getD_eq_getElem?_getD]
    rw [← at_, cswBytes_front d]
    have cases_ : i = 8 ∨ i = 9 ∨ i = 10 ∨ i = 11 := by omega
    rcases cases_ with rfl | rfl | rfl | rfl <;> simp [cswBytes]
  simp only [upCsw, List.findSome?_cons, Action.residue?, residueOf, zero 8 (by decide) (by decide),
    zero 9 (by decide) (by decide), zero 10 (by decide) (by decide), zero 11 (by decide) (by decide)]
  rfl

/-- `UDISK_Up_CSW` in the account. -/
theorem after_upCsw (d : Udisk) (took : Nat) (st : EpStat) (wrapped : a.wrapped = false)
    (zero : ∀ r, a.residue = some r → r = 0) :
    Settled (a.moved + took) (a.after d.transferDataLen took st (upCsw d)) ∧
      (a.after d.transferDataLen took st (upCsw d)).residue = some 0 := by
  have off : (upCsw d).1.csw = false := rfl
  have residue : (a.after d.transferDataLen took st (upCsw d)).residue = some 0 := by
    rw [after_residue, off, if_neg Bool.false_ne_true, cswCall_residue]
    cases before : a.residue with
    | none => rfl
    | some r => rw [zero r before, Option.some_or]
  refine ⟨⟨rfl, rfl, ?_, ?_, ?_⟩, residue⟩
  · rw [after_wrapped, wrapped, Bool.false_or]
    exact not_below _
  · rw [after_moved, off, if_neg Bool.false_ne_true, Nat.add_zero]
  · intro r same
    rw [residue] at same
    exact (Option.some.inj same).symm

theorem Settled.right (settled : Settled T a) : a.Right T :=
  ⟨Nat.le_of_eq settled.moved, settled.wrapped, fun r same => by
    rw [settled.residue r same, settled.moved, Nat.zero_add]⟩

theorem Upload.right (upload : Upload T a) : a.Right T :=
  ⟨by have := upload.left; omega, upload.wrapped, fun r same => by rw [upload.none] at same; cases same⟩

/-- Nothing more is moved. -/
theorem Settled.step (settled : Settled T a) {e : PortEvent} (go : step (udiskFun flashId) e a = some a') :
    Settled T a' := by
  rcases step_cases go with ⟨_, _, -, down, -⟩ | ⟨-, valid, rfl⟩ | ⟨st, -, rfl⟩
  · rw [settled.down] at down
    cases down
  · cases csw : a.port.disk.csw with
    | false =>
      have quiet : inEpDeal (udiskFun flashId) a.port.disk = (a.port.disk, []) := by
        simp only [inEpDeal, settled.up, csw, Bool.false_eq_true, if_false]
      rw [quiet, after_idle]
      exact ⟨settled.up, settled.down, settled.wrapped, settled.moved, settled.residue⟩
    | true =>
      have deal : inEpDeal (udiskFun flashId) a.port.disk = upCsw a.port.disk := by
        simp only [inEpDeal, settled.up, csw, Bool.false_eq_true, if_false, if_true]
      obtain ⟨ends, -⟩ := after_upCsw a.port.disk 0 .nak settled.wrapped settled.residue
      rw [settled.moved, Nat.add_zero] at ends
      rw [deal]
      exact ends
  · exact ⟨settled.up, settled.down, settled.wrapped, settled.moved, settled.residue⟩

/-- What one packet of data to the host does. -/
structure Packet (d : Udisk) (r : Udisk × List Action) : Prop where
  returns : .rxStall ∉ r.2
  armed : ∀ st, App.armed st r.2 = .valid
  down : r.1.down = d.down
  csw : r.1.csw = d.csw
  opcode : r.1.mBOC = d.mBOC
  bytes : sentBytes r.2 + r.1.transferDataLen.toNat = d.transferDataLen.toNat
  up : r.1.up = true ∨ r.1.up = false ∧ r.1.transferDataLen.toNat = 0
  further : r.1.up = true → r.1.transferDataLen.toNat < d.transferDataLen.toNat
  sectors : d.mBOC.cbBuf 0 = CMD_U_READ10 → r.1.up = true →
    r.1.transferDataLen.toNat % 64 = 0 ∧ r.1.transferDataLen.toNat ≠ 0

theorem upPack_packet (f : UdiskFunction) {d : Udisk} (up : d.up = true)
    (sectors : d.mBOC.cbBuf 0 = CMD_U_READ10 → d.transferDataLen.toNat % 64 = 0 ∧ d.transferDataLen.toNat ≠ 0) :
    Packet d (upPack f d) := by
  unfold upPack
  split
  · rename_i read
    obtain ⟨whole, some_⟩ := sectors read
    have less : (d.transferDataLen - 64).toNat + 64 = d.transferDataLen.toNat := by bv_omega
    have more : (upOnePack f d).1.up = true → (d.transferDataLen - 64).toNat ≠ 0 := by
      intro on zero
      have off : d.transferDataLen - 64 = 0 := BitVec.eq_of_toNat_eq zero
      simp only [upOnePack, Bool.and_eq_true, bne_iff_ne] at on
      exact on.2 off
    refine ⟨by simp [upOnePack], fun st => rfl, rfl, rfl, rfl, ?_, ?_, ?_, ?_⟩
    · show 64 + 0 + (d.transferDataLen - 64).toNat = _
      omega
    · by_cases last : d.transferDataLen - 64 = 0
      · right
        refine ⟨by simp only [upOnePack, last, bne_self_eq_false, Bool.and_false], ?_⟩
        show (d.transferDataLen - 64).toNat = 0
        rw [last]
        rfl
      · left
        show (d.up && d.transferDataLen - 64 != 0) = true
        rw [up, Bool.true_and, bne_iff_ne]
        exact last
    · intro _
      show (d.transferDataLen - 64).toNat < _
      omega
    · intro _ on
      refine ⟨?_, more on⟩
      show (d.transferDataLen - 64).toNat % 64 = 0
      omega
  · rename_i other
    unfold bulkUpData
    split
    · rename_i long
      have less : (d.transferDataLen - 64).toNat + 64 = d.transferDataLen.toNat := by bv_omega
      refine ⟨by simp, fun st => rfl, rfl, rfl, rfl, ?_, Or.inl up, ?_, fun read => absurd read other⟩
      · show 64 + 0 + (d.transferDataLen - 64).toNat = _
        omega
      · intro _
        show (d.transferDataLen - 64).toNat < _
        omega
    · refine ⟨by simp, fun st => rfl, rfl, rfl, rfl, ?_, Or.inr ⟨rfl, rfl⟩, fun on => Bool.noConfusion on,
        fun read => absurd read other⟩
      show d.transferDataLen.toNat + 0 + 0 = _
      omega

/-- A packet to the host in the account. -/
theorem after_packet {d : Udisk} {r : Udisk × List Action} (packet : Packet d r) (down : d.down = false)
    (csw : d.csw = true) (wrapped : a.wrapped = false) (none : a.residue = .none)
    (left : a.moved + d.transferDataLen.toNat = T) (st : EpStat) :
    (Upload T (a.after d.transferDataLen 0 st r) ∧
        (a.after d.transferDataLen 0 st r).port.disk.transferDataLen.toNat < d.transferDataLen.toNat) ∨
      Due T (a.after d.transferDataLen 0 st r) := by
  have on : r.1.csw = true := packet.csw.trans csw
  have moved : (a.after d.transferDataLen 0 st r).moved = a.moved + sentBytes r.2 := by
    rw [after_moved, if_pos on, Nat.add_zero]
  have bytes := packet.bytes
  have positive : (a.after d.transferDataLen 0 st r).wrapped = false := by
    rw [after_wrapped, wrapped, Bool.false_or, decide_eq_false_iff_not, BitVec.lt_def]
    omega
  have still : (a.after d.transferDataLen 0 st r).residue = .none := by rw [after_residue, if_pos on, none]
  have valid : (a.after d.transferDataLen 0 st r).port.ep4 = .valid := packet.armed st
  rcases packet.up with more | ⟨past, zero⟩
  · left
    refine ⟨⟨more, packet.down.trans down, on, positive, still, valid, ?_, ?_⟩, packet.further more⟩
    · rw [moved, after_disk]
      omega
    · intro read
      rw [after_disk, packet.opcode] at read
      exact packet.sectors read more
  · right
    refine ⟨⟨past, packet.down.trans down, positive, ?_, ?_⟩, on, still, valid⟩
    · rw [moved]
      omega
    · intro s same
      rw [still] at same
      cases same

/-- The host reads a data packet. -/
theorem Upload.inDone (flashId : Byte) (upload : Upload T a) :
    ∃ a', Account.step (udiskFun flashId) .inDone a = some a' ∧
      ((Upload T a' ∧ a'.port.disk.transferDataLen.toNat < a.port.disk.transferDataLen.toNat) ∨ Due T a') := by
  have deal : inEpDeal (udiskFun flashId) a.port.disk = upPack (udiskFun flashId) a.port.disk := by
    simp only [inEpDeal, upload.up, if_true]
  have packet := upPack_packet (udiskFun flashId) upload.up upload.sectors
  rw [← deal] at packet
  exact ⟨_, step_in upload.ep4 packet.returns, after_packet packet upload.down upload.csw upload.wrapped upload.none
    upload.left .nak⟩

/-- The host reads the last data packet. -/
theorem Due.inDone (flashId : Byte) (due : Due T a) :
    ∃ a', Account.step (udiskFun flashId) .inDone a = some a' ∧ a'.moved = T ∧ a'.residue = some 0 := by
  have deal : inEpDeal (udiskFun flashId) a.port.disk = upCsw a.port.disk := by
    simp only [inEpDeal, due.settled.up, due.csw, Bool.false_eq_true, if_false, if_true]
  have returns : .rxStall ∉ (inEpDeal (udiskFun flashId) a.port.disk).2 := by rw [deal]; simp [upCsw]
  obtain ⟨settled, residue⟩ := after_upCsw a.port.disk 0 .nak due.settled.wrapped due.settled.residue
  refine ⟨_, step_in due.ep4 returns, ?_, ?_⟩
  · rw [deal, settled.moved, due.settled.moved, Nat.add_zero]
  · rw [deal, residue]

/-- **Data to the host come to their end**: `T` bytes, and the residue 0. -/
theorem Upload.drains (flashId : Byte) (upload : Upload T a) :
    ∃ n a', Run.run (Account.step (udiskFun flashId)) (List.replicate n .inDone) a = some a' ∧ a'.moved = T ∧
      a'.residue = some 0 := by
  induction len : a.port.disk.transferDataLen.toNat using Nat.strongRecOn generalizing a with
  | ind k ih =>
    obtain ⟨a₁, go, next⟩ := upload.inDone flashId
    rcases next with ⟨further, less⟩ | due
    · obtain ⟨n, a', run, ends⟩ := ih _ (len ▸ less) further rfl
      exact ⟨n + 1, a', by rw [List.replicate_succ, Run.run_cons go, run], ends⟩
    · obtain ⟨a', last, ends⟩ := due.inDone flashId
      exact ⟨2, a', by rw [List.replicate_succ, Run.run_cons go]; exact Run.run_cons last, ends⟩

/-- Data to the host stay data to the host, or end. -/
theorem Upload.step (upload : Upload T a) {e : PortEvent} (go : Account.step (udiskFun flashId) e a = some a') :
    Upload T a' ∨ Settled T a' := by
  rcases step_cases go with ⟨_, _, -, down, -⟩ | ⟨rfl, valid, -⟩ | ⟨st, same, rfl⟩
  · rw [upload.down] at down
    cases down
  · obtain ⟨a₁, next, ends⟩ := upload.inDone flashId
    rw [go] at next
    cases next
    exact ends.imp And.left Due.settled
  · left
    have valid : st = .valid := by
      rcases same with rfl | ⟨-, rfl⟩
      · exact upload.ep4
      · rfl
    exact ⟨upload.up, upload.down, upload.csw, upload.wrapped, upload.none, valid, upload.left, upload.sectors⟩

/-! ## Data from the host -/

/-- Waiting for data packets. -/
structure Incoming (a : Account) : Prop where
  up : a.port.disk.up = false
  down : a.port.disk.down = true
  csw : a.port.disk.csw = true
  wrapped : a.wrapped = false
  none : a.residue = .none
  ep4 : a.port.ep4 = .nak
  count : a.port.disk.secPackCount.toNat < 64

/-- `len` bytes end with a packet that ends a sector, `count` packets of it being there. -/
def Ends (len count : Nat) : Prop := len ≠ 0 ∧ len % 64 = 0 ∧ (count + len / 64) % 64 = 0

/-- What a data packet does. -/
inductive Taken (a : Account) (packlen : BitVec 16) (a' : Account) : Prop where
  | below (less : a.port.disk.transferDataLen.toNat < 64) (wrapped : a'.wrapped = true)
  | more (left : a'.port.disk.transferDataLen.toNat + 64 = a.port.disk.transferDataLen.toNat)
      (count : a'.port.disk.secPackCount.toNat = (a.port.disk.secPackCount.toNat + 1) % 64)
      (rest : ¬ (a.port.disk.transferDataLen.toNat = 64 ∧ a.port.disk.secPackCount.toNat = 63))
      (moved : a'.moved = a.moved + packlen.toNat) (incoming : Incoming a')
  | last (left : a.port.disk.transferDataLen.toNat = 64) (count : a.port.disk.secPackCount.toNat = 63)
      (settled : Settled (a.moved + packlen.toNat) a') (residue : a'.residue = some 0)

/-- A packet that leaves the disk waiting, with what it has called. -/
theorem Incoming.waits (incoming : Incoming a) {r : Udisk × List Action} (packlen : BitVec 16)
    (enough : 64 ≤ a.port.disk.transferDataLen.toNat)
    (rest : ¬ (a.port.disk.transferDataLen.toNat = 64 ∧ a.port.disk.secPackCount.toNat = 63))
    (flags : r.1.up = a.port.disk.up ∧ r.1.down = a.port.disk.down ∧ r.1.csw = a.port.disk.csw)
    (len : r.1.transferDataLen = a.port.disk.transferDataLen - 64)
    (count : r.1.secPackCount.toNat = (a.port.disk.secPackCount.toNat + 1) % 64)
    (silent : sentBytes r.2 = 0) (same : App.armed a.port.ep4 r.2 = a.port.ep4) :
    Taken a packlen (a.after a.port.disk.transferDataLen packlen.toNat a.port.ep4 r) := by
  have on : r.1.csw = true := flags.2.2.trans incoming.csw
  have left : r.1.transferDataLen.toNat + 64 = a.port.disk.transferDataLen.toNat := by
    rw [len]
    bv_omega
  refine .more left count rest ?_ ⟨flags.1.trans incoming.up, flags.2.1.trans incoming.down, on, ?_, ?_, ?_, ?_⟩
  · rw [after_moved, if_pos on, silent, Nat.add_zero]
  · rw [after_wrapped, incoming.wrapped, Bool.false_or, decide_eq_false_iff_not, BitVec.lt_def]
    omega
  · rw [after_residue, if_pos on, incoming.none]
  · rw [after_ep4, same, incoming.ep4]
  · rw [after_disk, count]
    omega

theorem downOnePack_len (f : UdiskFunction) (pbuf : Vector Byte packSize) (d : Udisk) :
    (downOnePack f pbuf d).1.transferDataLen = d.transferDataLen - 64 := by
  unfold downOnePack
  simp only
  split
  · split <;> rfl
  · rfl

/-- The CSW of the last data packet. -/
theorem Incoming.ends (incoming : Incoming a) {len : BitVec 32} {took : Nat} {st : EpStat} {r : Udisk × List Action}
    {pbuf : Vector Byte packSize} {d : Udisk} (off : r.1.csw = false)
    (calls : r.2 = [.stage (63 * packSize) pbuf, .writeData d.secStartAddr 4096] ++ (upCsw d.afterLast).2) :
    (a.after len took st r).residue = some 0 := by
  rw [after_residue, off, if_neg Bool.false_ne_true, incoming.none, Option.none_or, calls]
  exact cswCall_residue d.afterLast

/-- **A data packet** from the host. -/
theorem Incoming.out (flashId : Byte) (incoming : Incoming a) (pbuf : Vector Byte packSize) (packlen : BitVec 16) :
    ∃ a', Account.step (udiskFun flashId) (.out pbuf packlen) a = some a' ∧ Taken a packlen a' := by
  have returns : .rxStall ∉ (downOnePack (udiskFun flashId) pbuf a.port.disk).2 := by
    unfold downOnePack
    simp only
    split
    · split <;> simp [upCsw]
    · simp
  have count := incoming.count
  refine ⟨_, step_out incoming.down pbuf packlen returns, ?_⟩
  by_cases enough : 64 ≤ a.port.disk.transferDataLen.toNat
  · by_cases last : a.port.disk.secPackCount.toNat = 63
    · by_cases done : a.port.disk.transferDataLen - 64 = 0
      · have one : a.port.disk.transferDataLen.toNat = 64 := by bv_omega
        rw [downOnePack_final flashId pbuf last done]
        refine .last one last ⟨rfl, rfl, ?_, ?_, ?_⟩ ?_
        · rw [after_wrapped, incoming.wrapped, Bool.false_or, decide_eq_false_iff_not, BitVec.lt_def]
          show ¬ _ < (a.port.disk.transferDataLen - 64).toNat
          rw [done, one]
          decide
        · rw [after_moved]
          exact Nat.add_zero _
        · intro s same
          rw [incoming.ends rfl rfl] at same
          exact (Option.some.inj same).symm
        · exact incoming.ends rfl rfl
      · rw [downOnePack_sector flashId pbuf last done]
        refine incoming.waits packlen enough (fun h => done (by bv_omega)) ⟨rfl, rfl, rfl⟩ rfl ?_ rfl rfl
        show 0 = _
        omega
    · rw [downOnePack_inside flashId pbuf (by omega)]
      obtain ⟨-, -, armed⟩ := inside_calls a.port.disk (a.port.disk.secPackCount.toNat * packSize) pbuf
      refine incoming.waits packlen enough (fun h => last h.2) ⟨rfl, rfl, rfl⟩ rfl ?_ ?_ (armed _)
      · show (a.port.disk.secPackCount + 1).toNat = _
        bv_omega
      · unfold eraseFirst
        split <;> rfl
  · refine .below (by omega) ?_
    rw [after_wrapped, downOnePack_len, incoming.wrapped, Bool.false_or, decide_eq_true_iff, BitVec.lt_def]
    bv_omega

/-- A data packet with the length `packlen`. -/
def dataPacket (packlen : BitVec 16) : PortEvent := .out (Vector.replicate packSize 0) packlen

/-- **Without an end** the remaining length goes below zero. -/
theorem Incoming.wraps (flashId : Byte) (packlen : BitVec 16) (incoming : Incoming a)
    (endless : ¬ Ends a.port.disk.transferDataLen.toNat a.port.disk.secPackCount.toNat) :
    ∃ n a', Run.run (Account.step (udiskFun flashId)) (List.replicate n (dataPacket packlen)) a = some a' ∧
      a'.wrapped = true := by
  induction len : a.port.disk.transferDataLen.toNat using Nat.strongRecOn generalizing a with
  | ind k ih =>
    obtain ⟨a₁, go, next⟩ := incoming.out flashId (Vector.replicate packSize 0) packlen
    cases next with
    | below less wrapped => exact ⟨1, a₁, Run.run_cons go, wrapped⟩
    | more left count rest moved further =>
      have later : ¬ Ends a₁.port.disk.transferDataLen.toNat a₁.port.disk.secPackCount.toNat := by
        rintro ⟨some_, whole, sector⟩
        apply endless
        refine ⟨by omega, by omega, ?_⟩
        rw [count] at sector
        omega
      obtain ⟨n, a', run, wrapped⟩ := ih _ (by omega) further later rfl
      exact ⟨n + 1, a', by rw [List.replicate_succ, dataPacket, Run.run_cons go]; exact run, wrapped⟩
    | last left count settled residue =>
      exact absurd ⟨by omega, by omega, by omega⟩ endless

/-- **With an end** the CSW comes with the residue 0 after one packet for each 64 bytes. -/
theorem Incoming.drains (flashId : Byte) (packlen : BitVec 16) (incoming : Incoming a)
    (ends : Ends a.port.disk.transferDataLen.toNat a.port.disk.secPackCount.toNat) :
    ∃ n a', Run.run (Account.step (udiskFun flashId)) (List.replicate n (dataPacket packlen)) a = some a' ∧
      a'.moved = a.moved + a.port.disk.transferDataLen.toNat / 64 * packlen.toNat ∧ a'.residue = some 0 := by
  induction len : a.port.disk.transferDataLen.toNat using Nat.strongRecOn generalizing a with
  | ind k ih =>
    obtain ⟨some_, whole, sector⟩ := ends
    have below := incoming.count
    obtain ⟨a₁, go, next⟩ := incoming.out flashId (Vector.replicate packSize 0) packlen
    cases next with
    | below less wrapped => exact absurd whole (by omega)
    | more left count rest moved further =>
      obtain ⟨n, a', run, sum, residue⟩ := ih _ (by omega) further ⟨by omega, by omega, by rw [count]; omega⟩ rfl
      refine ⟨n + 1, a', by rw [List.replicate_succ, dataPacket, Run.run_cons go]; exact run, ?_, residue⟩
      have one : k / 64 = a₁.port.disk.transferDataLen.toNat / 64 + 1 := by omega
      rw [sum, moved, one, Nat.add_mul, Nat.one_mul]
      omega
    | last left count settled residue =>
      refine ⟨1, a₁, Run.run_cons go, ?_, residue⟩
      rw [settled.moved, ← len, left]
      omega

/-- Data from the host in packets that carry `D` bytes in all. -/
structure Download (D : Nat) (Len : BitVec 16 → Prop) (a : Account) : Prop where
  incoming : Incoming a
  ends : Ends a.port.disk.transferDataLen.toNat a.port.disk.secPackCount.toNat
  left : ∀ l, Len l → a.moved + a.port.disk.transferDataLen.toNat / 64 * l.toNat = D

theorem Download.right {Len : BitVec 16 → Prop} (download : Download T Len a) (some_ : ∃ l, Len l) : a.Right T := by
  obtain ⟨l, mem⟩ := some_
  have left := download.left l mem
  exact ⟨by omega, download.incoming.wrapped, fun r same => by rw [download.incoming.none] at same; cases same⟩

theorem Download.step {Len : BitVec 16 → Prop} (download : Download T Len a) {e : PortEvent} (of : e.OfLength Len)
    (go : Account.step (udiskFun flashId) e a = some a') : Download T Len a' ∨ Settled T a' := by
  obtain ⟨incoming, ⟨some_, whole, sector⟩, left⟩ := download
  have below := incoming.count
  rcases step_cases go with ⟨pbuf, packlen, rfl, -, -⟩ | ⟨-, valid, -⟩ | ⟨st, same, rfl⟩
  · have this := left packlen of
    obtain ⟨a₁, next, taken⟩ := incoming.out flashId pbuf packlen
    rw [go] at next
    cases next
    cases taken with
    | below less wrapped => exact absurd whole (by omega)
    | more further count rest moved waits =>
      refine Or.inl ⟨waits, ⟨by omega, by omega, by rw [count]; omega⟩, ?_⟩
      intro l mem
      have one : a.port.disk.transferDataLen.toNat / 64 = a'.port.disk.transferDataLen.toNat / 64 + 1 := by omega
      have that := left l mem
      -- two lengths that both come out are the same
      have equal : l.toNat = packlen.toNat := by
        rw [← this] at that
        exact Nat.eq_of_mul_eq_mul_left (by omega) (Nat.add_left_cancel that)
      rw [one, Nat.add_mul, Nat.one_mul] at that
      rw [moved]
      omega
    | last final count settled residue =>
      rw [final] at this
      have all : a.moved + packlen.toNat = T := by omega
      exact Or.inr (all ▸ settled)
  · rw [incoming.ep4] at valid
    cases valid
  · have nak : st = .nak := by
      rcases same with rfl | ⟨stalled, -⟩
      · exact incoming.ep4
      · rw [incoming.ep4] at stalled
        cases stalled
    exact Or.inl ⟨⟨incoming.up, incoming.down, incoming.csw, incoming.wrapped, incoming.none, nak, incoming.count⟩,
      ⟨some_, whole, sector⟩, left⟩

end Phases

/-! ## The block -/

section Open

variable {flashId : Byte} {p : Port} {cbw : Vector Byte packSize}

/-- An accepted block, before anything is sent. -/
structure Opening (flashId : Byte) (p : Port) (cbw : Vector Byte packSize) (e : Udisk) : Prop where
  up : e.up = (p.disk.up || (blockOf cbw).dataIn)
  down : e.down = (blockOf cbw).dataOut
  csw : e.csw = true
  len : e.transferDataLen = (blockOf cbw).stageLen (udiskFun flashId)
  count : e.secPackCount = if (blockOf cbw).IsRdWr then 0 else p.disk.secPackCount
  dispatch : e.mBOC.cbBuf 0 = CMD_U_READ10 ↔ (blockOf cbw).IsRead
  reply : e.endp2Bytes.take (response (udiskFun flashId) (receive cbw p.disk)).length =
    response (udiskFun flashId) (receive cbw p.disk)

theorem afterCmd_returns (f : UdiskFunction) (d : Udisk) : .rxStall ∉ (afterCmd f d).2 :=
  fun mem => Action.ne_rxStall_upload (afterCmd_upload f d _ mem) rfl

theorem opened_accepted (flashId : Byte) (ruled : p.disk.Ruled) (idle : p.disk.down = false)
    (sig : (blockOf cbw).HasSignature) (taken : ¬ (blockOf cbw).Refused) :
    ∃ e, Opening flashId p cbw e ∧ opened (udiskFun flashId) cbw p =
      some ((fresh p).after e.transferDataLen 0 p.ep4 (afterCmd (udiskFun flashId) e)) := by
  have accepted : (receive cbw p.disk).rejected = false := by
    rw [Bool.eq_false_iff, Ne, rejected_iff (by rw [receive, ruled.en]) (receive_mBOC cbw p.disk)]
    exact taken
  obtain ⟨e, leaves, deal, run⟩ := outEpDeal_accepted flashId ruled.en idle sig accepted
  refine ⟨e, ⟨?_, ?_, leaves.csw, ?_, ?_, ?_, leaves.reply⟩, ?_⟩
  · rw [leaves.up, receive_mBOC, receive]
  · rw [leaves.down, receive_mBOC, receive, idle, Bool.false_or]
  · rw [leaves.len, receive_mBOC]
  · rw [leaves.count, receive_mBOC, receive]
  · rw [leaves.dispatch, receive_mBOC]
  · rw [opened, deal, Port.step, run, Port.serve_some (afterCmd_returns _ e), Option.map_some]
    rfl

/-- A rejected block with data from the host is not handled to the end. -/
theorem opened_stuck (ruled : p.disk.Ruled) (rest : p.AtRest) (sig : (blockOf cbw).HasSignature)
    (refused : (blockOf cbw).Refused) (out : (blockOf cbw).dataOut = true) : opened (udiskFun flashId) cbw p = none := by
  obtain ⟨up, -, -, run⟩ := outEpDeal_rejected (udiskFun flashId) ruled.en rest.down sig
    (refused_rejected (by rw [receive, ruled.en]) (receive_mBOC cbw p.disk) refused)
  have down : (takeCbw (receive cbw p.disk)).down = true := by
    simp only [takeCbw, receive, rest.down, Bool.false_or]
    exact out
  have stuck : .rxStall ∈ stalls up true := mem_stalls.mpr (Or.inr ⟨rfl, rfl⟩)
  rw [opened, Port.step, run, down, Port.serve, if_pos stuck, Option.map_none]

/-- Any other rejected block: the CSW is due, and with data to the host EP4 is stalled. -/
theorem opened_refused (flashId : Byte) (ruled : p.disk.Ruled) (rest : p.AtRest) (sig : (blockOf cbw).HasSignature)
    (refused : (blockOf cbw).Refused) (noOut : (blockOf cbw).dataOut = false) :
    ∃ a, opened (udiskFun flashId) cbw p = some a ∧ Settled 0 a ∧ a.port.disk.csw = true ∧ a.residue = none ∧
      ((blockOf cbw).dataIn = true → a.port.ep4 = .stall) := by
  obtain ⟨up, keeps, deal, run⟩ := outEpDeal_rejected (udiskFun flashId) ruled.en rest.down sig
    (refused_rejected (by rw [receive, ruled.en]) (receive_mBOC cbw p.disk) refused)
  have down : (takeCbw (receive cbw p.disk)).down = false := by
    simp only [takeCbw, receive, rest.down, Bool.false_or]
    exact noOut
  have dir : (blockOf cbw).dataIn = true → up = true := by
    intro dir
    apply keeps
    simp only [takeCbw, receive, rest.up, Bool.false_or]
    exact dir
  have returns : .rxStall ∉ stalls up false := fun mem => by
    rcases mem_stalls.mp mem with ⟨same, -⟩ | ⟨-, off⟩
    · cases same
    · cases off
  refine ⟨(fresh p).after (Udisk.refused (takeCbw (receive cbw p.disk))).transferDataLen 0 .nak
    (Udisk.refused (takeCbw (receive cbw p.disk)), stalls up false), ?_, ⟨rfl, rfl, ?_, ?_, ?_⟩, rfl, ?_, ?_⟩
  · rw [opened, deal, Port.step, run, down, Port.serve_some returns, Option.map_some, rest.ep4]
    rfl
  · rw [after_wrapped, not_below]
    rfl
  · rw [after_moved]
    cases up <;> rfl
  · intro r same
    rw [after_residue] at same
    cases same
  · rw [after_residue]
    rfl
  · intro data
    rw [dir data]
    rfl

/-- An accepted block without data. -/
theorem opened_empty (flashId : Byte) (ruled : p.disk.Ruled) (rest : p.AtRest) (sig : (blockOf cbw).HasSignature)
    (taken : ¬ (blockOf cbw).Refused) (empty : (blockOf cbw).dataLen = 0) :
    ∃ a, opened (udiskFun flashId) cbw p = some a ∧ Settled 0 a := by
  obtain ⟨e, opening, run⟩ := opened_accepted flashId ruled rest.down sig taken
  have up : e.up = false := by rw [opening.up, rest.up, BulkOnlyCmd.dataIn_empty empty, Bool.or_false]
  have down : e.down = false := opening.down.trans (BulkOnlyCmd.dataOut_empty empty)
  refine ⟨_, run, ?_⟩
  by_cases good : e.cswStatus = 0x00
  · rw [afterCmd_csw _ down up good]
    exact (@after_upCsw (fresh p) e 0 p.ep4 rfl (fun r same => by cases same)).1
  · rw [afterCmd_held _ down up good]
    refine ⟨up, down, ?_, ?_, ?_⟩
    · rw [after_wrapped, not_below]
      rfl
    · rw [after_moved, opening.csw]
      rfl
    · intro r same
      rw [after_residue, if_pos opening.csw] at same
      cases same

/-- An accepted block with data to the host: the first packet is in EP4. -/
theorem opened_upload (flashId : Byte) (ruled : p.disk.Ruled) (rest : p.AtRest) (sig : (blockOf cbw).HasSignature)
    (taken : ¬ (blockOf cbw).Refused) (dir : (blockOf cbw).dataIn = true)
    (some_ : (blockOf cbw).IsRead → (blockOf cbw).sectors ≠ 0) :
    ∃ a, opened (udiskFun flashId) cbw p = some a ∧
      (Upload ((blockOf cbw).stageLen (udiskFun flashId)).toNat a ∨ Due ((blockOf cbw).stageLen (udiskFun flashId)).toNat a) := by
  obtain ⟨e, opening, run⟩ := opened_accepted flashId ruled rest.down sig taken
  have up : e.up = true := by rw [opening.up, dir, Bool.or_true]
  have down : e.down = false := opening.down.trans (BulkOnlyCmd.dataOut_not_in dir)
  have sectors : e.mBOC.cbBuf 0 = CMD_U_READ10 → e.transferDataLen.toNat % 64 = 0 ∧ e.transferDataLen.toNat ≠ 0 := by
    intro read
    have cmd := opening.dispatch.mp read
    have more := some_ cmd
    rw [opening.len, BulkOnlyCmd.stageLen_rdWr flashId (Or.inl cmd)]
    omega
  rw [afterCmd_up _ down up] at run
  have left : (fresh p).moved + e.transferDataLen.toNat = ((blockOf cbw).stageLen (udiskFun flashId)).toNat := by
    rw [opening.len]
    exact Nat.zero_add _
  exact ⟨_, run, (after_packet (upPack_packet _ up sectors) down opening.csw rfl rfl left p.ep4).imp And.left id⟩

/-- READ10 of no sectors sends one all the same. -/
theorem opened_underflow (flashId : Byte) (ruled : p.disk.Ruled) (rest : p.AtRest) (sig : (blockOf cbw).HasSignature)
    (dir : (blockOf cbw).dataIn = true) (cmd : (blockOf cbw).IsRead) (none : (blockOf cbw).sectors = 0) :
    ∃ a, opened (udiskFun flashId) cbw p = some a ∧ a.wrapped = true := by
  have taken : ¬ (blockOf cbw).Refused := by
    rintro (other | ⟨other, -⟩) <;> rw [BulkOnlyCmd.IsRead, other] at cmd <;> cases cmd
  obtain ⟨e, opening, run⟩ := opened_accepted flashId ruled rest.down sig taken
  have up : e.up = true := by rw [opening.up, dir, Bool.or_true]
  have down : e.down = false := opening.down.trans (BulkOnlyCmd.dataOut_not_in dir)
  have zero : e.transferDataLen.toNat = 0 := by
    rw [opening.len, BulkOnlyCmd.stageLen_rdWr flashId (Or.inl cmd), none]
  rw [afterCmd_up _ down up, upPack, if_pos (opening.dispatch.mpr cmd)] at run
  refine ⟨_, run, ?_⟩
  rw [after_wrapped, Bool.or_eq_true, decide_eq_true_iff, BitVec.lt_def]
  right
  show _ < (e.transferDataLen - 64).toNat
  bv_omega

/-- An accepted block with data from the host. -/
theorem opened_download (flashId : Byte) (ruled : p.disk.Ruled) (rest : p.AtRest) (sig : (blockOf cbw).HasSignature)
    (taken : ¬ (blockOf cbw).Refused) (dir : (blockOf cbw).dataOut = true) :
    ∃ a, opened (udiskFun flashId) cbw p = some a ∧ Incoming a ∧ a.moved = 0 ∧
      a.port.disk.transferDataLen.toNat = ((blockOf cbw).stageLen (udiskFun flashId)).toNat ∧
      a.port.disk.secPackCount.toNat = if (blockOf cbw).IsRdWr then 0 else p.disk.secPackCount.toNat := by
  obtain ⟨e, opening, run⟩ := opened_accepted flashId ruled rest.down sig taken
  have up : e.up = false := by rw [opening.up, rest.up, BulkOnlyCmd.dataIn_not_out dir, Bool.or_false]
  have down : e.down = true := opening.down.trans dir
  have count : e.secPackCount.toNat = if (blockOf cbw).IsRdWr then 0 else p.disk.secPackCount.toNat := by
    rw [opening.count]
    split <;> rfl
  rw [afterCmd_down _ down] at run
  refine ⟨_, run, ⟨up, down, opening.csw, ?_, ?_, rest.ep4, ?_⟩, ?_, congrArg BitVec.toNat opening.len, count⟩
  · rw [after_wrapped, not_below]
    rfl
  · rw [after_residue, if_pos opening.csw]
    rfl
  · rw [after_disk, count]
    split
    · decide
    · exact ruled.count
  · rw [after_moved, if_pos opening.csw]
    rfl

end Open

end Account

/-! ## Which blocks come out right -/

namespace BulkOnlyCmd

/-- The length the command works with is that of the host. -/
def HostLength (m : BulkOnlyCmd) : Prop :=
  if m.IsRdWr then m.dataLen.toNat = 4096 * m.sectors
  else
    match m.bound with
    | some b => m.dataLen.toNat ≤ b.toNat
    | none => True

/-- The data from the host end with a sector, `count` packets of it being there. -/
def WholeSectors (m : BulkOnlyCmd) (count : Nat) : Prop :=
  if m.IsRdWr then m.dataLen.toNat = 4096 * m.sectors
  else m.bound = none ∧ m.dataLen.toNat % 64 = 0 ∧ (count + m.dataLen.toNat / 64) % 64 = 0

variable {m : BulkOnlyCmd}

theorem stageLen_bound (f : UdiskFunction) (other : ¬ m.IsRdWr) {b : BitVec 32} (bound : m.bound = some b) :
    (m.stageLen f).toNat = min m.dataLen.toNat b.toNat := by
  rw [stageLen, if_neg other, bound]
  simp only
  split
  · rename_i past
    rw [gt_iff_lt, BitVec.lt_def] at past
    omega
  · rename_i under
    rw [gt_iff_lt, BitVec.lt_def] at under
    omega

theorem stageLen_free (f : UdiskFunction) (other : ¬ m.IsRdWr) (bound : m.bound = none) : m.stageLen f = m.dataLen := by
  rw [stageLen, if_neg other, bound]

theorem hostLength_iff (flashId : Byte) : m.HostLength ↔ (m.stageLen (udiskFun flashId)).toNat = m.dataLen.toNat := by
  unfold HostLength
  by_cases cmd : m.IsRdWr
  · rw [if_pos cmd, stageLen_rdWr flashId cmd]
    exact eq_comm
  · rw [if_neg cmd]
    cases bound : m.bound with
    | none => simp only [stageLen_free _ cmd bound]
    | some b =>
      rw [stageLen_bound _ cmd bound]
      simp only
      omega

/-- With full packets the data come to their end where they end with a sector. -/
theorem wholeSectors_iff (flashId : Byte) (dir : m.dataOut = true) (count : Nat) :
    m.WholeSectors count ↔
      Account.Ends (m.stageLen (udiskFun flashId)).toNat (if m.IsRdWr then 0 else count) ∧
        (m.stageLen (udiskFun flashId)).toNat / 64 * 64 = m.dataLen.toNat := by
  have some_ : m.dataLen.toNat ≠ 0 := fun zero => dataOut_nonempty dir (BitVec.eq_of_toNat_eq zero)
  unfold WholeSectors Account.Ends
  by_cases cmd : m.IsRdWr
  · rw [if_pos cmd, if_pos cmd, stageLen_rdWr flashId cmd]
    omega
  · rw [if_neg cmd, if_neg cmd]
    cases bound : m.bound with
    | none =>
      rw [stageLen_free _ cmd bound]
      simp only [true_and]
      omega
    | some b =>
      have small := bound_le bound
      rw [stageLen_bound _ cmd bound]
      simp only [reduceCtorEq, false_and, false_iff]
      omega

end BulkOnlyCmd

section Accounts

variable {flashId : Byte} {Len : BitVec 16 → Prop} {p : Port} {cbw : Vector Byte packSize}

/-- An invariant of the continuations. -/
theorem Accounts.of_inv (Inv : Account → Prop)
    (start : ∀ a, Account.opened (udiskFun flashId) cbw p = some a → Inv a)
    (step : ∀ a e a', Inv a → e.OfLength Len → Account.step (udiskFun flashId) e a = some a' → Inv a')
    (right : ∀ a, Inv a → a.Right (blockOf cbw).dataLen.toNat) : Accounts (udiskFun flashId) Len cbw p := by
  intro es a₀ a all opened run
  exact right a (Run.run_inv Inv (fun _ e => e.OfLength Len) step (start a₀ opened) (Run.meets_events all a₀) run)

/-- A data stage in `Phase`, until the account is settled. -/
theorem Accounts.of_phase (Phase : Account → Prop) {a₀ : Account}
    (opened : Account.opened (udiskFun flashId) cbw p = some a₀)
    (start : Phase a₀ ∨ Account.Settled (blockOf cbw).dataLen.toNat a₀)
    (step : ∀ a e a', Phase a → e.OfLength Len → Account.step (udiskFun flashId) e a = some a' →
      Phase a' ∨ Account.Settled (blockOf cbw).dataLen.toNat a')
    (right : ∀ a, Phase a → a.Right (blockOf cbw).dataLen.toNat) : Accounts (udiskFun flashId) Len cbw p := by
  refine Accounts.of_inv (fun a => Phase a ∨ Account.Settled (blockOf cbw).dataLen.toNat a) ?_ ?_ ?_
  · intro a same
    rw [opened] at same
    cases same
    exact start
  · rintro a e a' (phase | settled) of go
    · exact step a e a' phase of go
    · exact Or.inr (settled.step go)
  · rintro a (phase | settled)
    · exact right a phase
    · exact settled.right

/-- Once the account is settled it stays so. -/
theorem accounts_settled {a₀ : Account} (opened : Account.opened (udiskFun flashId) cbw p = some a₀)
    (settled : Account.Settled (blockOf cbw).dataLen.toNat a₀) : Accounts (udiskFun flashId) Len cbw p :=
  Accounts.of_phase (fun _ => False) opened (Or.inr settled) (fun _ _ _ none => none.elim) (fun _ none => none.elim)

/-- Without data every block comes out right. -/
theorem accounts_empty (ruled : p.disk.Ruled) (rest : p.AtRest) (sig : (blockOf cbw).HasSignature)
    (empty : (blockOf cbw).dataLen = 0) : Accounts (udiskFun flashId) Len cbw p := by
  have zero : (blockOf cbw).dataLen.toNat = 0 := by rw [empty]; rfl
  by_cases refused : (blockOf cbw).Refused
  · have noOut : (blockOf cbw).dataOut = false := BulkOnlyCmd.dataOut_empty empty
    obtain ⟨a, opened, settled, -⟩ := Account.opened_refused flashId ruled rest sig refused noOut
    exact accounts_settled opened (zero ▸ settled)
  · obtain ⟨a, opened, settled⟩ := Account.opened_empty flashId ruled rest sig refused empty
    exact accounts_settled opened (zero ▸ settled)

/-- Data to the host come out right where the command works with the host's length. -/
theorem accounts_in (ruled : p.disk.Ruled) (rest : p.AtRest) (sig : (blockOf cbw).HasSignature)
    (dir : (blockOf cbw).dataIn = true) :
    Accounts (udiskFun flashId) Len cbw p ↔
      ¬ (blockOf cbw).Refused ∧ ((blockOf cbw).stageLen (udiskFun flashId)).toNat = (blockOf cbw).dataLen.toNat := by
  have some_ : (blockOf cbw).dataLen.toNat ≠ 0 := fun zero =>
    BulkOnlyCmd.dataIn_nonempty dir (BitVec.eq_of_toNat_eq zero)
  have reads : ∀ n, ∀ e ∈ List.replicate n PortEvent.inDone, e.OfLength Len := by
    intro n e mem
    rw [List.eq_of_mem_replicate mem]
    trivial
  by_cases refused : (blockOf cbw).Refused
  · -- the halt is cleared, what EP4 holds is read, and the CSW reports no residue
    refine iff_of_false ?_ (fun h => h.1 refused)
    intro accounts
    obtain ⟨a, opened, settled, csw, none, stalled⟩ :=
      Account.opened_refused flashId ruled rest sig refused (BulkOnlyCmd.dataOut_not_in dir)
    have clear := Account.step_clear (udiskFun flashId) (stalled dir)
    have due : Account.Due 0 { a with port := { a.port with ep4 := .valid } } :=
      ⟨⟨settled.up, settled.down, settled.wrapped, settled.moved, settled.residue⟩, csw, none, rfl⟩
    obtain ⟨a', last, moved, residue⟩ := due.inDone flashId
    have right := accounts [.clearHalt, .inDone] a a' (by simp [PortEvent.OfLength]) opened
      ((Run.run_cons clear).trans (Run.run_cons last))
    have sum := right.residue 0 residue
    omega
  · refine Iff.trans ?_ (and_iff_right refused).symm
    by_cases empty : (blockOf cbw).IsRead ∧ (blockOf cbw).sectors = 0
    · refine iff_of_false ?_ ?_
      · intro accounts
        obtain ⟨a, opened, wrapped⟩ := Account.opened_underflow flashId ruled rest sig dir empty.1 empty.2
        have positive := (accounts [] a a (by simp) opened rfl).positive
        rw [wrapped] at positive
        cases positive
      · rw [BulkOnlyCmd.stageLen_rdWr flashId (Or.inl empty.1), empty.2]
        omega
    · obtain ⟨a, opened, phase⟩ := Account.opened_upload flashId ruled rest sig refused dir
        (fun read none => empty ⟨read, none⟩)
      constructor
      · intro accounts
        have drained : ∃ n a', Run.run (Account.step (udiskFun flashId)) (List.replicate n .inDone) a = some a' ∧
            a'.moved = ((blockOf cbw).stageLen (udiskFun flashId)).toNat ∧ a'.residue = some 0 := by
          rcases phase with upload | due
          · exact upload.drains flashId
          · obtain ⟨a', last, ends⟩ := due.inDone flashId
            exact ⟨1, a', Run.run_cons last, ends⟩
        obtain ⟨n, a', run, moved, residue⟩ := drained
        have sum := (accounts _ a a' (reads n) opened run).residue 0 residue
        omega
      · intro same
        rw [same] at phase
        exact Accounts.of_phase (Account.Upload (blockOf cbw).dataLen.toNat) opened
          (phase.imp id Account.Due.settled) (fun _ _ _ upload _ go => upload.step go) (fun _ upload => upload.right)

/-- Data from the host come out right where they end with a sector and every packet
has its share of them. -/
theorem accounts_out (ruled : p.disk.Ruled) (rest : p.AtRest) (sig : (blockOf cbw).HasSignature)
    (dir : (blockOf cbw).dataOut = true) (some_ : ∃ l, Len l) :
    Accounts (udiskFun flashId) Len cbw p ↔
      (blockOf cbw).Refused ∨
      (Account.Ends ((blockOf cbw).stageLen (udiskFun flashId)).toNat
          (if (blockOf cbw).IsRdWr then 0 else p.disk.secPackCount.toNat) ∧
        ∀ l, Len l → ((blockOf cbw).stageLen (udiskFun flashId)).toNat / 64 * l.toNat = (blockOf cbw).dataLen.toNat) := by
  have packets : ∀ n l, Len l → ∀ e ∈ List.replicate n (Account.dataPacket l), e.OfLength Len := by
    intro n l mem e of
    rw [List.eq_of_mem_replicate of]
    exact mem
  by_cases refused : (blockOf cbw).Refused
  · refine iff_of_true ?_ (Or.inl refused)
    intro es a₀ a _ opened
    rw [Account.opened_stuck ruled rest sig refused dir] at opened
    cases opened
  · refine Iff.trans ?_ (or_iff_right refused).symm
    obtain ⟨a, opened, incoming, moved, len, count⟩ := Account.opened_download flashId ruled rest sig refused dir
    rw [← len, ← count]
    constructor
    · intro accounts
      have ends : Account.Ends a.port.disk.transferDataLen.toNat a.port.disk.secPackCount.toNat := by
        by_contra endless
        obtain ⟨l, mem⟩ := some_
        obtain ⟨n, a', run, wrapped⟩ := incoming.wraps flashId l endless
        have positive := (accounts _ a a' (packets n l mem) opened run).positive
        rw [wrapped] at positive
        cases positive
      refine ⟨ends, ?_⟩
      intro l mem
      obtain ⟨n, a', run, sum, residue⟩ := incoming.drains flashId l ends
      have total := (accounts _ a a' (packets n l mem) opened run).residue 0 residue
      omega
    · rintro ⟨ends, shares⟩
      have download : Account.Download (blockOf cbw).dataLen.toNat Len a := by
        refine ⟨incoming, ends, ?_⟩
        intro l mem
        rw [moved, Nat.zero_add, shares l mem]
      exact Accounts.of_phase (Account.Download (blockOf cbw).dataLen.toNat Len) opened (Or.inl download)
        (fun _ _ _ download of go => download.step of go) (fun _ download => download.right some_)

/-- **Bulk-Only length accounting**: for which blocks, from any state between two
commands, the sums come out in every continuation, with data packets of any
length and with full ones. -/
theorem accounting_iff (flashId : Byte) (reached : Run.Reachable (Port.step (udiskFun flashId)) Port.start p)
    (rest : p.AtRest) (sig : (blockOf cbw).HasSignature) :
    (Accounts (udiskFun flashId) (fun l => l.toNat ≤ 64) cbw p ↔
      (blockOf cbw).dataLen = 0 ∨
      ((blockOf cbw).dataIn = true ∧ ¬ (blockOf cbw).Refused ∧ (blockOf cbw).HostLength) ∨
      ((blockOf cbw).dataOut = true ∧ (blockOf cbw).Refused)) ∧
    (Accounts (udiskFun flashId) (fun l => l.toNat = 64) cbw p ↔
      (blockOf cbw).dataLen = 0 ∨
      ((blockOf cbw).dataIn = true ∧ ¬ (blockOf cbw).Refused ∧ (blockOf cbw).HostLength) ∨
      ((blockOf cbw).dataOut = true ∧
        ((blockOf cbw).Refused ∨ (blockOf cbw).WholeSectors p.disk.secPackCount.toNat))) := by
  have ruled := Port.reachable_ruled reached
  by_cases empty : (blockOf cbw).dataLen = 0
  · exact ⟨iff_of_true (accounts_empty ruled rest sig empty) (Or.inl empty),
      iff_of_true (accounts_empty ruled rest sig empty) (Or.inl empty)⟩
  · cases dir : (blockOf cbw).dataOut with
    | false =>
      have in_ : (blockOf cbw).dataIn = true := by
        simp only [BulkOnlyCmd.dataOut, Bool.and_eq_false_iff, bne_eq_false_iff_eq, empty, false_or] at dir
        simp only [BulkOnlyCmd.dataIn, Bool.and_eq_true, bne_iff_ne]
        exact ⟨empty, by simpa using dir⟩
      constructor <;>
        simp only [accounts_in ruled rest sig in_, BulkOnlyCmd.hostLength_iff flashId, empty, in_, Bool.false_eq_true, true_and,
          false_and, false_or, or_false]
    | true =>
      have in_ := BulkOnlyCmd.dataIn_not_out dir
      have some_ : (blockOf cbw).dataLen.toNat ≠ 0 := fun zero => empty (BitVec.eq_of_toNat_eq zero)
      constructor
      · rw [accounts_out ruled rest sig dir ⟨0, by decide⟩]
        simp only [empty, in_, Bool.false_eq_true, true_and, false_and, false_or, or_iff_left_iff_imp]
        rintro ⟨-, shares⟩
        -- an empty packet carries nothing
        exact absurd (shares 0 (by decide)) (by simpa using Ne.symm some_)
      · have full : ∃ l : BitVec 16, (fun l : BitVec 16 => l.toNat = 64) l := ⟨64, rfl⟩
        rw [accounts_out ruled rest sig dir full, BulkOnlyCmd.wholeSectors_iff flashId dir]
        simp only [empty, in_, Bool.false_eq_true, true_and, false_and, false_or]
        refine or_congr_right (and_congr_right fun _ => ?_)
        constructor
        · intro shares
          exact shares 64 rfl
        · intro sum l full
          rw [full]
          exact sum

end Accounts

/-- INQUIRY and READ CAPACITY with 36 bytes to the host. -/
def inquiry36 : Vector Byte packSize :=
  packet [0x55, 0x53, 0x42, 0x43, 0x01, 0x00, 0x00, 0x00, 0x24, 0x00, 0x00, 0x00, 0x80, 0x00, 0x06, 0x12, 0x00, 0x00,
    0x00, 0x24]

def readCapacity36 : Vector Byte packSize :=
  packet [0x55, 0x53, 0x42, 0x43, 0x01, 0x00, 0x00, 0x00, 0x24, 0x00, 0x00, 0x00, 0x80, 0x00, 0x0A, 0x25]

theorem accounting_inquiry : Accounts (udiskFun 0x17) (fun l => l.toNat ≤ 64) inquiry36 Port.start :=
  (accounting_iff 0x17 ⟨[], rfl⟩ Port.start_atRest (show (blockOf inquiry36).HasSignature by decide +kernel)).1.mpr
    (Or.inr (Or.inl ⟨by decide +kernel, by decide +kernel, by
      have other : ¬ (blockOf inquiry36).IsRdWr := by decide +kernel
      have bound : (blockOf inquiry36).bound = some 0x24 := by decide +kernel
      rw [BulkOnlyCmd.HostLength, if_neg other, bound]
      decide +kernel⟩))

/-- READ CAPACITY sends 8 of the 36 bytes and its CSW reports the residue 0. -/
theorem accounting_readCapacity :
    ((Account.opened (udiskFun 0x17) readCapacity36 Port.start).bind
        (Run.run (Account.step (udiskFun 0x17)) [.inDone])).map (fun a => (a.moved, a.residue)) = some (8, some 0) ∧
      (blockOf readCapacity36).dataLen = 36 ∧
      ¬ Accounts (udiskFun 0x17) (fun l => l.toNat ≤ 64) readCapacity36 Port.start := by
  refine ⟨by decide +kernel, by decide +kernel, ?_⟩
  rw [accounts_in Ruled.init Port.start_atRest (by decide +kernel) (by decide +kernel)]
  rintro ⟨-, same⟩
  exact absurd same (by decide +kernel)

end OffLineProgrammer.UsbDisk
