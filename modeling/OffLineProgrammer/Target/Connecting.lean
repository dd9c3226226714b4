import OffLineProgrammer.Target.MemoryExact
import OffLineProgrammer.Target.SyscallExec

/-!
# How many transfers it takes to connect

Every wait of `target_flash_init` but one has a limit: `swd_set_target_state_hw` reads
`DHCSR` after the reset until the core has halted. So connecting takes a bounded number
of transfers exactly where that wait does.
-/

namespace OffLineProgrammer.Target
set_option autoImplicit false
open OffLineProgrammer.Lib

/-! ## What each function costs -/

section Costs

variable {w : Wire}

theorem transferRetry_within (r : Request) (left : Nat) (p : Probe) :
    Op.Within Probe.transfers (left + 1) p (transferRetry w r left p) := by
  have ends := transferRetry_ends w r left p
  generalize transferRetry w r left p = e at ends ⊢
  cases ends with
  | carried n tries => exact ⟨nofun, by dsimp only; omega, by dsimp only; omega⟩
  | givenUp n tries => exact ⟨nofun, by dsimp only; omega, by dsimp only; omega⟩

theorem transfer_costs (r : Request) : Op.Costs Probe.transfers 100 (swdTransferRetry w r) :=
  transferRetry_within r 99

theorem readDp_costs (adr : Word) : Op.Costs Probe.transfers 100 (swdReadDp w adr) := transfer_costs _

theorem writeDp_costs (adr val : Word) : Op.Costs Probe.transfers 100 (swdWriteDp w adr val) := by
  have set : Op.Costs Probe.transfers 0 (setSelect val) := Op.Costs.modify fun _ => rfl
  have send : Op.Costs Probe.transfers 100 (do
      let _ ← swdTransferRetry w (.dpWrite (adr &&& 0x0C) val)
      if adr = DP_SELECT then setSelect val else pure ()) :=
    (transfer_costs _).bind fun _ => Op.Costs.ite set (Op.Costs.pure ())
  exact (Op.Costs.get (n := 0)).bind fun p => Op.Costs.ite (Op.Costs.pure ()) send

theorem writeApReg_costs (adr val : Word) : Op.Costs Probe.transfers 200 (writeApReg w adr val) :=
  (transfer_costs _).bind fun _ => Op.Costs.then_pure (transfer_costs _)

theorem writeAp_costs (adr val : Word) : Op.Costs Probe.transfers 300 (swdWriteAp w adr val) := by
  have set : Op.Costs Probe.transfers 0 (setCsw val) := Op.Costs.modify fun _ => rfl
  have send : Op.Costs Probe.transfers 200 (do
      let p ← Op.get
      if p.dapState.csw = val then pure ()
      else
        setCsw val
        writeApReg w adr val) :=
    (Op.Costs.get (n := 0)).bind fun p => Op.Costs.ite (Op.Costs.pure ()) (set.bind fun _ => writeApReg_costs adr val)
  exact (writeDp_costs _ _).bind fun _ => Op.Costs.ite send (writeApReg_costs adr val)

theorem readData_costs (addr : Word) : Op.Costs Probe.transfers 300 (swdReadData w addr) :=
  (transfer_costs _).bind fun _ => (transfer_costs _).bind fun _ => transfer_costs _

theorem writeData_costs (addr data : Word) : Op.Costs Probe.transfers 300 (swdWriteData w addr data) :=
  (transfer_costs _).bind fun _ => (transfer_costs _).bind fun _ => Op.Costs.then_pure (transfer_costs _)

theorem readWord_costs (addr : Word) : Op.Costs Probe.transfers 600 (swdReadWord w addr) :=
  (writeAp_costs _ _).bind fun _ => readData_costs addr

theorem writeWord_costs (addr val : Word) : Op.Costs Probe.transfers 600 (swdWriteWord w addr val) :=
  (writeAp_costs _ _).bind fun _ => writeData_costs addr val

theorem writeByte_costs (addr : Word) (val : Byte) : Op.Costs Probe.transfers 600 (swdWriteByte w addr val) :=
  (writeAp_costs _ _).bind fun _ => writeData_costs addr _

/-! ### Memory -/

theorem writeWords_costs (data : List Byte) : Op.Costs Probe.transfers (25 * data.length) (writeWords w data) := by
  match data with
  | [] | [_] | [_, _] | [_, _, _] => exact Op.Costs.pure ()
  | b₀ :: b₁ :: b₂ :: b₃ :: data =>
    apply ((transfer_costs _).bind fun _ => writeWords_costs data).mono
    simp only [List.length_cons]
    omega

theorem writeBlock_costs (address : Word) (data : List Byte) :
    Op.Costs Probe.transfers (600 * data.length) (swdWriteBlock w address data) := by
  unfold swdWriteBlock
  split
  · exact Op.Costs.fail
  · refine ((writeAp_costs _ _).bind fun _ => (transfer_costs _).bind fun _ => (writeWords_costs data).bind fun _ =>
      Op.Costs.then_pure (transfer_costs _)).mono ?_
    omega

theorem writeTail_costs (address : Word) (data : List Byte) :
    Op.Costs Probe.transfers (600 * data.length) (writeTail w address data) := by
  induction data generalizing address with
  | nil => exact Op.Costs.pure ()
  | cons b data ih =>
    apply ((writeByte_costs address b).bind fun _ => ih (address + 1)).mono
    rw [List.length_cons]
    omega

theorem writeEach_costs (address : Word) (sizes : List Nat) (data : List Byte) :
    Op.Costs Probe.transfers (600 * sizes.sum) (writeEach w address sizes data) := by
  induction sizes generalizing address data with
  | nil => exact Op.Costs.pure ()
  | cons n sizes ih =>
    apply ((writeBlock_costs address (data.take n)).bind fun _ => ih _ (data.drop n)).mono
    rw [List.length_take, List.sum_cons]
    omega

/-- A download costs a multiple of its length. -/
theorem writeMemory_costs (address : Word) (data : List Byte) :
    Op.Costs Probe.transfers (600 * data.length) (swdWriteMemory w address data) := by
  have front := lead_le address data.length
  have sum := (blocks_memoryBlocks address data.length).2
  rw [swdWriteMemory_eq, writeSplit]
  apply ((writeTail_costs _ _).bind fun _ => (writeEach_costs _ _ _).bind fun _ => writeTail_costs _ _).mono
  rw [List.length_take, List.length_drop, List.length_drop]
  omega

/-! ### Calls -/

theorem pollDhcsr_costs (bits : Word) (rounds : Nat) :
    Op.Costs Probe.transfers (600 * rounds) (pollDhcsr w bits rounds) := by
  induction rounds with
  | zero => exact Op.Costs.fail
  | succ rounds ih =>
    apply ((readWord_costs DHCSR).bind fun _ => Op.Costs.ite (Op.Costs.pure ()) ih).mono
    omega

theorem readCoreRegister_costs (n : Word) : Op.Costs Probe.transfers 61200 (swdReadCoreRegister w n) :=
  (writeWord_costs _ _).bind fun _ => (pollDhcsr_costs _ 100).bind fun _ => readWord_costs _

theorem writeCoreRegister_costs (n val : Word) : Op.Costs Probe.transfers 61200 (swdWriteCoreRegister w n val) :=
  (writeWord_costs _ _).bind fun _ => (writeWord_costs _ _).bind fun _ => pollDhcsr_costs _ 100

theorem writeCoreRegisters_costs (state : DebugState) (regs : List (Fin 16)) :
    Op.Costs Probe.transfers (61200 * regs.length) (writeCoreRegisters w state regs) := by
  induction regs with
  | nil => exact Op.Costs.pure ()
  | cons i regs ih =>
    apply ((writeCoreRegister_costs _ _).bind fun _ => ih).mono
    rw [List.length_cons]
    omega

theorem writeDebugState_costs (state : DebugState) : Op.Costs Probe.transfers 552200 (swdWriteDebugState w state) := by
  have status := (readDp_costs (w := w) DP_CTRL_STAT).bind (m := 0) fun status =>
    Op.Costs.ite (c := status &&& stickyErrors ≠ 0) (x := (Op.fail : Op Probe Unit)) Op.Costs.fail (Op.Costs.pure ())
  exact (writeDp_costs _ _).bind fun _ => (writeCoreRegisters_costs state [0, 1, 2, 3]).bind fun _ =>
    (writeCoreRegister_costs _ _).bind fun _ => (writeCoreRegisters_costs state [13, 14, 15]).bind fun _ =>
    (writeCoreRegister_costs _ _).bind fun _ => (writeWord_costs _ _).bind fun _ => (writeWord_costs _ _).bind fun _ =>
    status

/-- A call of the algorithm costs a bounded number of transfers, whatever the target does. -/
theorem flashSyscallExec_costs (sys : ProgramSyscall) (entry r0 r1 r2 r3 : Word) (type : FlashAlgoReturn) :
    Op.Costs Probe.transfers 600614000 (swdFlashSyscallExec w sys entry r0 r1 r2 r3 type) := by
  have answer : ∀ (p : Prop) [Decidable p], Op.Costs Probe.transfers 0 (if p then Op.fail else pure () : Op Probe Unit) :=
    fun _ _ => Op.Costs.ite Op.Costs.fail (Op.Costs.pure ())
  cases type with
  | bool =>
    exact ((writeDebugState_costs _).bind fun _ => (pollDhcsr_costs S_HALT MAX_TIMEOUT).bind fun _ =>
      (readCoreRegister_costs 0).bind fun v => (writeWord_costs _ _).bind fun _ => answer (v ≠ 0)).mono (by decide)
  | pointer =>
    exact ((writeDebugState_costs _).bind fun _ => (pollDhcsr_costs S_HALT MAX_TIMEOUT).bind fun _ =>
      (readCoreRegister_costs 0).bind fun v => (writeWord_costs _ _).bind fun _ => answer (v ≠ r0 + r1)).mono (by decide)

end Costs

/-! ## The reset up to its wait -/

section Prepare

variable {h : Host}

theorem powerUp_costs (rounds : Nat) : Op.Costs Probe.transfers (100 * rounds) (powerUp h rounds) := by
  induction rounds with
  | zero => exact Op.Costs.fail
  | succ rounds ih =>
    apply ((readDp_costs _).bind fun _ => Op.Costs.ite (Op.Costs.pure ()) ih).mono
    omega

theorem initDebug_costs : Op.Costs Probe.transfers 10600 (swdInitDebug h) := by
  have select : Op.Costs Probe.transfers 0 (setSelect 0xFFFFFFFF) := Op.Costs.modify fun _ => rfl
  have csw : Op.Costs Probe.transfers 0 (setCsw 0xFFFFFFFF) := Op.Costs.modify fun _ => rfl
  exact (select.bind fun _ => csw.bind fun _ => (readDp_costs _).bind fun _ => (writeDp_costs _ _).bind fun _ =>
    (writeDp_costs _ _).bind fun _ => (writeDp_costs _ _).bind fun _ => (powerUp_costs 100).bind fun _ =>
    (writeDp_costs _ _).bind fun _ => writeDp_costs _ _).mono (by decide)

theorem setTargetReset_costs (asserted : Bool) : Op.Costs Probe.transfers 600 (swdSetTargetReset h asserted) :=
  Op.Costs.ite (writeWord_costs _ _).ignore (Op.Costs.pure ())

theorem enableDebug_costs (retries : Nat) : Op.Costs Probe.transfers (1800 * retries) (enableDebug h retries) := by
  induction retries with
  | zero => exact Op.Costs.fail
  | succ retries ih =>
    have again := (setTargetReset_costs (h := h) true).bind fun _ => (setTargetReset_costs (h := h) false).bind fun _ => ih
    apply ((writeWord_costs _ _).orElse (Op.Costs.ite Op.Costs.fail again)).mono
    omega

/-- `swd_set_target_state_hw( RESET_PROGRAM )` up to the wait for `S_HALT`. -/
def prepareReset (h : Host) : Op Probe Unit := do
  swdInitDebug h
  swdSetTargetReset h true
  enableDebug h 2
  swdWriteWord h.wire DBG_EMCR VC_CORERESET
  swdSetTargetReset h true
  swdSetTargetReset h false

theorem prepareReset_costs : Op.Costs Probe.transfers 16600 (prepareReset h) :=
  (initDebug_costs.bind fun _ => (setTargetReset_costs true).bind fun _ => (enableDebug_costs 2).bind fun _ =>
    (writeWord_costs _ _).bind fun _ => (setTargetReset_costs true).bind fun _ => setTargetReset_costs false).mono (by decide)

theorem swdSetTargetStateHw_eq (fuel : Nat) : swdSetTargetStateHw h fuel = (do
    prepareReset h
    waitHalted h fuel
    swdWriteWord h.wire DBG_EMCR 0) := by
  simp only [prepareReset, Op.bind_assoc]
  rfl

end Prepare

/-! ## The wait -/

/-- The state after `n` reads of `DHCSR`. -/
def polled (h : Host) : Nat → Probe → Probe
  | 0, p => p
  | n + 1, p => polled h n (swdReadWord h.wire DBG_HCSR p).2

/-- The next read of `DHCSR` fails or has `S_HALT`. -/
def Settles (h : Host) (p : Probe) : Prop :=
  ∀ val t, swdReadWord h.wire DBG_HCSR p = (.ok val, t) → val &&& S_HALT ≠ 0

section Wait

variable {h : Host} {p q : Probe}

theorem readWord_more {addr v : Word} {w : Wire} (run : swdReadWord w addr p = (.ok v, q)) : p.transfers < q.transfers := by
  obtain ⟨_, t, selected, run⟩ := Op.bind_ok.mp run
  obtain ⟨_, u, addressed, run⟩ := Op.bind_ok.mp run
  obtain ⟨_, u', started, run⟩ := Op.bind_ok.mp run
  have first := (writeAp_costs (w := w) AP_CSW (CSW_VALUE ||| CSW_SIZE32) p).more
  rw [selected] at first
  exact Nat.lt_of_le_of_lt first (Nat.lt_trans (transferRetry_more addressed)
    (Nat.lt_trans (transferRetry_more started) (transferRetry_more run)))

/-- The wait ends with the first read that fails or has `S_HALT`. -/
theorem waitHalted_within {n fuel : Nat} (settles : ∃ i < n, Settles h (polled h i p)) (enough : n ≤ fuel) :
    Op.Within Probe.transfers (600 * n) p (waitHalted h fuel p) := by
  induction n generalizing fuel p with
  | zero =>
    obtain ⟨i, less, -⟩ := settles
    cases less
  | succ n ih =>
    obtain ⟨fuel, rfl⟩ : ∃ f, fuel = f + 1 := ⟨fuel - 1, by omega⟩
    have cost := readWord_costs (w := h.wire) DBG_HCSR p
    obtain ⟨o, t, run⟩ : ∃ o t, swdReadWord h.wire DBG_HCSR p = (o, t) := ⟨_, _, rfl⟩
    rw [run] at cost
    rw [show 600 * (n + 1) = 600 + 600 * n by omega, waitHalted]
    cases o with
    | fail =>
      rw [Op.bind_of_fail run]
      exact cost.other nofun
    | busy => exact absurd rfl cost.ends
    | ok val =>
      rw [Op.bind_of_ok run]
      split
      · rename_i running
        obtain ⟨i, less, settles⟩ := settles
        cases i with
        | zero => exact absurd running (settles val t run)
        | succ i =>
          rw [polled, run] at settles
          exact cost.trans (ih ⟨i, Nat.lt_of_succ_lt_succ less, settles⟩ (by omega))
      · exact cost.other nofun

/-- A wait that ends has ended with such a read, and each read before it took a transfer. -/
theorem waitHalted_ends {fuel : Nat} (ends : (waitHalted h fuel p).1 ≠ .busy) :
    ∃ i, Settles h (polled h i p) ∧ p.transfers + i ≤ (waitHalted h fuel p).2.transfers := by
  induction fuel generalizing p with
  | zero => exact absurd rfl ends
  | succ fuel ih =>
    have cost := readWord_costs (w := h.wire) DBG_HCSR p
    obtain ⟨o, t, run⟩ : ∃ o t, swdReadWord h.wire DBG_HCSR p = (o, t) := ⟨_, _, rfl⟩
    rw [run] at cost
    rw [waitHalted] at ends ⊢
    cases o with
    | fail =>
      refine ⟨0, ?_, ?_⟩
      · intro val t' run'
        rw [polled, run] at run'
        cases run'
      · rw [Op.bind_of_fail run]
        exact cost.more
    | busy => exact absurd rfl cost.ends
    | ok val =>
      rw [Op.bind_of_ok run] at ends ⊢
      split at ends
      · rename_i running
        rw [if_pos running]
        obtain ⟨i, settles, cost'⟩ := ih ends
        have one := readWord_more run
        refine ⟨i + 1, ?_, by omega⟩
        rw [polled, run]
        exact settles
      · rename_i halted
        rw [if_neg halted]
        refine ⟨0, ?_, cost.more⟩
        intro val' t' run'
        rw [polled, run] at run'
        cases run'
        exact halted

end Wait

/-! ## `target_flash_init` -/

/-- A call of `target_flash_init`, with the target it finds. -/
structure Connection where
  host : Host
  target : ProgramTarget
  flashStart : Word
  probe : Probe

namespace Connection

variable {c : Connection} {n : Nat}

def init (c : Connection) (fuel : Nat) : Outcome ErrorT × Probe :=
  Probe.targetFlashInit c.host (fun sys entry r0 r1 r2 r3 => swdFlashSyscallExec c.host.wire sys entry r0 r1 r2 r3 .bool)
    fuel c.target c.flashStart c.probe

/-- It returns, after `n` transfers at most. -/
def ReturnsWithin (c : Connection) (n : Nat) : Prop :=
  ∃ fuel, (c.init fuel).1 ≠ .busy ∧ (c.init fuel).2.transfers ≤ c.probe.transfers + n

/-- If the wait for `S_HALT` is reached, one of `n` reads of `DHCSR` fails or has `S_HALT`. -/
def HaltsWithin (c : Connection) (n : Nat) : Prop :=
  ∀ t, prepareReset c.host c.probe = (.ok (), t) → ∃ i < n, Settles c.host (polled c.host i t)

/-- The download and the call of `Init`. -/
theorem rest_costs (c : Connection) : Op.Costs Probe.transfers (600 * c.target.algoSize.toNat + 600614000)
    (Op.orReturn (swdWriteMemory c.host.wire c.target.algoStart c.target.image) ErrorT.algoDl
      (Op.orReturn (swdFlashSyscallExec c.host.wire c.target.sysCallS c.target.init c.flashStart 0 0 0 .bool) .init
        (pure .success))) := by
  have download := writeMemory_costs (w := c.host.wire) c.target.algoStart c.target.image
  rw [ProgramTarget.length_image] at download
  exact download.orReturn ((flashSyscallExec_costs _ _ _ _ _ _ _).orReturn (m := 0) (Op.Costs.pure _))

/-- Connecting costs a constant, a multiple of `algo_size` and the reads of the wait. -/
theorem returnsWithin (halts : c.HaltsWithin n) :
    c.ReturnsWithin (600631200 + 600 * n + 600 * c.target.algoSize.toNat) := by
  have reset : Op.Within Probe.transfers (16600 + (600 * n + 600)) c.probe (swdSetTargetStateHw c.host n c.probe) := by
    rw [swdSetTargetStateHw_eq]
    refine (prepareReset_costs c.probe).bind fun _ t prepared => ?_
    exact (waitHalted_within (halts t prepared) (Nat.le_refl n)).bind fun _ u _ => writeWord_costs _ _ u
  have whole := (reset.orReturn (e := ErrorT.reset) c.rest_costs).mono
    (m := 600631200 + 600 * n + 600 * c.target.algoSize.toNat) (by omega)
  exact ⟨n, whole.ends, whole.cost⟩

theorem haltsWithin (returns : c.ReturnsWithin n) : c.HaltsWithin (n + 1) := by
  obtain ⟨fuel, ends, cost⟩ := returns
  intro t prepared
  obtain ⟨ends, more⟩ := Op.orReturn_ends c.rest_costs ends
  have reset := Nat.le_trans more cost
  have grown : c.probe.transfers ≤ t.transfers := by
    have prepare := (prepareReset_costs (h := c.host) c.probe).more
    rwa [prepared] at prepare
  rw [swdSetTargetStateHw_eq, Op.bind_of_ok prepared] at ends reset
  obtain ⟨ends, wait⟩ := Op.bind_ends (fun _ => writeWord_costs DBG_EMCR 0) ends
  obtain ⟨i, settles, reads⟩ := waitHalted_ends ends
  exact ⟨i, by omega, settles⟩

end Connection

/-- **Connecting comes to an end exactly where the wait for `S_HALT` does**: over any set of
targets, the number of transfers is bounded by a constant and a multiple of `algo_size`
if and only if the number of reads in that wait is. -/
theorem connecting_bounded_iff (S : Set Connection) :
    (∃ a b, ∀ c ∈ S, c.ReturnsWithin (a + b * c.target.algoSize.toNat)) ↔
      ∃ a b, ∀ c ∈ S, c.HaltsWithin (a + b * c.target.algoSize.toNat) := by
  constructor
  · rintro ⟨a, b, returns⟩
    refine ⟨a + 1, b, fun c mem => ?_⟩
    rw [Nat.add_right_comm]
    exact Connection.haltsWithin (returns c mem)
  · rintro ⟨a, b, halts⟩
    refine ⟨600631200 + 600 * a, 600 * b + 600, fun c mem => ?_⟩
    have within := Connection.returnsWithin (halts c mem)
    have bound : 600631200 + 600 * (a + b * c.target.algoSize.toNat) + 600 * c.target.algoSize.toNat =
        600631200 + 600 * a + (600 * b + 600) * c.target.algoSize.toNat := by
      rw [Nat.add_mul, Nat.mul_add, Nat.mul_assoc]
      omega
    rwa [bound] at within

/-! ## A target that never halts -/

/-- Every transfer is carried out at once, power is up, and no read ever has `S_HALT`. -/
def runningHost : Host := ⟨⟨fun _ => .ok, fun _ _ _ => powerUpAck⟩, 0⟩

def runningConnection : Connection :=
  ⟨runningHost, ⟨0, 0, 0, 0, 0, ⟨0, 0, 0⟩, 0, 0, 0, fun _ => 0, 0⟩, 0, unusedProbe⟩

/-- Connecting to it never comes to an end. -/
theorem connecting_bounded_not : ¬ ∃ a b, ∀ c : Connection, c.ReturnsWithin (a + b * c.target.algoSize.toNat) := by
  rintro ⟨a, b, returns⟩
  have halts := Connection.haltsWithin (returns runningConnection)
  have prepared : (prepareReset runningHost unusedProbe).1 = .ok () := by decide +kernel
  obtain ⟨i, -, settles⟩ := halts (prepareReset runningHost unusedProbe).2 (by
    show prepareReset runningHost unusedProbe = _
    rw [← prepared])
  have ok : runningHost.wire.AllOk := fun _ => rfl
  have reads : Op.Returns (swdReadWord runningHost.wire DBG_HCSR) :=
    (ok.writeAp _ _).bind fun _ => (ok.transfer _).bind fun _ => (ok.transfer _).bind fun _ => ok.transfer _
  obtain ⟨val, t, run⟩ := reads (polled runningHost i (prepareReset runningHost unusedProbe).2)
  apply settles val t run
  obtain ⟨_, u, -, run⟩ := Op.bind_ok.mp run
  obtain ⟨_, u₁, -, run⟩ := Op.bind_ok.mp run
  obtain ⟨_, u₂, -, run⟩ := Op.bind_ok.mp run
  obtain ⟨k, value⟩ := transferRetry_value run
  rw [value]
  exact (by decide : powerUpAck &&& S_HALT = 0)

end OffLineProgrammer.Target
