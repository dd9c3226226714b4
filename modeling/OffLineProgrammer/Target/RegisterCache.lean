import OffLineProgrammer.Lib.Run
import OffLineProgrammer.Target.MemoryRead
import OffLineProgrammer.Target.ResetProgram

/-!
# What `dap_state` says about the registers

After `swd_init_debug` any accesses may follow, and the target may answer them as it
likes. `dap_state` is in step with the registers after each of them as long as no write
of CSW is given up; then a write that is skipped would have changed nothing. After a
write of CSW that was given up, the next access of that size is made with the size of
the access before it.
-/

namespace OffLineProgrammer.Target
set_option autoImplicit false
open OffLineProgrammer.Lib

/-! ## Accesses of memory -/

namespace Excuse

variable {w : Wire} {E : Probe → Prop}

theorem keeps_readByte (excuse : Excuse w E) (addr : Word) : Op.Keeps (Probe.InStepOr E) (swdReadByte w addr) :=
  (excuse.keeps_writeCsw _).bind fun _ => (excuse.keeps_readData addr).bind fun _ => Op.Keeps.pure _

theorem keeps_tar (excuse : Excuse w E) (address : Word) :
    Op.Keeps (Probe.InStepOr E) (swdTransferRetry w (.apWrite AP_TAR address)) :=
  excuse.keeps_transfer (plain_apWrite (by decide) address)

theorem keeps_drwRead (excuse : Excuse w E) : Op.Keeps (Probe.InStepOr E) (swdTransferRetry w (.apRead AP_DRW)) :=
  excuse.keeps_transfer (plain_apRead AP_DRW)

theorem keeps_readWords (excuse : Excuse w E) (n : Nat) : Op.Keeps (Probe.InStepOr E) (readWords w n) := by
  induction n with
  | zero => exact Op.Keeps.pure _
  | succ n ih => exact excuse.keeps_drwRead.bind fun _ => ih.bind fun _ => Op.Keeps.pure _

theorem keeps_readBlock (excuse : Excuse w E) (address : Word) (size : Nat) :
    Op.Keeps (Probe.InStepOr E) (swdReadBlock w address size) := by
  refine Op.Keeps.ite Op.Keeps.fail ((excuse.keeps_writeCsw _).bind fun _ => ?_)
  refine (excuse.keeps_tar address).bind fun _ => excuse.keeps_drwRead.bind fun _ => ?_
  refine (excuse.keeps_readWords _).bind fun _ => ?_
  exact (excuse.keeps_transfer (plain_dpRead DP_RDBUFF)).bind fun _ => Op.Keeps.pure _

theorem keeps_readHead (excuse : Excuse w E) (address : Word) (size : Nat) :
    Op.Keeps (Probe.InStepOr E) (readHead w address size) := by
  induction size generalizing address with
  | zero => exact Op.Keeps.pure _
  | succ size ih =>
    refine Op.Keeps.ite ((excuse.keeps_readByte address).bind fun _ => ?_) (Op.Keeps.pure _)
    exact (ih _).bind fun _ => Op.Keeps.pure _

theorem keeps_readBlocks (excuse : Excuse w E) (rounds : Nat) (address : Word) (size : Nat) :
    Op.Keeps (Probe.InStepOr E) (readBlocks w rounds address size) := by
  induction rounds generalizing address size with
  | zero => exact Op.Keeps.pure _
  | succ rounds ih =>
    refine Op.Keeps.ite ((excuse.keeps_readBlock _ _).bind fun _ => ?_) (Op.Keeps.pure _)
    exact (ih _ _).bind fun _ => Op.Keeps.pure _

theorem keeps_readTail (excuse : Excuse w E) (address : Word) (size : Nat) :
    Op.Keeps (Probe.InStepOr E) (readTail w address size) := by
  induction size generalizing address with
  | zero => exact Op.Keeps.pure _
  | succ size ih => exact (excuse.keeps_readByte address).bind fun _ => (ih _).bind fun _ => Op.Keeps.pure _

theorem keeps_readMemory (excuse : Excuse w E) (address : Word) (size : Nat) :
    Op.Keeps (Probe.InStepOr E) (swdReadMemory w address size) := by
  refine (excuse.keeps_readHead _ _).bind fun _ => (excuse.keeps_readBlocks _ _ _).bind fun _ => ?_
  exact (excuse.keeps_readTail _ _).bind fun _ => Op.Keeps.pure _

theorem keeps_writeWords (excuse : Excuse w E) (data : List Byte) :
    Op.Keeps (Probe.InStepOr E) (writeWords w data) := by
  match data with
  | [] | [_] | [_, _] | [_, _, _] => exact Op.Keeps.pure ()
  | b₀ :: b₁ :: b₂ :: b₃ :: data =>
    have sent := excuse.keeps_transfer (plain_apWrite (by decide : AP_DRW ≠ AP_CSW) (bufferWord b₀ b₁ b₂ b₃))
    exact sent.bind fun _ => excuse.keeps_writeWords data

theorem keeps_writeBlock (excuse : Excuse w E) (address : Word) (data : List Byte) :
    Op.Keeps (Probe.InStepOr E) (swdWriteBlock w address data) := by
  refine Op.Keeps.ite Op.Keeps.fail ((excuse.keeps_writeCsw _).bind fun _ => ?_)
  exact (excuse.keeps_tar address).bind fun _ => (excuse.keeps_writeWords data).bind fun _ => excuse.keeps_rdbuff

theorem keeps_writeHead (excuse : Excuse w E) (address : Word) (data : List Byte) :
    Op.Keeps (Probe.InStepOr E) (writeHead w address data) := by
  induction data generalizing address with
  | nil => exact Op.Keeps.pure _
  | cons b data ih => exact Op.Keeps.ite ((excuse.keeps_writeByte _ _).bind fun _ => ih _) (Op.Keeps.pure _)

theorem keeps_writeBlocks (excuse : Excuse w E) (rounds : Nat) (address : Word) (data : List Byte) :
    Op.Keeps (Probe.InStepOr E) (writeBlocks w rounds address data) := by
  induction rounds generalizing address data with
  | zero => exact Op.Keeps.pure _
  | succ rounds ih => exact Op.Keeps.ite ((excuse.keeps_writeBlock _ _).bind fun _ => ih _ _) (Op.Keeps.pure _)

theorem keeps_writeTail (excuse : Excuse w E) (address : Word) (data : List Byte) :
    Op.Keeps (Probe.InStepOr E) (writeTail w address data) := by
  induction data generalizing address with
  | nil => exact Op.Keeps.pure ()
  | cons b data ih => exact (excuse.keeps_writeByte _ _).bind fun _ => ih _

theorem keeps_writeMemory (excuse : Excuse w E) (address : Word) (data : List Byte) :
    Op.Keeps (Probe.InStepOr E) (swdWriteMemory w address data) := by
  refine (excuse.keeps_writeHead _ _).bind fun _ => (excuse.keeps_writeBlocks _ _ _).bind fun _ => ?_
  exact excuse.keeps_writeTail _ _

end Excuse

/-! ## Sequences of accesses -/

/-- The functions of `swd_host.c` that read and write registers and memory. -/
inductive Access where
  | readDp (adr : Word)
  | writeDp (adr val : Word)
  | readAp (adr : Word)
  | writeAp (adr val : Word)
  | readByte (addr : Word)
  | writeByte (addr : Word) (val : Byte)
  | readWord (addr : Word)
  | writeWord (addr val : Word)
  | readMemory (address : Word) (size : Nat)
  | writeMemory (address : Word) (data : List Byte)

namespace Access

/-- An operation without its value. -/
def drop {α : Type} (x : Op Probe α) : Op Probe Unit := do
  let _ ← x
  pure ()

def call (w : Wire) : Access → Op Probe Unit
  | .readDp adr => drop (swdReadDp w adr)
  | .writeDp adr val => swdWriteDp w adr val
  | .readAp adr => drop (swdReadAp w adr)
  | .writeAp adr val => swdWriteAp w adr val
  | .readByte addr => drop (swdReadByte w addr)
  | .writeByte addr val => swdWriteByte w addr val
  | .readWord addr => drop (swdReadWord w addr)
  | .writeWord addr val => swdWriteWord w addr val
  | .readMemory address size => drop (swdReadMemory w address size)
  | .writeMemory address data => swdWriteMemory w address data

/-- The record of refused requests is that of the access under way. -/
def start (p : Probe) : Probe := { p with refused := [] }

/-- One access, however it ends. -/
def step (w : Wire) (a : Access) (p : Probe) : Option Probe := some (a.call w (start p)).2

/-- The address is that of a register. -/
def Proper : Access → Prop
  | .writeDp adr _ => DpProper adr
  | .writeAp adr _ => ApProper adr
  | _ => True

/-- The target takes each write of CSW that would change it. -/
def CswTaken (w : Wire) (p : Probe) (a : Access) : Prop :=
  ∀ x ∈ (a.call w (start p)).2.refused, (x.1.transfer x.2).csw = x.1.csw

end Access

/-! ## `dap_state` -/

/-- A write of CSW that would change it has been given up. -/
def Probe.CswRefused (p : Probe) : Prop := ∃ x ∈ p.refused, (x.1.transfer x.2).csw ≠ x.1.csw

theorem excuse_refused (w : Wire) : Excuse w Probe.CswRefused where
  transfer r p := by
    rintro ⟨x, mem, other⟩
    rcases swdTransferRetry_cases w r p with ⟨v, q, run⟩ | ⟨q, run⟩
    · rw [run]
      exact ⟨x, by rw [swdTransferRetry_refused run]; exact mem, other⟩
    · rw [run]
      refine ⟨x, ?_, other⟩
      rw [(swdTransferRetry_fail run).2.2]
      exact List.mem_append_left _ mem
  setSelect _ _ refused := refused
  setCsw _ _ refused := refused
  refused := by
    intro r p q run other
    refine ⟨(p.ap, r), ?_, other⟩
    rw [(swdTransferRetry_fail run).2.2]
    exact List.mem_append_right _ (List.mem_singleton_self _)

namespace Access

variable {w : Wire} {E : Probe → Prop}

theorem keeps_drop {α : Type} {x : Op Probe α} (kept : Op.Keeps (Probe.InStepOr E) x) :
    Op.Keeps (Probe.InStepOr E) (drop x) :=
  kept.bind fun _ => Op.Keeps.pure ()

theorem keeps_call (excuse : Excuse w E) {a : Access} (proper : a.Proper) :
    Op.Keeps (Probe.InStepOr E) (a.call w) := by
  cases a with
  | readDp adr => exact keeps_drop (excuse.keeps_readDp adr)
  | writeDp adr val => exact excuse.keeps_writeDp proper val
  | readAp adr => exact keeps_drop (excuse.keeps_readAp adr)
  | writeAp adr val => exact excuse.keeps_writeAp proper val
  | readByte addr => exact keeps_drop (excuse.keeps_readByte addr)
  | writeByte addr val => exact excuse.keeps_writeByte addr val
  | readWord addr => exact keeps_drop (excuse.keeps_readWord addr)
  | writeWord addr val => exact excuse.keeps_writeWord addr val
  | readMemory address size => exact keeps_drop (excuse.keeps_readMemory address size)
  | writeMemory address data => exact excuse.keeps_writeMemory address data

/-- One access keeps `dap_state` in step, or there is an excuse. -/
theorem step_inStepOr (excuse : Excuse w E) {a : Access} {p q : Probe} (inStep : p.InStep) (proper : a.Proper)
    (went : step w a p = some q) : q.InStepOr E := by
  have begins : (start p).InStep := inStep.of_same rfl rfl rfl
  cases went
  exact keeps_call excuse proper (start p) (Or.inr begins)

theorem step_inStep {a : Access} {p q : Probe} (inStep : p.InStep) (proper : a.Proper) (taken : a.CswTaken w p)
    (went : step w a p = some q) : q.InStep := by
  have kept := step_inStepOr (excuse_refused w) inStep proper went
  cases went
  apply kept.resolve_left
  rintro ⟨x, mem, other⟩
  exact other (taken x mem)

end Access

/-- Writing to SELECT or CSW what `dap_state` says is there would change nothing. -/
theorem Probe.InStep.skip {p : Probe} {val : Word} (step : p.InStep) (known : val ≠ 0xFFFFFFFF) :
    (p.dapState.select = val → p.ap.setSelect val = p.ap) ∧ (p.dapState.csw = val → p.ap.setCsw val = p.ap) := by
  refine ⟨fun cached => ?_, fun cached => ?_⟩
  · have here : p.ap.select = val := (step.select.resolve_left (cached ▸ known)).symm.trans cached
    rw [← here]
    rfl
  · have here : p.ap.csw = val := (step.csw.resolve_left (cached ▸ known)).symm.trans cached
    rw [← here]
    rfl

/-- **`dap_state` is in step after every access**, as long as the target takes each write
of CSW; a write that is skipped would have left the target as it is. -/
theorem dapState_inStep {h : Host} {p₀ p : Probe} {accesses : List Access}
    (meets : Run.Meets (Access.step h.wire) (fun p a => a.Proper ∧ a.CswTaken h.wire p) accesses (swdInitDebug h p₀).2)
    (reached : Run.run (Access.step h.wire) accesses (swdInitDebug h p₀).2 = some p) :
    p.InStep ∧ ∀ val, val ≠ 0xFFFFFFFF →
      (p.dapState.select = val → p.ap.transfer (.dpWrite DP_SELECT val) = p.ap) ∧
      (p.dapState.csw = val → p.ap.select = 0 → p.ap.transfer (.apWrite AP_CSW val) = p.ap) := by
  have inStep := Run.run_inv Probe.InStep _ (fun _ _ _ inv carried => Access.step_inStep inv carried.1 carried.2)
    (initDebug_step h p₀) meets reached
  refine ⟨inStep, fun val known => ?_⟩
  obtain ⟨select, csw⟩ := inStep.skip known
  refine ⟨select, fun cached selected => ?_⟩
  rw [MemAp.transfer_csw selected]
  exact csw cached

/-! ## A write of CSW that is given up -/

/-- The transfer with this number is answered with FAULT; power is up at once. -/
def faultHost (n : Nat) : Host := ⟨⟨fun i => if i = n then .fault else .ok, fun _ _ _ => powerUpAck⟩, 0⟩

/-- Memory of zero bytes, and a port that has not been used. -/
def unusedProbe : Probe := ⟨⟨0, 0⟩, ⟨0, 0, 0, .nothing, fun _ => 0⟩, 0, []⟩

/-- A word, and a byte of it. -/
def wordAndByte : List Access := [.writeMemory 0x20000000 [0x44, 0x33, 0x22, 0x11], .writeMemory 0x20000001 [0xAA]]

theorem dapState_inStep_word : ∃ p,
    Run.run (Access.step (faultHost 11).wire) [.writeMemory 0x20000000 [0x44, 0x33, 0x22, 0x11]]
      (swdInitDebug (faultHost 11) unusedProbe).2 = some p ∧ p.InStep := by
  refine ⟨_, rfl, (@dapState_inStep (faultHost 11) unusedProbe _
    [.writeMemory 0x20000000 [0x44, 0x33, 0x22, 0x11]] ?_ rfl).1⟩
  refine ⟨⟨trivial, ?_⟩, fun _ _ => trivial⟩
  have none : ((Access.writeMemory 0x20000000 [0x44, 0x33, 0x22, 0x11]).call (faultHost 11).wire
      (Access.start (swdInitDebug (faultHost 11) unusedProbe).2)).2.refused.length = 0 := by decide +kernel
  intro x mem
  rw [List.length_eq_zero_iff.mp none] at mem
  cases mem

/-- The write of CSW for the byte is answered with FAULT. `dap_state` then holds a CSW that
the target never took, and the byte written next clears the byte before it. -/
theorem dapState_inStep_not : ∃ p, (∀ a ∈ wordAndByte, a.Proper) ∧
    Run.run (Access.step (faultHost 11).wire) wordAndByte (swdInitDebug (faultHost 11) unusedProbe).2 = some p ∧
    ¬ p.InStep ∧ (swdWriteMemory (faultHost 11).wire 0x20000001 [0xAA] p).1 = .ok () ∧
    p.ap.mem 0x20000000 = 0x44 ∧ (swdWriteMemory (faultHost 11).wire 0x20000001 [0xAA] p).2.ap.mem 0x20000000 = 0 := by
  refine ⟨_, ?_, rfl, fun step => step.csw.elim ?_ ?_, ?_, ?_, ?_⟩
  · intro a mem
    simp only [wordAndByte, List.mem_cons, List.not_mem_nil, or_false] at mem
    rcases mem with rfl | rfl <;> exact trivial
  · decide +kernel
  · decide +kernel
  · decide +kernel
  · decide +kernel
  · decide +kernel

end OffLineProgrammer.Target
