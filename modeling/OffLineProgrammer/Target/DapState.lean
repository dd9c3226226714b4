import OffLineProgrammer.Target.SwdHost

/-!
# What keeps `dap_state` in step

`dap_state.select` is set after the write of SELECT, `dap_state.csw` before the write of
CSW. So only one thing brings `dap_state` out of step with the registers: a write of CSW
that is given up. An excuse is any property of the probe that such a write brings about
and that stays; every function keeps `dap_state` in step or excused, however it ends.
-/

namespace OffLineProgrammer.Target
set_option autoImplicit false
open OffLineProgrammer.Lib

/-! ## How a transfer ends -/

section Transfer

variable {w : Wire} {r : Request} {p q : Probe}

/-- A request that is given up leaves the target as it is. -/
theorem swdTransferRetry_fail (run : swdTransferRetry w r p = (.fail, q)) :
    q.dapState = p.dapState ∧ q.ap = p.ap ∧ q.refused = p.refused ++ [(p.ap, r)] := by
  have ends := swdTransferRetry_ends w r p
  rw [run] at ends
  cases ends
  exact ⟨rfl, rfl, rfl⟩

/-- A request that is carried out is not recorded. -/
theorem swdTransferRetry_refused {v : Word} (run : swdTransferRetry w r p = (.ok v, q)) : q.refused = p.refused := by
  have ends := swdTransferRetry_ends w r p
  rw [run] at ends
  cases ends
  rfl

/-- A transfer is carried out or given up. -/
theorem swdTransferRetry_cases (w : Wire) (r : Request) (p : Probe) :
    (∃ v q, swdTransferRetry w r p = (.ok v, q)) ∨ ∃ q, swdTransferRetry w r p = (.fail, q) := by
  have ends := swdTransferRetry_ends w r p
  generalize swdTransferRetry w r p = e at ends ⊢
  cases ends with
  | carried => exact Or.inl ⟨_, _, rfl⟩
  | givenUp => exact Or.inr ⟨_, rfl⟩

end Transfer

/-! ## Requests that leave SELECT and CSW alone -/

def Request.Plain (r : Request) : Prop := ∀ a : MemAp, (a.transfer r).select = a.select ∧ (a.transfer r).csw = a.csw

theorem plain_dpRead (adr : Word) : (Request.dpRead adr).Plain := fun _ => ⟨rfl, rfl⟩

theorem plain_dpWrite {adr : Word} (other : adr ≠ DP_SELECT) (val : Word) : (Request.dpWrite adr val).Plain := by
  intro a
  rw [MemAp.transfer, if_neg other]
  exact ⟨rfl, rfl⟩

theorem plain_apRead (adr : Word) : (Request.apRead adr).Plain := by
  intro a
  rw [MemAp.transfer]
  split <;> exact ⟨rfl, rfl⟩

theorem plain_apWrite {adr : Word} (other : adr ≠ AP_CSW) (val : Word) : (Request.apWrite adr val).Plain := by
  intro a
  rw [MemAp.transfer]
  by_cases selected : a.select ≠ 0
  · rw [if_pos selected]
    exact ⟨rfl, rfl⟩
  · rw [if_neg selected, if_neg other]
    split
    · exact ⟨rfl, rfl⟩
    · split <;> exact ⟨rfl, rfl⟩

/-- A probe whose target and `dap_state` are those of one in step. -/
theorem Probe.InStep.of_same {p q : Probe} (step : p.InStep) (state : q.dapState = p.dapState)
    (select : q.ap.select = p.ap.select) (csw : q.ap.csw = p.ap.csw) : q.InStep := by
  refine ⟨?_, ?_⟩
  · rw [state, select]
    exact step.select
  · rw [state, csw]
    exact step.csw

/-- A transfer that changes neither register, whether it is carried out or not. -/
theorem Probe.InStep.transfer {w : Wire} {r : Request} {p : Probe} (step : p.InStep)
    (select : (p.ap.transfer r).select = p.ap.select) (csw : (p.ap.transfer r).csw = p.ap.csw) :
    (swdTransferRetry w r p).2.InStep := by
  rcases swdTransferRetry_cases w r p with ⟨v, q, run⟩ | ⟨q, run⟩
  · obtain ⟨state, ap⟩ := swdTransferRetry_ok run
    rw [run]
    exact step.of_same state (by rw [ap, select]) (by rw [ap, csw])
  · obtain ⟨state, ap, -⟩ := swdTransferRetry_fail run
    rw [run]
    exact step.of_same state (by rw [ap]) (by rw [ap])

/-! ## Registers and their addresses -/

/-- An address of the debug port reaches SELECT only if it is that of SELECT. -/
def DpProper (adr : Word) : Prop := adr &&& 0x0C = DP_SELECT → adr = DP_SELECT

/-- SELECT as `swd_write_ap` and `swd_read_ap` write it. -/
def bankOf (adr : Word) : Word := swdGetApsel adr ||| (adr &&& APBANKSEL)

/-- An address of an access port reaches CSW only if it is that of CSW. -/
def ApProper (adr : Word) : Prop := bankOf adr = 0 → adr &&& 0x0C = AP_CSW → adr = AP_CSW

instance (adr : Word) : Decidable (DpProper adr) := by unfold DpProper; infer_instance

instance (adr : Word) : Decidable (ApProper adr) := by unfold ApProper; infer_instance

/-- No bank is the value `swd_init_debug` starts with. -/
theorem bankOf_ne (adr : Word) : bankOf adr ≠ 0xFFFFFFFF := by
  intro same
  have bit := congrArg (fun x : Word => x.getLsbD 0) same
  simp [bankOf, swdGetApsel] at bit

/-! ## The debug port -/

section DebugPort

variable {w : Wire} {r : Request}

theorem step_transfer (plain : r.Plain) : Op.Keeps Probe.InStep (swdTransferRetry w r) := by
  intro p step
  exact step.transfer (plain p.ap).1 (plain p.ap).2

theorem step_readDp (adr : Word) : Op.Keeps Probe.InStep (swdReadDp w adr) := step_transfer (plain_dpRead _)

/-- `dap_state.select` is set once SELECT is written. -/
theorem step_writeSelect (val : Word) : Op.Keeps Probe.InStep (swdWriteDp w DP_SELECT val) := by
  intro p step
  rw [swdWriteDp, Op.bind_of_ok (rfl : Op.get p = _)]
  split
  · exact step
  · rcases swdTransferRetry_cases w (.dpWrite (DP_SELECT &&& 0x0C) val) p with ⟨v, q, run⟩ | ⟨q, run⟩
    · obtain ⟨state, ap⟩ := swdTransferRetry_ok run
      have ap : q.ap = p.ap.setSelect val := ap
      rw [Op.bind_of_ok run, if_pos rfl]
      refine ⟨Or.inr ?_, ?_⟩
      · exact (congrArg MemAp.select ap).symm
      · show q.dapState.csw = _ ∨ q.dapState.csw = q.ap.csw
        rw [state, ap]
        exact step.csw
    · rw [Op.bind_of_fail run]
      obtain ⟨state, ap, -⟩ := swdTransferRetry_fail run
      exact step.of_same state (by rw [ap]) (by rw [ap])

theorem step_writeDp {adr : Word} (proper : DpProper adr) (val : Word) :
    Op.Keeps Probe.InStep (swdWriteDp w adr val) := by
  rcases Decidable.em (adr = DP_SELECT) with rfl | other
  · exact step_writeSelect val
  · have sent := @step_transfer w _ (plain_dpWrite (fun same => other (proper same)) val)
    refine Op.Keeps.get.bind fun p => Op.Keeps.ite (Op.Keeps.pure ()) (sent.bind fun _ => ?_)
    rw [if_neg other]
    exact Op.Keeps.pure ()

end DebugPort

/-! ## Excuses -/

/-- A property of the probe that stays, and that holds as soon as a request is given up
that would have changed CSW. -/
structure Excuse (w : Wire) (E : Probe → Prop) : Prop where
  transfer : ∀ r, Op.Keeps E (swdTransferRetry w r)
  setSelect : ∀ val, Op.Keeps E (setSelect val)
  setCsw : ∀ val, Op.Keeps E (setCsw val)
  refused : ∀ {r : Request} {p q : Probe}, swdTransferRetry w r p = (.fail, q) →
    (p.ap.transfer r).csw ≠ p.ap.csw → E q

/-- `dap_state` is in step, or there is an excuse. -/
def Probe.InStepOr (E : Probe → Prop) (p : Probe) : Prop := E p ∨ p.InStep

namespace Excuse

variable {w : Wire} {E : Probe → Prop} {r : Request} {p : Probe}

theorem writeDp (excuse : Excuse w E) (adr val : Word) : Op.Keeps E (swdWriteDp w adr val) := by
  refine Op.Keeps.get.bind fun p => Op.Keeps.ite (Op.Keeps.pure ()) ?_
  exact (excuse.transfer _).bind fun _ => Op.Keeps.ite (excuse.setSelect val) (Op.Keeps.pure ())

theorem writeApReg (excuse : Excuse w E) (adr val : Word) : Op.Keeps E (writeApReg w adr val) :=
  (excuse.transfer _).bind fun _ => (excuse.transfer _).bind fun _ => Op.Keeps.pure ()

theorem writeAp (excuse : Excuse w E) (adr val : Word) : Op.Keeps E (swdWriteAp w adr val) := by
  refine (excuse.writeDp _ _).bind fun _ => Op.Keeps.ite ?_ (excuse.writeApReg adr val)
  refine Op.Keeps.get.bind fun p => Op.Keeps.ite (Op.Keeps.pure ()) ?_
  exact (excuse.setCsw val).bind fun _ => excuse.writeApReg adr val

/-- What keeps `dap_state` in step and keeps the excuse. -/
theorem keeps {α : Type} {x : Op Probe α} (same : Op.Keeps E x) (step : Op.Keeps Probe.InStep x) :
    Op.Keeps (Probe.InStepOr E) x := by
  rintro p (excused | here)
  · exact Or.inl (same p excused)
  · exact Or.inr (step p here)

theorem keeps_transfer (excuse : Excuse w E) (plain : r.Plain) : Op.Keeps (Probe.InStepOr E) (swdTransferRetry w r) :=
  keeps (excuse.transfer r) (step_transfer plain)

theorem keeps_readDp (excuse : Excuse w E) (adr : Word) : Op.Keeps (Probe.InStepOr E) (swdReadDp w adr) :=
  keeps (excuse.transfer _) (step_readDp adr)

theorem keeps_writeDp (excuse : Excuse w E) {adr : Word} (proper : DpProper adr) (val : Word) :
    Op.Keeps (Probe.InStepOr E) (swdWriteDp w adr val) :=
  keeps (excuse.writeDp adr val) (step_writeDp proper val)

/-- `dummy read` -/
theorem keeps_rdbuff (excuse : Excuse w E) : Op.Keeps (Probe.InStepOr E) (do
    let _ ← swdTransferRetry w (.dpRead DP_RDBUFF)
    pure ()) :=
  (excuse.keeps_transfer (plain_dpRead DP_RDBUFF)).bind fun _ => Op.Keeps.pure ()

/-- `dap_state.csw` is set first, so that a write of CSW that is given up needs an excuse. -/
theorem writeCsw (excuse : Excuse w E) (step : p.InStep) (select : p.ap.select = 0) (csw : Word) :
    ((do
      Target.setCsw csw
      Target.writeApReg w AP_CSW csw) p).2.InStepOr E := by
  obtain ⟨t, set⟩ : ∃ t, Target.setCsw csw p = (.ok (), t) := ⟨_, rfl⟩
  have state : t.dapState = ⟨p.dapState.select, csw⟩ := by cases set; rfl
  have here : t.ap = p.ap := by cases set; rfl
  have written : t.ap.transfer (.apWrite (AP_CSW &&& 0x0C) csw) = p.ap.setCsw csw := by
    rw [here]
    exact MemAp.transfer_csw select
  rw [Op.bind_of_ok set, Target.writeApReg]
  rcases swdTransferRetry_cases w (.apWrite (AP_CSW &&& 0x0C) csw) t with ⟨v, q, run⟩ | ⟨q, run⟩
  · rw [Op.bind_of_ok run]
    obtain ⟨state', ap⟩ := swdTransferRetry_ok run
    refine excuse.keeps_rdbuff q (Or.inr ⟨?_, Or.inr ?_⟩)
    · rw [state', state, ap, written]
      exact step.select
    · rw [state', state, ap, written, MemAp.setCsw_csw]
  · rw [Op.bind_of_fail run]
    obtain ⟨state', ap, -⟩ := swdTransferRetry_fail run
    by_cases same : csw = p.ap.csw
    · refine Or.inr ⟨?_, Or.inr ?_⟩
      · rw [state', state, ap, here]
        exact step.select
      · rw [state', state, ap, here, same]
    · refine Or.inl (excuse.refused run ?_)
      rw [written, here]
      exact same

/-- `swd_write_ap`: SELECT is in step when CSW is written. -/
theorem keeps_writeAp (excuse : Excuse w E) {adr : Word} (proper : ApProper adr) (val : Word) :
    Op.Keeps (Probe.InStepOr E) (swdWriteAp w adr val) := by
  rintro p (excused | step)
  · exact Or.inl (excuse.writeAp adr val p excused)
  · have kept := excuse.keeps_writeDp (fun _ => rfl : DpProper DP_SELECT) (bankOf adr) p (Or.inr step)
    obtain ⟨o, t, run⟩ : ∃ o t, swdWriteDp w DP_SELECT (bankOf adr) p = (o, t) := ⟨_, _, rfl⟩
    have run' : swdWriteDp w DP_SELECT (swdGetApsel adr ||| (adr &&& APBANKSEL)) p = (o, t) := run
    rw [run] at kept
    rw [swdWriteAp]
    cases o with
    | fail =>
      rw [Op.bind_of_fail run']
      exact kept
    | busy =>
      rw [Op.bind_of_busy run']
      exact kept
    | ok v =>
      obtain ⟨step, ap⟩ := swdWriteDp_select_ok step (bankOf_ne adr) run
      have select : t.ap.select = bankOf adr := congrArg MemAp.select ap
      rw [Op.bind_of_ok run']
      split
      · rename_i csw
        subst csw
        rw [Op.bind_of_ok (rfl : Op.get t = _)]
        split
        · exact Or.inr step
        · exact excuse.writeCsw step select val
      · rename_i other
        have sent : (swdTransferRetry w (.apWrite (adr &&& 0x0C) val) t).2.InStep := by
          by_cases place : adr &&& 0x0C = AP_CSW
          · -- The register is one of another bank or of another access port.
            have away : t.ap.select ≠ 0 := by
              rw [select]
              exact fun zero => other (proper zero place)
            have same : t.ap.transfer (.apWrite (adr &&& 0x0C) val) = t.ap := if_pos away
            exact step.transfer (by rw [same]) (by rw [same])
          · exact step.transfer (plain_apWrite place val t.ap).1 (plain_apWrite place val t.ap).2
        rw [Target.writeApReg]
        rcases swdTransferRetry_cases w (.apWrite (adr &&& 0x0C) val) t with ⟨v, q, run⟩ | ⟨q, run⟩
        · rw [run] at sent
          rw [Op.bind_of_ok run]
          exact excuse.keeps_rdbuff q (Or.inr sent)
        · rw [run] at sent
          rw [Op.bind_of_fail run]
          exact Or.inr sent

/-- A write of CSW. -/
theorem keeps_writeCsw (excuse : Excuse w E) (csw : Word) : Op.Keeps (Probe.InStepOr E) (swdWriteAp w AP_CSW csw) :=
  excuse.keeps_writeAp (fun _ _ => rfl) csw

theorem keeps_readAp (excuse : Excuse w E) (adr : Word) : Op.Keeps (Probe.InStepOr E) (swdReadAp w adr) := by
  have read := excuse.keeps_transfer (plain_apRead (adr &&& 0x0C))
  refine (excuse.keeps_writeDp (fun _ => rfl : DpProper DP_SELECT) _).bind fun _ => ?_
  exact (read.bind fun _ => Op.Keeps.pure ()).ignore.bind fun _ => read

/-! ## Words and bytes -/

theorem keeps_readData (excuse : Excuse w E) (addr : Word) : Op.Keeps (Probe.InStepOr E) (swdReadData w addr) := by
  refine (excuse.keeps_transfer (plain_apWrite (by decide) addr)).bind fun _ => ?_
  exact (excuse.keeps_transfer (plain_apRead AP_DRW)).bind fun _ => excuse.keeps_transfer (plain_dpRead DP_RDBUFF)

theorem keeps_writeData (excuse : Excuse w E) (addr data : Word) : Op.Keeps (Probe.InStepOr E) (swdWriteData w addr data) := by
  refine (excuse.keeps_transfer (plain_apWrite (by decide) addr)).bind fun _ => ?_
  exact (excuse.keeps_transfer (plain_apWrite (by decide) data)).bind fun _ => excuse.keeps_rdbuff

theorem keeps_readWord (excuse : Excuse w E) (addr : Word) : Op.Keeps (Probe.InStepOr E) (swdReadWord w addr) :=
  (excuse.keeps_writeCsw _).bind fun _ => excuse.keeps_readData addr

theorem keeps_writeWord (excuse : Excuse w E) (addr val : Word) : Op.Keeps (Probe.InStepOr E) (swdWriteWord w addr val) :=
  (excuse.keeps_writeCsw _).bind fun _ => excuse.keeps_writeData addr val

theorem keeps_writeByte (excuse : Excuse w E) (addr : Word) (val : Byte) :
    Op.Keeps (Probe.InStepOr E) (swdWriteByte w addr val) :=
  (excuse.keeps_writeCsw _).bind fun _ => excuse.keeps_writeData addr _

end Excuse

end OffLineProgrammer.Target
