import OffLineProgrammer.Target.DapState
import OffLineProgrammer.Target.TargetFlash

/-!
# Reset and download over SWD, from swd_host.c and target_flash.c

`swd_set_target_state_hw( RESET_PROGRAM )` starts the debug port anew, with values
in `dap_state` that no register has. It goes on where the first write to the target
fails, so that `dap_state` is in step afterwards only if the transfers were carried
out: a CSW that was refused counts as written.
-/

namespace OffLineProgrammer.Target
set_option autoImplicit false
open OffLineProgrammer.Lib

/-! ## Registers of the core, from debug_cm.h -/

abbrev DBG_HCSR : Word := 0xE000EDF0
abbrev DBG_EMCR : Word := 0xE000EDFC
abbrev SCB_AIRCR : Word := 0xE000ED0C

abbrev DBGKEY : Word := 0xA05F0000
abbrev C_DEBUGEN : Word := 1
abbrev S_HALT : Word := 0x00020000
abbrev VC_CORERESET : Word := 1
/-- `STKCMPCLR | STKERRCLR | WDERRCLR | ORUNERRCLR` -/
abbrev clearErrors : Word := 0x1E
/-- `CSYSPWRUPREQ | CDBGPWRUPREQ` -/
abbrev powerUpRequest : Word := 0x50000000
/-- `CDBGPWRUPACK | CSYSPWRUPACK` -/
abbrev powerUpAck : Word := 0xA0000000
abbrev MASKLANE : Word := 0xF00
/-- `0x5FA << SCB_AIRCR_VECTKEY_Pos | SCB_AIRCR_SYSRESETREQ_Msk` -/
abbrev sysResetRequest : Word := 0x05FA0004

/-! ## The functions -/

/-- What the functions find on the programmer's side: the answers on the wire, and
`SCB->AIRCR & SCB_AIRCR_PRIGROUP_Msk` of the programmer itself. -/
structure Host where
  wire : Wire
  priGroup : Word

section Reset

variable (h : Host)

/-- The loop of `swd_init_debug`, with the rounds left. -/
def powerUp : Nat → Op Probe Unit
  | 0 => Op.fail
  | rounds + 1 => do
    let tmp ← swdReadDp h.wire DP_CTRL_STAT
    if tmp &&& powerUpAck = powerUpAck then pure () else powerUp rounds

/-- `swd_init_debug`; of `JTAG2SWD` only the read of the IDCODE can fail. -/
def swdInitDebug : Op Probe Unit := do
  setSelect 0xFFFFFFFF
  setCsw 0xFFFFFFFF
  let _ ← swdReadDp h.wire 0
  swdWriteDp h.wire DP_ABORT clearErrors
  swdWriteDp h.wire DP_SELECT 0
  swdWriteDp h.wire DP_CTRL_STAT powerUpRequest
  powerUp h 100
  swdWriteDp h.wire DP_CTRL_STAT (powerUpRequest ||| MASKLANE)
  swdWriteDp h.wire DP_SELECT 0

/-- `swd_set_target_reset`; it returns nothing. -/
def swdSetTargetReset (asserted : Bool) : Op Probe Unit :=
  if asserted = false then Op.ignore (swdWriteWord h.wire SCB_AIRCR (sysResetRequest ||| h.priGroup)) else pure ()

/-- `Enable debug`, with `ap_retries` tries left. -/
def enableDebug : Nat → Op Probe Unit
  | 0 => Op.fail
  | retries + 1 =>
    Op.orElse (swdWriteWord h.wire DBG_HCSR (DBGKEY ||| C_DEBUGEN))
      (if retries = 0 then Op.fail
      else do
        swdSetTargetReset h true
        swdSetTargetReset h false
        enableDebug retries)

/-- The wait for `S_HALT`. -/
def waitHalted : Nat → Op Probe Unit
  | 0 => Op.busy
  | fuel + 1 => do
    let val ← swdReadWord h.wire DBG_HCSR
    if val &&& S_HALT = 0 then waitHalted fuel else pure ()

/-- `swd_set_target_state_hw( RESET_PROGRAM )`; of the two calls that assert the reset
`reset_connect` selects one, and they do nothing. -/
def swdSetTargetStateHw (fuel : Nat) : Op Probe Unit := do
  swdInitDebug h
  swdSetTargetReset h true
  enableDebug h 2
  swdWriteWord h.wire DBG_EMCR VC_CORERESET
  swdSetTargetReset h true
  swdSetTargetReset h false
  waitHalted h fuel
  swdWriteWord h.wire DBG_EMCR 0

/-- `target_flash_init`, where `exec` is `swd_flash_syscall_exec`. -/
def Probe.targetFlashInit (exec : ProgramSyscall → (entry r0 r1 r2 r3 : Word) → Op Probe Unit) (fuel : Nat)
    (t : ProgramTarget) (flashStart : Word) : Op Probe ErrorT :=
  Op.orReturn (swdSetTargetStateHw h fuel) .reset
    (Op.orReturn (swdWriteMemory h.wire t.algoStart t.image) .algoDl
      (Op.orReturn (exec t.sysCallS t.init flashStart 0 0 0) .init (pure .success)))

end Reset

/-! ## Transfers that are carried out -/

/-- Each of the first `n` transfers is carried out, after some answers of WAIT at most. -/
def Wire.ActsUntil (w : Wire) (n : Nat) : Prop :=
  ∀ i < n, ∃ k < MAX_SWD_RETRY, w.ack (i + k) = .ok ∧ ∀ j < k, w.ack (i + j) = .wait

section Acts

variable {w : Wire} {r : Request} {p t : Probe} {o : Outcome Word} {n : Nat}

theorem transferRetry_more {left : Nat} (run : transferRetry w r left p = (o, t)) : p.transfers < t.transfers := by
  have ends := transferRetry_ends w r left p
  rw [run] at ends
  cases ends
  · exact Nat.lt_succ_of_le (Nat.le_add_right _ _)
  · exact Nat.lt_succ_of_le (Nat.le_add_right _ _)

/-- A transfer that is carried out in time is answered with OK. -/
theorem transferRetry_acts {left k : Nat} (less : k ≤ left) (ok : w.ack (p.transfers + k) = .ok)
    (waits : ∀ j < k, w.ack (p.transfers + j) = .wait) : ∃ v t, transferRetry w r left p = (.ok v, t) := by
  have ends := transferRetry_ends w r left p
  generalize transferRetry w r left p = e at ends ⊢
  cases ends with
  | carried => exact ⟨_, _, rfl⟩
  | givenUp n _ before other last =>
    exfalso
    rcases Nat.lt_trichotomy n k with early | same | late
    · exact absurd (last (waits n early)) (Nat.ne_of_lt (Nat.lt_of_lt_of_le early less))
    · exact other (same ▸ ok)
    · exact Ack.noConfusion (ok.symm.trans (before k late))

/-- **A transfer** is counted, and is answered with OK if it is among the first `n`. -/
theorem swdTransferRetry_acts (acts : w.ActsUntil n) (run : swdTransferRetry w r p = (o, t)) :
    p.transfers < t.transfers ∧ (n < t.transfers ∨ ∃ v, o = .ok v) := by
  have more := transferRetry_more run
  refine ⟨more, ?_⟩
  rcases Nat.lt_or_ge p.transfers n with before | after
  · obtain ⟨k, less, ok, waits⟩ := acts p.transfers before
    obtain ⟨v, t', done⟩ := @transferRetry_acts w r p _ k (Nat.le_sub_one_of_lt less) ok waits
    rw [swdTransferRetry, done] at run
    cases run
    exact Or.inr ⟨v, rfl⟩
  · exact Or.inl (Nat.lt_of_le_of_lt after more)

/-- A transfer that is given up comes after the first `n`. -/
theorem excuse_acts (acts : w.ActsUntil n) : Excuse w (fun p => n < p.transfers) where
  transfer _ _ past := Nat.lt_trans past (transferRetry_more rfl)
  setSelect _ _ past := past
  setCsw _ _ past := past
  refused run _ := (swdTransferRetry_acts acts run).2.resolve_right fun ⟨_, same⟩ => by cases same

end Acts

/-! ## The reset -/

section Reset

variable {h : Host} {n : Nat} {E : Probe → Prop}

theorem keeps_setTargetReset (excuse : Excuse h.wire E) (asserted : Bool) :
    Op.Keeps (Probe.InStepOr E) (swdSetTargetReset h asserted) :=
  Op.Keeps.ite (excuse.keeps_writeWord _ _).ignore (Op.Keeps.pure ())

theorem keeps_enableDebug (excuse : Excuse h.wire E) (retries : Nat) :
    Op.Keeps (Probe.InStepOr E) (enableDebug h retries) := by
  induction retries with
  | zero => exact Op.Keeps.fail
  | succ retries ih =>
    refine (excuse.keeps_writeWord _ _).orElse (Op.Keeps.ite Op.Keeps.fail ?_)
    exact (keeps_setTargetReset excuse true).bind fun _ => (keeps_setTargetReset excuse false).bind fun _ => ih

theorem keeps_waitHalted (excuse : Excuse h.wire E) (fuel : Nat) :
    Op.Keeps (Probe.InStepOr E) (waitHalted h fuel) := by
  induction fuel with
  | zero => exact Op.Keeps.busy
  | succ fuel ih => exact (excuse.keeps_readWord _).bind fun _ => Op.Keeps.ite ih (Op.Keeps.pure ())

theorem step_powerUp (rounds : Nat) : Op.Keeps Probe.InStep (powerUp h rounds) := by
  induction rounds with
  | zero => exact Op.Keeps.fail
  | succ rounds ih => exact (step_readDp _).bind fun _ => Op.Keeps.ite (Op.Keeps.pure ()) ih

/-- The values `swd_init_debug` starts with are in step with any registers. -/
theorem initDebug_step (h : Host) (p : Probe) : (swdInitDebug h p).2.InStep := by
  have start : Probe.InStep { p with dapState := ⟨0xFFFFFFFF, 0xFFFFFFFF⟩ } := ⟨Or.inl rfl, Or.inl rfl⟩
  have rest : Op.Keeps Probe.InStep (do
      let _ ← swdReadDp h.wire 0
      swdWriteDp h.wire DP_ABORT clearErrors
      swdWriteDp h.wire DP_SELECT 0
      swdWriteDp h.wire DP_CTRL_STAT powerUpRequest
      powerUp h 100
      swdWriteDp h.wire DP_CTRL_STAT (powerUpRequest ||| MASKLANE)
      swdWriteDp h.wire DP_SELECT 0) := by
    refine (step_readDp _).bind fun _ => (step_writeDp (by decide) _).bind fun _ => ?_
    refine (step_writeDp (by decide) _).bind fun _ => (step_writeDp (by decide) _).bind fun _ => ?_
    refine (step_powerUp _).bind fun _ => (step_writeDp (by decide) _).bind fun _ => ?_
    exact step_writeDp (by decide) _
  exact rest _ start

/-- **The reset leaves `dap_state` in step**, whatever it was before. -/
theorem setTargetStateHw_step {fuel : Nat} {p q : Probe} (acts : h.wire.ActsUntil q.transfers)
    (run : swdSetTargetStateHw h fuel p = (.ok (), q)) : q.InStep := by
  obtain ⟨_, t, started, rest⟩ := Op.bind_ok.mp run
  have excuse := excuse_acts acts
  have start := initDebug_step h p
  rw [started] at start
  have kept := ((keeps_setTargetReset excuse true).bind fun _ => (keeps_enableDebug excuse 2).bind fun _ =>
    (excuse.keeps_writeWord DBG_EMCR VC_CORERESET).bind fun _ => (keeps_setTargetReset excuse true).bind fun _ =>
    (keeps_setTargetReset excuse false).bind fun _ => (keeps_waitHalted excuse fuel).bind fun _ =>
    excuse.keeps_writeWord DBG_EMCR 0) t (Or.inr start)
  rw [rest] at kept
  exact kept.resolve_left (Nat.lt_irrefl _)

/-- **A successful download** has the bytes of the algorithm in memory where Init is run. -/
theorem targetFlashInit_download {exec : ProgramSyscall → (entry r0 r1 r2 r3 : Word) → Op Probe Unit} {fuel : Nat}
    {t : ProgramTarget} {flashStart : Word} {p q : Probe}
    (acts : h.wire.ActsUntil (swdSetTargetStateHw h fuel p).2.transfers)
    (run : Probe.targetFlashInit h exec fuel t flashStart p = (.ok .success, q)) :
    ∃ ready loaded : Probe, ready.Stored t.algoStart t.image loaded ∧
      exec t.sysCallS t.init flashStart 0 0 0 loaded = (.ok (), q) := by
  obtain ⟨ready, reset, run⟩ := Op.orReturn_ok (by decide) run
  obtain ⟨loaded, download, run⟩ := Op.orReturn_ok (by decide) run
  obtain ⟨q', ran, run⟩ := Op.orReturn_ok (by decide) run
  obtain ⟨-, rfl⟩ := Op.pure_ok.mp run
  rw [reset] at acts
  have step := setTargetStateHw_step acts reset
  have fits : t.image.length ≤ 2 ^ 32 := by
    rw [t.length_image]
    exact Nat.le_of_lt t.algoSize.isLt
  exact ⟨ready, loaded, swdWriteMemory_ok step fits download, ran⟩

end Reset

end OffLineProgrammer.Target
