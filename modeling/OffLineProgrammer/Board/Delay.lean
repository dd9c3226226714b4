import OffLineProgrammer.Lib.Counter
import OffLineProgrammer.Lib.Loop
import Mathlib.Algebra.Ring.Nat

/-!
# The microsecond delay

`_SysTick_Config` starts the system timer with `CTLR = 0xF`, the mode in which
`CNT` counts up from 0 to `CMP` and restarts at 0; `rt_hw_us_delay` polls `CNT`
and adds up the counts between its polls. The branch it takes for a reading that
fell, and the one for a reading that rose, are those of a counter that counts
down: a rise by `d` is added as `CMP - d` (`countsSeen_rise`) and a restart after
`d` counts as `CMP + 1 - d` (`countsSeen_fall`). So the delay measures the time
it waits exactly where each of its polls finds the counter moved by half a period
or not at all (`usDelay_waits_iff`).
-/

namespace OffLineProgrammer.Board
open Lib
open Lib.Counter (Samples)
set_option autoImplicit false

structure SysTick where
  ctlr : BitVec 32
  sr : BitVec 32
  cnt : BitVec 64
  cmp : BitVec 64

/-- `ticks - 1` is computed in 32 bits and then widened to the register. -/
def sysTickConfig (ticks : BitVec 32) : SysTick :=
  { ctlr := 0xF#32, sr := 0#32, cnt := 0#64, cmp := (ticks - 1#32).setWidth 64 }

/-- One count in the mode that `CTLR = 0xF` selects. -/
def SysTick.tick (t : SysTick) : SysTick := { t with cnt := if t.cnt = t.cmp then 0#64 else t.cnt + 1#64 }

/-- What the `n`-th poll of `CNT` reads. -/
def SysTick.cntAt (t : SysTick) (s : Samples t.cmp.toNat) (n : Nat) : BitVec 64 :=
  (SysTick.tick^[s.elapsed n] { t with cnt := BitVec.ofNat 64 s.first }).cnt

def rtTickPerSecond : Nat := 1000

/-- `us * reload / (1000000 / RT_TICK_PER_SECOND)`, in 64 bits. -/
def delayTicks (us : BitVec 32) (reload : BitVec 64) : BitVec 64 :=
  us.setWidth 64 * reload / BitVec.ofNat 64 (1000000 / rtTickPerSecond)

/-- The locals of `rt_hw_us_delay`; `polls` numbers the reads of `CNT`, the first
of which is the one before the loop. -/
structure DelayVars where
  told : BitVec 64
  tcnt : BitVec 64
  polls : Nat
  deriving DecidableEq

/-- What the loop adds to `tcnt` for a reading that differs from the last. -/
def countsSeen (reload told tnow : BitVec 64) : BitVec 64 :=
  if tnow < told then told - tnow else reload - tnow + told

/-- One turn of `while (1)`. -/
def delayPass (reload ticks : BitVec 64) (cnt : Nat → BitVec 64) (v : DelayVars) : Option (DelayVars ⊕ DelayVars) :=
  let tnow := cnt (v.polls + 1)
  if tnow ≠ v.told then
    let tcnt := v.tcnt + countsSeen reload v.told tnow
    if tcnt ≥ ticks then some (.inr ⟨tnow, tcnt, v.polls + 1⟩)
    else some (.inl ⟨tnow, tcnt, v.polls + 1⟩)
  else some (.inl { v with polls := v.polls + 1 })

/-- The locals with which the loop starts. -/
def delayStart (cnt : Nat → BitVec 64) : DelayVars := { told := cnt 0, tcnt := 0#64, polls := 0 }

/-- `rt_hw_us_delay`: `none` is a delay that has not returned after `fuel` polls. -/
def rtHwUsDelay (fuel : Nat) (t : SysTick) (us : BitVec 32) (cnt : Nat → BitVec 64) : Option DelayVars :=
  Loop.exec (delayPass t.cmp (delayTicks us t.cmp) cnt) fuel (delayStart cnt)

/-! ## What a poll reads -/

namespace SysTick

variable (t : SysTick) (s : Samples t.cmp.toNat)

theorem tick_toNat (le : t.cnt.toNat ≤ t.cmp.toNat) : t.tick.cnt.toNat = Counter.count t.cmp.toNat t.cnt.toNat := by
  have top := t.cmp.isLt
  unfold tick Counter.count
  simp only [BitVec.toNat_inj]
  split
  · rfl
  · next off =>
    have below : t.cnt.toNat < t.cmp.toNat := by
      apply Nat.lt_of_le_of_ne le
      intro eq
      exact off (BitVec.eq_of_toNat_eq eq)
    rw [BitVec.toNat_add, BitVec.toNat_ofNat, Nat.mod_eq_of_lt (by omega)]

theorem tick_iterate (k : Nat) (le : t.cnt.toNat ≤ t.cmp.toNat) :
    (tick^[k] t).cmp = t.cmp ∧ (tick^[k] t).cnt.toNat = (Counter.count t.cmp.toNat)^[k] t.cnt.toNat := by
  induction k with
  | zero => exact ⟨rfl, rfl⟩
  | succ k ih =>
    obtain ⟨cmp, cnt⟩ := ih
    have low : (tick^[k] t).cnt.toNat ≤ (tick^[k] t).cmp.toNat := by
      rw [cnt, cmp, Counter.count_iterate le]
      apply Nat.le_of_lt_succ
      exact Nat.mod_lt _ (Nat.succ_pos _)
    rw [Function.iterate_succ_apply', Function.iterate_succ_apply']
    exact ⟨cmp, by rw [tick_toNat _ low, cnt, cmp]⟩

/-- The register holds the reading of the counter. -/
theorem cntAt_toNat (n : Nat) : (t.cntAt s n).toNat = s.reading n := by
  have low := s.le
  have top := t.cmp.isLt
  have first : (BitVec.ofNat 64 s.first).toNat = s.first := by
    rw [BitVec.toNat_ofNat, Nat.mod_eq_of_lt (by omega)]
  have moved := (tick_iterate { t with cnt := BitVec.ofNat 64 s.first } (s.elapsed n) (Nat.le_trans (Nat.le_of_eq first) low)).2
  rw [first] at moved
  exact moved

theorem cntAt_inj {k n : Nat} : t.cntAt s k = t.cntAt s n ↔ s.reading k = s.reading n := by
  rw [← BitVec.toNat_inj, cntAt_toNat, cntAt_toNat]

end SysTick

/-! ## What a turn of the loop adds -/

section Turn

variable (t : SysTick) (s : Samples t.cmp.toNat)

/-- The register falls between two polls exactly where the counter restarts. -/
theorem cntAt_lt_iff (n : Nat) : t.cntAt s (n + 1) < t.cntAt s n ↔ s.Restarts n := by
  rw [BitVec.lt_def, t.cntAt_toNat, t.cntAt_toNat, s.restarts_iff]

/-- A rise by `d` is added as what is left of `CMP`. -/
theorem countsSeen_rise {n : Nat} (run : ¬ s.Restarts n) :
    (countsSeen t.cmp (t.cntAt s n) (t.cntAt s (n + 1))).toNat = t.cmp.toNat - s.step n := by
  have low := s.reading_le (n + 1)
  have top := t.cmp.isLt
  obtain ⟨_, next⟩ := (s.reading_next n).resolve_right (fun wrap => run wrap.1)
  rw [countsSeen, if_neg (mt (cntAt_lt_iff t s n).mp run), BitVec.toNat_add, BitVec.toNat_sub, t.cntAt_toNat, t.cntAt_toNat]
  omega

/-- A restart after `d` counts is added as what is left of the period. -/
theorem countsSeen_fall {n : Nat} (wrap : s.Restarts n) :
    (countsSeen t.cmp (t.cntAt s n) (t.cntAt s (n + 1))).toNat = t.cmp.toNat + 1 - s.step n := by
  have low := s.reading_le n
  have top := t.cmp.isLt
  have short := s.step_le n
  obtain ⟨_, next⟩ := (s.reading_next n).resolve_left (fun run => run.1 wrap)
  rw [countsSeen, if_pos ((cntAt_lt_iff t s n).mpr wrap), BitVec.toNat_sub, t.cntAt_toNat, t.cntAt_toNat]
  omega

theorem countsSeen_le (n : Nat) : (countsSeen t.cmp (t.cntAt s n) (t.cntAt s (n + 1))).toNat ≤ t.cmp.toNat := by
  by_cases wrap : s.Restarts n
  · have := s.reading_le n
    rw [countsSeen_fall t s wrap]
    unfold Samples.Restarts at wrap
    omega
  · rw [countsSeen_rise t s wrap]
    omega

/-- What turn `n` adds to `tcnt`. -/
def added (n : Nat) : BitVec 64 :=
  if s.step n = 0 then 0#64 else countsSeen t.cmp (t.cntAt s n) (t.cntAt s (n + 1))

theorem added_le (n : Nat) : (added t s n).toNat ≤ t.cmp.toNat := by
  unfold added
  split
  · exact Nat.zero_le _
  · exact countsSeen_le t s n

/-- The counter does not move before the next poll, or moves by half a period. -/
def MovesHalf {top : Nat} (s : Samples top) (n : Nat) : Prop :=
  s.step n = 0 ∨ (¬ s.Restarts n ∧ 2 * s.step n = top) ∨ (s.Restarts n ∧ 2 * s.step n = top + 1)

/-- What is left of the period is what has passed only at half of it. -/
theorem added_eq_step_iff (n : Nat) : (added t s n).toNat = s.step n ↔ MovesHalf s n := by
  have short := s.step_le n
  unfold added MovesHalf
  by_cases still : s.step n = 0
  · simp [still]
  · rw [if_neg still]
    by_cases wrap : s.Restarts n
    · rw [countsSeen_fall t s wrap]
      simp only [still, wrap, not_true_eq_false, false_and, true_and, false_or]
      omega
    · rw [countsSeen_rise t s wrap]
      simp only [still, wrap, not_false_eq_true, true_and, false_and, or_false, false_or]
      omega

/-- One turn from the locals of poll `n`. -/
theorem delayPass_at (ticks : BitVec 64) {n : Nat} {v : DelayVars} (told : v.told = t.cntAt s n) (polls : v.polls = n) :
    let w : DelayVars := ⟨t.cntAt s (n + 1), v.tcnt + added t s n, n + 1⟩
    delayPass t.cmp ticks (t.cntAt s) v =
      if s.step n ≠ 0 ∧ ticks ≤ w.tcnt then some (.inr w) else some (.inl w) := by
  unfold delayPass added
  rw [polls, told]
  by_cases still : s.step n = 0
  · have same : t.cntAt s (n + 1) = t.cntAt s n := (t.cntAt_inj s).mpr ((s.reading_eq_iff n).mpr still)
    simp [still, same]
  · have moved : t.cntAt s (n + 1) ≠ t.cntAt s n :=
      fun same => still ((s.reading_eq_iff n).mp ((t.cntAt_inj s).mp same))
    simp [still, moved]

end Turn

/-! ## The delay over its polls -/

section Delay

variable (t : SysTick) (us : BitVec 32) (s : Samples t.cmp.toNat)

/-- What the loop's `n`-th poll leads to. -/
def delayRounds (n : Nat) : Option (DelayVars ⊕ DelayVars) :=
  Loop.rounds (delayPass t.cmp (delayTicks us t.cmp) (t.cntAt s)) n (delayStart (t.cntAt s))

variable {t us s}

theorem rounds_running {n : Nat} {v : DelayVars} (run : delayRounds t us s n = some (.inl v)) :
    v.told = t.cntAt s n ∧ v.polls = n ∧ v.tcnt.toNat ≤ (delayTicks us t.cmp).toNat := by
  induction n generalizing v with
  | zero =>
    cases run
    exact ⟨rfl, rfl, Nat.zero_le _⟩
  | succ n ih =>
    obtain ⟨u, before, turn⟩ := Loop.rounds_before run
    obtain ⟨told, polls, low⟩ := ih before
    rw [delayPass_at t s _ told polls] at turn
    split at turn
    · cases turn
    · next on =>
      cases turn
      refine ⟨rfl, rfl, ?_⟩
      by_cases still : s.step n = 0
      · simpa [added, still] using low
      · apply Nat.le_of_not_lt
        intro more
        exact on ⟨still, Nat.le_of_lt more⟩

theorem delayTicks_lt (us : BitVec 32) (reload : BitVec 64) : (delayTicks us reload).toNat < 2 ^ 63 := by
  have wide := (us.setWidth 64 * reload).isLt
  rw [delayTicks, BitVec.toNat_udiv]
  apply Nat.lt_of_le_of_lt (Nat.div_le_div_right (Nat.le_of_lt wide))
  decide

/-- The locals after the next poll, and whether the loop leaves with them. -/
theorem rounds_next (narrow : t.cmp.toNat < 2 ^ 32) {n : Nat} {v : DelayVars} (run : delayRounds t us s n = some (.inl v)) :
    ∃ w : DelayVars, w.polls = n + 1 ∧ w.tcnt.toNat = v.tcnt.toNat + (added t s n).toNat ∧
      delayRounds t us s (n + 1) =
        if s.step n ≠ 0 ∧ (delayTicks us t.cmp).toNat ≤ w.tcnt.toNat then some (.inr w) else some (.inl w) := by
  obtain ⟨told, polls, low⟩ := rounds_running run
  have little := added_le t s n
  have few := delayTicks_lt us t.cmp
  refine ⟨⟨t.cntAt s (n + 1), v.tcnt + added t s n, n + 1⟩, rfl, ?_, ?_⟩
  · rw [BitVec.toNat_add, Nat.mod_eq_of_lt (by omega)]
  · exact (Loop.rounds_succ run).trans (delayPass_at t s _ told polls)

/-- The loop is still running while no poll has ended it. -/
theorem rounds_run_on (narrow : t.cmp.toNat < 2 ^ 32) {n : Nat}
    (on : ∀ k w, k < n → delayRounds t us s (k + 1) ≠ some (.inr w)) : ∃ v, delayRounds t us s n = some (.inl v) := by
  induction n with
  | zero => exact ⟨_, rfl⟩
  | succ n ih =>
    obtain ⟨v, run⟩ := ih (fun k w lt => on k w (Nat.lt_succ_of_lt lt))
    obtain ⟨w, _, _, next⟩ := rounds_next narrow run
    split at next
    · exact absurd next (on n w (Nat.lt_succ_self n))
    · exact ⟨w, next⟩

/-- The delay returns at the poll whose turn leaves the loop. -/
theorem returned_iff (narrow : t.cmp.toNat < 2 ^ 32) {n : Nat} :
    (∃ fuel v, rtHwUsDelay fuel t us (t.cntAt s) = some v ∧ v.polls = n) ↔ ∃ v, delayRounds t us s n = some (.inr v) := by
  have numbered : ∀ k v, delayRounds t us s (k + 1) = some (.inr v) → v.polls = k + 1 := by
    intro k v left
    obtain ⟨u, run, _⟩ := Loop.rounds_before left
    obtain ⟨w, polls, _, next⟩ := rounds_next narrow run
    rw [left] at next
    split at next
    · cases next
      exact polls
    · cases next
  constructor
  · rintro ⟨fuel, v, run, rfl⟩
    obtain ⟨k, _, left⟩ := Loop.exec_iff_rounds.mp run
    exact ⟨v, (numbered k v left).symm ▸ left⟩
  · rintro ⟨v, left⟩
    cases n with
    | zero => cases left
    | succ n => exact ⟨n + 1, v, Loop.exec_iff_rounds.mpr ⟨n, Nat.lt_succ_self n, left⟩, numbered n v left⟩

end Delay

/-! ## The delay against the counts that pass -/

/-- `us * CMP / 1000`, the counts the delay is to wait for. -/
def delayCounts (t : SysTick) (us : BitVec 32) : Nat := us.toNat * t.cmp.toNat / (1000000 / rtTickPerSecond)

theorem delayTicks_toNat {t : SysTick} (narrow : t.cmp.toNat < 2 ^ 32) (us : BitVec 32) :
    (delayTicks us t.cmp).toNat = delayCounts t us := by
  have product : us.toNat * t.cmp.toNat < 2 ^ 64 := by
    calc us.toNat * t.cmp.toNat ≤ 2 ^ 32 * t.cmp.toNat := Nat.mul_le_mul_right _ (Nat.le_of_lt us.isLt)
      _ < 2 ^ 32 * 2 ^ 32 := Nat.mul_lt_mul_of_pos_left narrow (by decide)
      _ = 2 ^ 64 := by decide
  rw [delayTicks, BitVec.toNat_udiv, BitVec.toNat_mul, BitVec.toNat_setWidth_of_le (by decide),
    Nat.mod_eq_of_lt product]
  rfl

theorem sysTickConfig_narrow (ticks : BitVec 32) : (sysTickConfig ticks).cmp.toNat < 2 ^ 32 := by
  have short := (ticks - 1#32).isLt
  rw [sysTickConfig, BitVec.toNat_setWidth_of_le (by decide)]
  exact short

/-- Poll `n` is the first that finds `counts` counts gone since the call. -/
def FirstReached {top : Nat} (counts : Nat) (s : Samples top) (n : Nat) : Prop :=
  0 < n ∧ counts ≤ s.elapsed n ∧ ∀ k, 0 < k → k < n → s.elapsed k < counts

/-- The delay measures the time it waits: after each poll `tcnt` is the counts
gone since the call, and the delay returns at the first poll that finds enough of
them gone. -/
structure WaitsExactly (t : SysTick) (us : BitVec 32) (s : Samples t.cmp.toNat) : Prop where
  counted : ∀ n v, delayRounds t us s n = some (.inl v) ∨ delayRounds t us s n = some (.inr v) →
    v.tcnt.toNat = s.elapsed n
  returns : ∀ n, (∃ fuel v, rtHwUsDelay fuel t us (t.cntAt s) = some v ∧ v.polls = n) ↔
    FirstReached (delayCounts t us) s n

/-- Up to the poll that ends the wait the counter moves by half periods only, and
a wait for no counts at all finds it moved at once. -/
structure HalfPeriods {top : Nat} (counts : Nat) (s : Samples top) : Prop where
  half : ∀ n, (∀ k, 0 < k → k ≤ n → s.elapsed k < counts) → MovesHalf s n
  moved : counts = 0 → s.elapsed 1 ≠ 0

section Waits

variable {t : SysTick} {us : BitVec 32} {s : Samples t.cmp.toNat}

/-- With half periods a turn keeps the count right, and leaves where it finds the
counter moved and enough counts gone. -/
theorem halves_next (narrow : t.cmp.toNat < 2 ^ 32) (halves : HalfPeriods (delayCounts t us) s) {n : Nat} {v : DelayVars}
    (run : delayRounds t us s n = some (.inl v)) (counted : v.tcnt.toNat = s.elapsed n)
    (below : ∀ k, 0 < k → k ≤ n → s.elapsed k < delayCounts t us) :
    ∃ w : DelayVars, w.tcnt.toNat = s.elapsed (n + 1) ∧ delayRounds t us s (n + 1) =
      if s.step n ≠ 0 ∧ delayCounts t us ≤ s.elapsed (n + 1) then some (.inr w) else some (.inl w) := by
  obtain ⟨w, _, adds, next⟩ := rounds_next narrow run
  rw [(added_eq_step_iff t s n).mpr (halves.half n below), counted, ← s.elapsed_succ] at adds
  rw [delayTicks_toNat narrow, adds] at next
  exact ⟨w, adds, next⟩

/-- A poll that does not end the wait finds too few counts gone. -/
theorem halves_below {counts : Nat} (halves : HalfPeriods counts s) {n : Nat} (below : ∀ k, 0 < k → k ≤ n → s.elapsed k < counts)
    (on : ¬ (s.step n ≠ 0 ∧ counts ≤ s.elapsed (n + 1))) : s.elapsed (n + 1) < counts := by
  by_cases still : s.step n = 0
  · have same : s.elapsed (n + 1) = s.elapsed n := by rw [s.elapsed_succ, still, Nat.add_zero]
    rcases Nat.eq_zero_or_pos n with rfl | pos
    · rw [same, s.zero]
      apply Nat.pos_of_ne_zero
      intro none_
      exact halves.moved none_ (same.trans s.zero)
    · exact same ▸ below n pos (Nat.le_refl n)
  · apply Nat.lt_of_not_le
    intro enough
    exact on ⟨still, enough⟩

/-- With half periods a running loop has counted what has passed, and not enough. -/
theorem halves_running (narrow : t.cmp.toNat < 2 ^ 32) (halves : HalfPeriods (delayCounts t us) s) {n : Nat} {v : DelayVars}
    (run : delayRounds t us s n = some (.inl v)) :
    v.tcnt.toNat = s.elapsed n ∧ ∀ k, 0 < k → k ≤ n → s.elapsed k < delayCounts t us := by
  induction n generalizing v with
  | zero =>
    cases run
    exact ⟨s.zero.symm, fun k pos low => absurd pos (Nat.not_lt.mpr low)⟩
  | succ n ih =>
    obtain ⟨u, before, _⟩ := Loop.rounds_before run
    obtain ⟨counted, below⟩ := ih before
    obtain ⟨w, adds, next⟩ := halves_next narrow halves before counted below
    rw [run] at next
    split at next
    · cases next
    · next on =>
      cases next
      refine ⟨adds, fun k pos low => ?_⟩
      rcases Nat.lt_or_eq_of_le low with lt | rfl
      · exact below k pos (Nat.le_of_lt_succ lt)
      · exact halves_below halves below on

/-- With half periods the turn that leaves the loop is that of the first poll to
find enough counts gone. -/
theorem halves_left (narrow : t.cmp.toNat < 2 ^ 32) (halves : HalfPeriods (delayCounts t us) s) {n : Nat} {v : DelayVars}
    (left : delayRounds t us s n = some (.inr v)) : v.tcnt.toNat = s.elapsed n ∧ FirstReached (delayCounts t us) s n := by
  cases n with
  | zero => cases left
  | succ n =>
    obtain ⟨u, before, _⟩ := Loop.rounds_before left
    obtain ⟨counted, below⟩ := halves_running narrow halves before
    obtain ⟨w, adds, next⟩ := halves_next narrow halves before counted below
    rw [left] at next
    split at next
    · next enough =>
      cases next
      exact ⟨adds, Nat.succ_pos n, enough.2, fun k pos low => below k pos (Nat.le_of_lt_succ low)⟩
    · cases next

theorem waits_of_halves (narrow : t.cmp.toNat < 2 ^ 32) (halves : HalfPeriods (delayCounts t us) s) : WaitsExactly t us s where
  counted := by
    rintro n v (run | left)
    · exact (halves_running narrow halves run).1
    · exact (halves_left narrow halves left).1
  returns := by
    intro n
    rw [returned_iff narrow]
    constructor
    · rintro ⟨v, left⟩
      exact (halves_left narrow halves left).2
    · rintro ⟨pos, enough, below⟩
      obtain ⟨n, rfl⟩ : ∃ k, n = k + 1 := ⟨n - 1, by omega⟩
      -- no earlier poll ends the wait, so the loop runs on to poll `n + 1`, and there it cannot run on
      have on : ∀ k w, k < n → delayRounds t us s (k + 1) ≠ some (.inr w) := by
        intro k w lt left
        have := (halves_left narrow halves left).2.2.1
        have := below (k + 1) (Nat.succ_pos k) (Nat.succ_lt_succ lt)
        omega
      obtain ⟨v, before⟩ := rounds_run_on narrow on
      obtain ⟨w, _, _, next⟩ := rounds_next narrow before
      split at next
      · exact ⟨w, next⟩
      · have := (halves_running narrow halves next).2 (n + 1) pos (Nat.le_refl _)
        omega

theorem halves_of_waits (narrow : t.cmp.toNat < 2 ^ 32) (waits : WaitsExactly t us s) : HalfPeriods (delayCounts t us) s where
  half := by
    intro n below
    have on : ∀ k w, k < n → delayRounds t us s (k + 1) ≠ some (.inr w) := by
      intro k w lt left
      have := ((waits.returns (k + 1)).mp ((returned_iff narrow).mpr ⟨w, left⟩)).2.1
      have := below (k + 1) (Nat.succ_pos k) lt
      omega
    obtain ⟨v, before⟩ := rounds_run_on narrow on
    obtain ⟨w, _, adds, next⟩ := rounds_next narrow before
    have now := waits.counted n v (Or.inl before)
    have later : w.tcnt.toNat = s.elapsed (n + 1) := by
      split at next
      · exact waits.counted (n + 1) w (Or.inr next)
      · exact waits.counted (n + 1) w (Or.inl next)
    have grown := s.elapsed_succ n
    exact (added_eq_step_iff t s n).mp (by omega)
  moved := by
    intro none_ still
    -- a wait for no counts is over at the first poll, and the loop leaves only where the counter moved
    have first : FirstReached (delayCounts t us) s 1 :=
      ⟨Nat.one_pos, none_ ▸ Nat.zero_le _, fun k pos low => absurd pos (Nat.not_lt.mpr (Nat.le_of_lt_succ low))⟩
    obtain ⟨v, left⟩ := (returned_iff narrow).mp ((waits.returns 1).mpr first)
    obtain ⟨u, before, _⟩ := Loop.rounds_before left
    obtain ⟨w, _, _, next⟩ := rounds_next narrow before
    rw [left] at next
    split at next
    · next enough =>
      have grown := s.elapsed_succ 0
      rw [Nat.zero_add, still] at grown
      exact enough.1 (by omega)
    · cases next

end Waits

/-- **The delay**: it counts what passes and returns at the first poll that finds
`us * CMP / 1000` counts gone exactly where every poll of the wait finds the
counter moved by half a period or not at all. -/
theorem usDelay_waits_iff (ticks us : BitVec 32) (s : Samples (sysTickConfig ticks).cmp.toNat) :
    WaitsExactly (sysTickConfig ticks) us s ↔ HalfPeriods (delayCounts (sysTickConfig ticks) us) s :=
  ⟨halves_of_waits (sysTickConfig_narrow ticks), waits_of_halves (sysTickConfig_narrow ticks)⟩

/-- A poll every ten counts of a timer that ticks a thousand times a second at 144 MHz. -/
def tenCounts : Samples (sysTickConfig 144000#32).cmp.toNat where
  first := 0
  le := Nat.zero_le _
  elapsed n := 10 * n
  zero := rfl
  next n := by omega
  near n := by
    have top : (sysTickConfig 144000#32).cmp.toNat = 143999 := by decide
    omega

/-- One microsecond is 143 counts of it; the delay returns after 10. -/
theorem usDelay_early : ¬ WaitsExactly (sysTickConfig 144000#32) 1#32 tenCounts := by
  intro waits
  have early := (waits.returns 1).mp ⟨1, ⟨10#64, 143989#64, 1⟩, by decide +kernel, rfl⟩
  exact absurd early.2.1 (by decide +kernel)

end OffLineProgrammer.Board
