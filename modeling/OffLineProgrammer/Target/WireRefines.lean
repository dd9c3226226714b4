import OffLineProgrammer.Target.WireTransfer

/-!
# The transfers of swd_host.c over the two lines

`Target.SwdHost` has a transfer carried out at once, with the answers and the data
that `Wire` gives. Here the port behind the lines gives the same answers, and
`swd_transfer_retry` over the lines does to the target what it does there, for any
sequence of requests (`requests_refined`).
-/

namespace OffLineProgrammer.Target
set_option autoImplicit false
open OffLineProgrammer.Lib

/-! ## Requests, from swd_host.h -/

/-- `SWD_REG_AP` or `SWD_REG_DP`, `SWD_REG_R` or `SWD_REG_W`, and `SWD_REG_ADR`. -/
def Request.word : Request → Word
  | .dpRead adr => 2 ||| (adr &&& 0x0C)
  | .dpWrite adr _ => 0 ||| (adr &&& 0x0C)
  | .apRead adr => 3 ||| (adr &&& 0x0C)
  | .apWrite adr _ => 1 ||| (adr &&& 0x0C)

/-- What is in `*data` before the request; a read leaves it to the caller. -/
def Request.data (cell : Word) : Request → Word
  | .dpRead _ => cell
  | .dpWrite _ val => val
  | .apRead _ => cell
  | .apWrite _ val => val

def Request.isRead : Request → Bool
  | .dpRead _ => true
  | .dpWrite _ _ => false
  | .apRead _ => true
  | .apWrite _ _ => false

/-- The address of the register. -/
def Request.adr : Request → Word
  | .dpRead adr => adr
  | .dpWrite adr _ => adr
  | .apRead adr => adr
  | .apWrite adr _ => adr

/-- The request addresses a register as `SWD_REG_ADR` does. -/
def Request.Proper (r : Request) : Prop := r.adr &&& 0x0C = r.adr

/-- The request a port sees. -/
def requestOf (h : Header) (val : Word) : Request :=
  let adr := h.setWidth 32 &&& 0x0C
  match h.getLsbD 0, h.isRead with
  | false, true => .dpRead adr
  | false, false => .dpWrite adr val
  | true, true => .apRead adr
  | true, false => .apWrite adr val

/-! ## The target behind the lines -/

/-- The target of `Target.SwdHost` with the number of transfers it has seen. -/
def Wire.port (w : Wire) : Port (MemAp × Nat) where
  answer d _ := w.ack d.2
  fetch d h := w.reads d.2 d.1 (requestOf h 0)
  taken d h := (d.1.transfer (requestOf h 0), d.2 + 1)
  store d h val := (d.1.transfer (requestOf h val), d.2 + 1)
  spoiled d _ := (d.1, d.2 + 1)
  refused d _ := (d.1, d.2 + 1)
  noise _ _ := (0, false)

section Retry

variable {τ : Type} (P : Peer τ) (c : DapData) (request : Word)

/-- The loop of `swd_transfer_retry` with the retries left. -/
def retryLines : Nat → Word → Pins τ → Word × Word × Pins τ
  | 0, data, p => swdTransfer P c request data p
  | left + 1, data, p =>
    let (ack, data, p) := swdTransfer P c request data p
    if ack ≠ DAP_TRANSFER_WAIT then (ack, data, p) else retryLines left data p

/-- `swd_transfer_retry` -/
def swdTransferRetryLines : Word → Pins τ → Word × Word × Pins τ := retryLines P c request (MAX_SWD_RETRY - 1)

end Retry

/-! ## What the port sees of a request -/

section Header

/-- There are four registers. -/
theorem Request.Proper.cases {r : Request} (proper : r.Proper) : r.adr = 0 ∨ r.adr = 4 ∨ r.adr = 8 ∨ r.adr = 12 := by
  have masked : r.adr.toNat &&& 12 = r.adr.toNat := by simpa using congrArg BitVec.toNat proper
  have few : r.adr.toNat ≤ 12 := by
    rw [← masked]
    exact Nat.and_le_right
  have all : ∀ n ≤ 12, n &&& 12 = n → n = 0 ∨ n = 4 ∨ n = 8 ∨ n = 12 := by decide
  rcases all _ few masked with here | here | here | here
  · exact .inl (BitVec.eq_of_toNat_eq here)
  · exact .inr (.inl (BitVec.eq_of_toNat_eq here))
  · exact .inr (.inr (.inl (BitVec.eq_of_toNat_eq here)))
  · exact .inr (.inr (.inr (BitVec.eq_of_toNat_eq here)))

/-- The port sees the request the probe sends, with what it hears. -/
theorem requestOf_word {r : Request} (proper : r.Proper) (cell val : Word) (heard : r.isRead = false → val = r.data cell) :
    Header.isRead (r.word.setWidth 4) = r.isRead ∧ requestOf (r.word.setWidth 4) val = r := by
  cases r with
  | dpRead adr => rcases proper.cases with rfl | rfl | rfl | rfl <;> exact ⟨rfl, rfl⟩
  | apRead adr => rcases proper.cases with rfl | rfl | rfl | rfl <;> exact ⟨rfl, rfl⟩
  | dpWrite adr v =>
    have written : val = v := heard rfl
    subst written
    simp only [Request.word]
    rcases proper.cases with rfl | rfl | rfl | rfl <;> exact ⟨rfl, rfl⟩
  | apWrite adr v =>
    have written : val = v := heard rfl
    subst written
    simp only [Request.word]
    rcases proper.cases with rfl | rfl | rfl | rfl <;> exact ⟨rfl, rfl⟩

end Header

/-! ## One transfer -/

section Exchange

variable {w : Wire} {r : Request} {cell : Word} {a : MemAp} {n : Nat}

/-- What a transfer is to the port behind the lines. -/
theorem port_transfer (proper : r.Proper) :
    w.port.transfer (r.word.setWidth 4) (r.data cell) (a, n) =
      ((w.ack n).word, if r.isRead ∧ w.ack n = .ok then w.reads n a r else r.data cell,
        if w.ack n = .ok then a.transfer r else a, if w.ack n = .none then n else n + 1) := by
  obtain ⟨kind, same⟩ := requestOf_word proper cell (r.data cell) fun _ => rfl
  have unread : Odd (w.port.noise (a, n) (r.word.setWidth 4)) = false := show Odd (0, false) = false by decide
  cases answer : w.ack n with
  | ok =>
    have ok : w.port.answer (a, n) (r.word.setWidth 4) = .ok := answer
    cases reads : r.isRead with
    | true =>
      have seen := (requestOf_word proper cell 0 fun writes => by rw [reads] at writes; cases writes).2
      simp only [Port.transfer, ok, kind.trans reads, unread]
      simpa [Wire.port, Ack.word] using ⟨congrArg (w.reads n a) seen, congrArg a.transfer seen⟩
    | false =>
      simp only [Port.transfer, ok, kind.trans reads, unread]
      simp [Wire.port, same, Ack.word]
  | wait =>
    have again : w.port.answer (a, n) (r.word.setWidth 4) = .wait := answer
    simp only [Port.transfer, again]
    simp [Wire.port]
  | fault =>
    have fault : w.port.answer (a, n) (r.word.setWidth 4) = .fault := answer
    simp only [Port.transfer, fault]
    simp [Wire.port]
  | none =>
    have silent : w.port.answer (a, n) (r.word.setWidth 4) = .none := answer
    simp only [Port.transfer, silent]
    simp

end Exchange

/-! ## Retries -/

/-- The pins with a probe of `Target.SwdHost`: the port is at rest, or deaf after a
transfer that was not answered. -/
inductive Carries (w : Wire) (p : Probe) : Pins (Device (MemAp × Nat)) → Prop where
  | rest (out : Bool) : Carries w p (atRest out (p.ap, p.transfers))
  | deaf (out : Bool) (ones n : Nat) (few : ones ≤ 43) (silent : w.ack p.transfers = .none) :
      Carries w p (deafened out ones (p.ap, n))

/-- A target that does not answer does not answer again. -/
def Wire.Lasting (w : Wire) : Prop := ∀ n, w.ack n = .none → w.ack (n + 1) = .none

/-- What a caller has of a request. -/
def Request.result (r : Request) : Outcome Word → Option Word
  | .ok val => some (if r.isRead then val else 0)
  | .fail => none
  | .busy => none

/-- What a caller has of an answer and the data that came with it. -/
def Request.seen (r : Request) (ack data : Word) : Option Word :=
  if ack = DAP_TRANSFER_OK then some (if r.isRead then data else 0) else none

/-- The caller knows how a request ended. -/
theorem Request.seen_iff {r : Request} {ack data : Word} {o : Outcome Word} (same : r.seen ack data = r.result o) :
    ack = DAP_TRANSFER_OK ↔ ∃ val, o = .ok val := by
  unfold seen at same
  split at same
  · next ok =>
    cases o with
    | ok val => exact ⟨fun _ => ⟨val, rfl⟩, fun _ => ok⟩
    | fail => cases same
    | busy => cases same
  · next other =>
    cases o with
    | ok val => cases same
    | fail => exact ⟨fun ok => absurd ok other, fun ⟨_, ok⟩ => by cases ok⟩
    | busy => exact ⟨fun ok => absurd ok other, fun ⟨_, ok⟩ => by cases ok⟩

section Retries

variable {w : Wire} {c : DapData} {r : Request} {p : Probe} {pins : Pins (Device (MemAp × Nat))}

theorem transfer_silent (silent : w.ack p.transfers = .none) : (p.transfer w r).ap = p.ap := by
  simp [Probe.transfer, silent]

/-- One transfer over the lines, from a probe at rest or with a deaf port. -/
theorem transfer_lines (cell : Word) (lasting : w.Lasting) (turn : c.turnaround.toNat ≤ 3) (proper : r.Proper) (carries : Carries w p pins) :
    ∃ after data, swdTransfer (wire w.port c) c r.word (r.data cell) pins = ((w.ack p.transfers).word, data, after) ∧
      Carries w (p.transfer w r) after ∧ (r.isRead = true → w.ack p.transfers = .ok → data = w.reads p.transfers p.ap r) ∧
      (w.ack p.transfers = .wait → data = r.data cell) := by
  cases carries with
  | rest out =>
    have exchange := swdTransfer_exchange w.port c r.word (r.data cell) (p.ap, p.transfers) out (by omega)
    simp only [Port.exchange, port_transfer proper] at exchange
    refine ⟨_, _, exchange, ?_, ?_, ?_⟩
    · have answer : w.port.answer (p.ap, p.transfers) (r.word.setWidth 4) = w.ack p.transfers := rfl
      rw [answer]
      by_cases silent : w.ack p.transfers = .none
      · have kept := transfer_silent (r := r) silent
        rw [if_pos silent, if_pos silent, silent, if_neg (by decide), ← kept]
        exact .deaf _ _ _ (by omega) (lasting _ silent)
      · rw [if_neg silent, if_neg silent]
        exact .rest true
    · intro reads ok
      rw [if_pos ⟨reads, ok⟩]
    · intro wait
      rw [if_neg fun both => absurd (wait.symm.trans both.2) (by decide)]
  | deaf out ones n few silent =>
    have kept := transfer_silent (r := r) silent
    have sent := swdTransfer_deaf w.port c r.word (r.data cell) (p.ap, n) out (by omega) few
    rw [← silent] at sent
    refine ⟨_, _, sent, ?_, ?_, ?_⟩
    · rw [← kept]
      exact .deaf _ _ _ (by omega) (lasting _ silent)
    · intro _ ok
      exact absurd (silent.symm.trans ok) (by decide)
    · intro _
      rfl

/-- Giving up is not seen on the lines. -/
theorem Carries.giveUp (carries : Carries w p pins) : Carries w (p.giveUp r) pins := by
  cases carries with
  | rest out => exact .rest (p := p.giveUp r) out
  | deaf out ones n few silent => exact .deaf (p := p.giveUp r) out ones n few silent

theorem Carries.quiet (carries : Carries w p pins) : pins.peer.port.1 = p.ap ∧ pins.enabled = true ∧ pins.clash = false := by
  cases carries with
  | rest => exact ⟨rfl, rfl, rfl⟩
  | deaf => exact ⟨rfl, rfl, rfl⟩

/-- A request that is not tried again. -/
theorem last_lines {o : Outcome Word} {ack data : Word} {after : Pins (Device (MemAp × Nat))}
    (goesOn : Carries w (p.transfer w r) after) (read : r.isRead = true → w.ack p.transfers = .ok → data = w.reads p.transfers p.ap r)
    (said : ack = (w.ack p.transfers).word) (again : w.ack p.transfers ≠ .ok → o = .fail)
    (done : w.ack p.transfers = .ok → o = .ok (w.reads p.transfers p.ap r)) :
    r.seen ack data = r.result o ∧
      Carries w (if w.ack p.transfers = .ok then p.transfer w r else (p.transfer w r).giveUp r) after := by
  by_cases ok : w.ack p.transfers = .ok
  · rw [if_pos ok, done ok, Request.seen, said, ok]
    refine ⟨?_, goesOn⟩
    cases kind : r.isRead with
    | true => simp [Request.result, Ack.word, kind, read kind ok]
    | false => simp [Request.result, Ack.word, kind]
  · rw [if_neg ok, again ok, Request.seen, said]
    refine ⟨if_neg ?_, goesOn.giveUp⟩
    cases answer : w.ack p.transfers with
    | ok => exact absurd answer ok
    | wait => decide
    | fault => decide
    | none => decide

/-- **`swd_transfer_retry`** over the lines: the caller has the same of it, and the
lines go on with the probe. -/
theorem transferRetry_lines (cell : Word) (lasting : w.Lasting) (turn : c.turnaround.toNat ≤ 3) (proper : r.Proper) (left : Nat)
    (carries : Carries w p pins) :
    let here := transferRetry w r left p
    let there := retryLines (wire w.port c) c r.word left (r.data cell) pins
    r.seen there.1 there.2.1 = r.result here.1 ∧ Carries w here.2 there.2.2 := by
  induction left generalizing p pins with
  | zero =>
    obtain ⟨after, data, sent, goesOn, read, _⟩ := transfer_lines cell lasting turn proper carries
    have last := fun o => last_lines (o := o) goesOn read rfl
    dsimp only
    rw [retryLines, sent]
    unfold transferRetry
    cases answer : w.ack p.transfers with
    | ok => simpa [answer] using last (.ok (w.reads p.transfers p.ap r)) (absurd answer) fun _ => rfl
    | wait => simpa [answer] using last .fail (fun _ => rfl) (by rw [answer]; intro other; cases other)
    | fault => simpa [answer] using last .fail (fun _ => rfl) (by rw [answer]; intro other; cases other)
    | none => simpa [answer] using last .fail (fun _ => rfl) (by rw [answer]; intro other; cases other)
  | succ left ih =>
    obtain ⟨after, data, sent, goesOn, read, kept⟩ := transfer_lines cell lasting turn proper carries
    have last := fun o => last_lines (o := o) goesOn read rfl
    dsimp only
    rw [retryLines, sent]
    unfold transferRetry
    cases answer : w.ack p.transfers with
    | ok => simpa [answer, Ack.word] using last (.ok (w.reads p.transfers p.ap r)) (absurd answer) fun _ => rfl
    | wait =>
      rw [kept answer]
      simpa [Ack.word] using ih goesOn
    | fault => simpa [answer, Ack.word] using last .fail (fun _ => rfl) (by rw [answer]; intro other; cases other)
    | none => simpa [answer, Ack.word] using last .fail (fun _ => rfl) (by rw [answer]; intro other; cases other)

theorem swdTransferRetry_lines (cell : Word) (lasting : w.Lasting) (turn : c.turnaround.toNat ≤ 3) (proper : r.Proper)
    (carries : Carries w p pins) :
    let here := swdTransferRetry w r p
    let there := swdTransferRetryLines (wire w.port c) c r.word (r.data cell) pins
    r.seen there.1 there.2.1 = r.result here.1 ∧ Carries w here.2 there.2.2 :=
  transferRetry_lines cell lasting turn proper (MAX_SWD_RETRY - 1) carries

end Retries

/-! ## Any caller -/

section Caller

variable (w : Wire) (c : DapData)

/-- A caller that makes its next request of what it has had of those before, with what
it has had after `n` requests. -/
def caller (next : List (Option Word) → Request) : Nat → Probe → List (Option Word) × Probe
  | 0, p => ([], p)
  | n + 1, p =>
    let had := caller next n p
    let now := swdTransferRetry w (next had.1) had.2
    (had.1 ++ [(next had.1).result now.1], now.2)

/-- The same over the lines; `cell` is what `*data` holds before a read. -/
def callerLines {τ : Type} (P : Peer τ) (next : List (Option Word) → Request) (cell : List (Option Word) → Word) :
    Nat → Pins τ → List (Option Word) × Pins τ
  | 0, p => ([], p)
  | n + 1, p =>
    let had := callerLines P next cell n p
    let now := swdTransferRetryLines P c (next had.1).word ((next had.1).data (cell had.1)) had.2
    (had.1 ++ [(next had.1).seen now.1 now.2.1], now.2.2)

end Caller

section Callers

variable {w : Wire} {c : DapData} {next : List (Option Word) → Request}

theorem caller_lines (lasting : w.Lasting) (turn : c.turnaround.toNat ≤ 3) (proper : ∀ had, (next had).Proper)
    (cell : List (Option Word) → Word) (n : Nat) {p : Probe} {pins : Pins (Device (MemAp × Nat))} (carries : Carries w p pins) :
    (callerLines c (wire w.port c) next cell n pins).1 = (caller w next n p).1 ∧
      Carries w (caller w next n p).2 (callerLines c (wire w.port c) next cell n pins).2 := by
  induction n with
  | zero => exact ⟨rfl, carries⟩
  | succ n ih =>
    obtain ⟨same, goesOn⟩ := ih
    have request := swdTransferRetry_lines (cell (caller w next n p).1) lasting turn (proper (caller w next n p).1) goesOn
    simp only [callerLines, caller, same]
    exact ⟨congrArg (fun last => (caller w next n p).1 ++ [last]) request.1, request.2⟩

/-- **Whatever a caller asks for**, `swd_transfer_retry` over the lines gives it what
`Target.SwdHost` says and does to the target what it says there, and the probe and the
target never drive the line together. -/
theorem requests_refined (lasting : w.Lasting) (turn : c.turnaround.toNat ≤ 3) (proper : ∀ had, (next had).Proper)
    (cell : List (Option Word) → Word) (n : Nat) (p : Probe) (out : Bool) :
    let here := caller w next n p
    let there := callerLines c (wire w.port c) next cell n (atRest out (p.ap, p.transfers))
    there.1 = here.1 ∧ there.2.peer.port.1 = here.2.ap ∧ there.2.enabled = true ∧ there.2.clash = false := by
  have run := caller_lines lasting turn proper cell n (Carries.rest (w := w) (p := p) out)
  exact ⟨run.1, run.2.quiet⟩

/-- A target that waits once and then does as it is told. -/
def Wire.waitsOnce : Wire := ⟨fun n => if n = 0 then .wait else .ok, fun _ a _ => a.csw⟩

theorem requests_refined_once :
    let p : Probe := ⟨⟨0, 0⟩, ⟨0, 0, 0, .nothing, fun _ => 0⟩, 0, []⟩
    let next := fun had : List (Option Word) => if had = [] then Request.apWrite AP_CSW 0x23000052 else .apRead AP_CSW
    (callerLines dapSetup (wire Wire.waitsOnce.port dapSetup) next (fun _ => 0) 2 (atRest true (p.ap, p.transfers))).1 =
      [some 0, some 0x23000052] := by
  intro p next
  have lasting : Wire.waitsOnce.Lasting := fun n silent => by
    by_cases first : n = 0 <;> simp [Wire.waitsOnce, first] at silent
  have proper : ∀ had, (next had).Proper := fun had => by
    by_cases first : had = [] <;> simp [next, first, Request.Proper, Request.adr]
  have refined := requests_refined (c := dapSetup) lasting (by decide) proper (fun _ => 0) 2 p true
  have asked : (caller .waitsOnce next 2 p).1 = [some 0, some 0x23000052] := by
    rfl
  exact refined.1.trans asked

end Callers

end OffLineProgrammer.Target
