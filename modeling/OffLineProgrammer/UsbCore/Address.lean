import OffLineProgrammer.UsbCore.Handlers

/-!
# The address of the device

Whatever tokens, packets, bus resets and interrupts come in whatever order, the address
register holds 0, the enable bit alone, or an address of at most 127 that the host has
assigned with a `SET_ADDRESS` request (`run_address`).
-/

namespace OffLineProgrammer.UsbCore
set_option autoImplicit false
open OffLineProgrammer.Lib

namespace Request

/-- The request of the device by which the host assigns an address. -/
def setsAddress (q : Request) : Prop := q.bmRequestType &&& 0x7F = 0 ∧ q.bRequest = SET_ADDRESS

/-- What USB says of such a request: the address, and zero otherwise. -/
structure WellFormed (q : Request) : Prop where
  address : q.wValue.extractLsb' 8 8 ≤ 127
  value : q.wValue.extractLsb' 0 8 = 0
  index : q.wIndex = 0
  length : q.wLength = 0

end Request

/-- The packet assigns the address `a`. -/
def assigns (packet : Nat → Byte) (a : Byte) : Prop :=
  (requestOf packet).setsAddress ∧ (requestOf packet).WellFormed ∧ packet 2 = a

namespace Control

/-- What every run keeps, for setup packets with `P`. -/
structure Addressed (P : (Nat → Byte) → Prop) (d : Control) : Prop where
  request : (∃ packet, P packet ∧ d.request = requestOf packet) ∨ d.request = ⟨0, 0, 0, 0, 0⟩
  status : d.info.controlState = .waitStatusIn → d.request.setsAddress → d.request.WellFormed
  out : d.info.controlState.isOut → ¬ d.request.setsAddress
  daddr : d.daddr = 0 ∨ d.daddr = 0x80 ∨ ∃ packet a, P packet ∧ assigns packet a ∧ d.daddr = a ||| 0x80

section Handlers

variable {P : (Nat → Byte) → Prop} {m : Around} {d e : Control}

/-- A handler that leads to neither stage keeps the invariant. -/
theorem addressed_kept (inv : Addressed P d) (kept : Kept d e) (status : e.info.controlState ≠ .waitStatusIn)
    (out : ¬ e.info.controlState.isOut) : Addressed P e where
  request := kept.request ▸ inv.request
  status this := absurd this status
  out this := absurd this out
  daddr := kept.daddr ▸ inv.daddr

/-- Nothing the invariant is about has changed. -/
theorem addressed_congr (inv : Addressed P d) (held : e.held = d.held) (state : e.info.controlState = d.info.controlState) :
    Addressed P e where
  request := (kept_held held).request ▸ inv.request
  status := by
    rw [state, (kept_held held).request]
    exact inv.status
  out := by
    rw [state, (kept_held held).request]
    exact inv.out
  daddr := (kept_held held).daddr ▸ inv.daddr

/-- `SET_ADDRESS` is none of the requests with data. -/
theorem chosen_address {c : EndpointInfo} (chosen : Chosen d c .success) : ¬ d.request.setsAddress := by
  rintro ⟨type, request⟩
  have recipient : d.info.typeRecipient = 0 := type
  have number : d.info.bRequest = SET_ADDRESS := request
  cases chosen with
  | standard numbers _ _ =>
    rw [number] at numbers
    rcases numbers with this | this | this | this <;> exact absurd this (by decide)
  | maxLun type _ _ =>
    rw [recipient] at type
    exact absurd type (by decide)
  | lineCoding type _ =>
    rw [recipient] at type
    exact absurd type (by decide)

/-- A `SET_ADDRESS` request without data that is not refused is well formed. -/
theorem accepted_address (accepted : d.refusesAddress = false) (noData : d.info.wLength = 0) (sets : d.request.setsAddress) :
    d.request.WellFormed := by
  have recipient : d.info.typeRecipient = STANDARD_REQUEST ||| DEVICE_RECIPIENT := sets.1
  have number : d.info.bRequest = SET_ADDRESS := sets.2
  have each : ¬ (127 < d.info.wValue0 ∨ d.info.wValue1 ≠ 0 ∨ d.info.wIndex ≠ 0 ∨ d.info.currentConfiguration ≠ 0) := by
    intro some_
    have refused : d.refusesAddress = true := decide_eq_true ⟨recipient, number, some_⟩
    rw [accepted] at refused
    cases refused
  simp only [not_or, not_not] at each
  exact ⟨BitVec.not_lt.mp each.1, each.2.1, each.2.2.1, noData⟩

/-- The request the handler of a setup packet works on. -/
def seen (d : Control) : Control := (if d.info.controlState ≠ .pause then d.readSetup else d).setState .settingUp

theorem setup0_seen (m : Around) (d : Control) : d.setup0Process m =
    (if d.seen.info.wLength = 0 then some d.seen.noDataSetup0 else d.seen.dataSetup0 m).map post0Process := rfl

theorem seen_request (ready : d.info.controlState ≠ .pause) {packet : Nat → Byte} {pma : Pma}
    (here : d.pma = toPma 4 packet (ENDP0_RXADDR.toNat / 2) pma) : d.seen.request = requestOf packet := by
  have held : d.seen.held = asked packet d.held := by
    rw [seen, if_pos ready]
    exact readSetup_held pma here
  have asks := asks_held held
  rw [request, requestOf, asks.type, asks.request, asks.wValue, asks.wIndex, asks.wLength]

/-- It is one of the host's. -/
theorem seen_addressed (inv : Addressed P d) {packet : Nat → Byte} (sent : P packet) {pma : Pma}
    (here : d.pma = toPma 4 packet (ENDP0_RXADDR.toNat / 2) pma) : Addressed P d.seen := by
  have state : d.seen.info.controlState = .settingUp := rfl
  have status : d.seen.info.controlState ≠ .waitStatusIn := by
    rw [state]
    decide
  have out : ¬ d.seen.info.controlState.isOut := by
    rw [state]
    decide
  by_cases ready : d.info.controlState ≠ .pause
  · have read : d.seen = d.readSetup.setState .settingUp := by rw [seen, if_pos ready]
    have daddr : d.seen.daddr = d.daddr := by
      rw [read]
      rfl
    exact ⟨.inl ⟨packet, sent, seen_request ready here⟩, fun this => absurd this status, fun this => absurd this out, daddr ▸ inv.daddr⟩
  · have same : d.seen.held = d.held := by
      rw [seen, if_neg ready]
      rfl
    exact addressed_kept inv (kept_held same) status out

theorem setup0_addressed (inv : Addressed P d) {packet : Nat → Byte} (sent : P packet) {pma : Pma}
    (here : d.pma = toPma 4 packet (ENDP0_RXADDR.toNat / 2) pma) (done : d.setup0Process m = some e) : Addressed P e := by
  have inv := seen_addressed inv sent here
  rw [setup0_seen] at done
  generalize d.seen = c at inv done
  obtain ⟨f, handled, here⟩ := Option.map_eq_some_iff.mp done
  subst here
  suffices after : Addressed P f from addressed_congr after (post0_held f) (congrArg DeviceInfo.controlState (post0_info f))
  split at handled
  · next noData =>
    cases handled
    obtain ⟨after, state⟩ := noDataSetup0_after c
    rcases state with pause | stalled | ⟨status, accepted⟩
    · exact addressed_kept inv after.kept (by rw [pause]; decide) (by rw [pause]; decide)
    · exact addressed_kept inv after.kept (by rw [stalled]; decide) (by rw [stalled]; decide)
    · have request := after.kept.request
      refine ⟨request ▸ inv.request, fun _ sets => ?_, fun out => ?_, after.kept.daddr ▸ inv.daddr⟩
      · rw [request] at sets ⊢
        exact accepted_address accepted noData sets
      · rw [status] at out
        exact absurd out (by decide)
  · have after := dataSetup0_after handled
    have kept := kept_held after.held
    refine ⟨kept.request ▸ inv.request, fun this => absurd this after.status, fun out => ?_, kept.daddr ▸ inv.daddr⟩
    rw [kept.request]
    exact chosen_address (after.writes out).2

theorem in0_addressed (inv : Addressed P d) (done : d.in0Process m = some e) : Addressed P e := by
  obtain ⟨f, handled, here⟩ := Option.map_eq_some_iff.mp done
  subst here
  suffices after : Addressed P f from addressed_congr after (post0_held f) (congrArg DeviceInfo.controlState (post0_info f))
  split at handled
  · have after := dataStageIn_after handled
    exact addressed_kept inv (kept_held after.held) after.status after.notOut
  split at handled
  · next status =>
    dsimp only at handled
    have notIn : (ControlState.stalled) ≠ .waitStatusIn ∧ ¬ ControlState.stalled.isOut := by decide
    split at handled
    · next sets =>
      cases handled
      have wellFormed := inv.status status ⟨sets.2, sets.1⟩
      refine ⟨inv.request, fun this => absurd this notIn.1, fun this => absurd this notIn.2, .inr (.inr ?_)⟩
      rcases inv.request with ⟨packet, sent, request⟩ | none
      · refine ⟨packet, packet 2, sent, ⟨?_, ?_, rfl⟩, ?_⟩
        · exact request ▸ ⟨sets.2, sets.1⟩
        · exact request ▸ wellFormed
        · have value : d.info.wValue = packet 2 ++ packet 3 := congrArg Request.wValue request
          change d.info.wValue0 ||| 0x80 = packet 2 ||| 0x80
          rw [DeviceInfo.wValue0, value, append_high]
      · have number : d.info.bRequest = 0 := congrArg Request.bRequest none
        rw [number] at sets
        exact absurd sets.1 (by decide)
    · cases handled
      exact addressed_kept inv ⟨rfl, rfl⟩ notIn.1 notIn.2
  · cases handled
    exact addressed_kept inv ⟨rfl, rfl⟩ (by simp [setState]) (by simp [setState, ControlState.isOut])

theorem out0_addressed (inv : Addressed P d) (done : d.out0Process m = some e) : Addressed P e := by
  obtain ⟨f, handled, here⟩ := Option.map_eq_some_iff.mp done
  subst here
  suffices after : Addressed P f from addressed_congr after (post0_held f) (congrArg DeviceInfo.controlState (post0_info f))
  split at handled
  · next out =>
    obtain ⟨kept, -⟩ := dataStageOut_after handled
    have other : ¬ f.request.setsAddress := by
      rw [kept.request]
      exact inv.out out
    exact ⟨kept.request ▸ inv.request, fun _ sets => absurd sets other, fun _ => other, kept.daddr ▸ inv.daddr⟩
  · cases handled
    exact addressed_kept inv ⟨rfl, rfl⟩ (by simp [setState]) (by simp [setState, ControlState.isOut])

end Handlers

end Control

namespace Usb
open Control (Addressed)

/-! ## Runs -/

/-- What waits for the interrupt: a setup packet stays in the packet memory until then. -/
def Waiting (P : (Nat → Byte) → Prop) (u : Usb) : Prop :=
  u.ctrRx = true → (u.control.ep 0).rx ≠ .valid ∧
    (u.setup = true → ∃ packet pma, P packet ∧ u.control.pma = toPma 4 packet (ENDP0_RXADDR.toNat / 2) pma)

/-- The setup packets of an event have `P`. -/
def Sends (P : (Nat → Byte) → Prop) (e : Event) : Prop := ∀ packet, e = .setupToken packet → P packet

section Step

variable {P : (Nat → Byte) → Prop} {m : Around} {u v : Usb}

/-- **What waits** is kept by every event. -/
theorem step_waiting {e : Event} (inv : u.Waiting P) (sends : Sends P e) (go : u.step m e = some v) : v.Waiting P := by
  cases e with
  | setupToken packet =>
    cases go
    dsimp only
    split
    · intro _
      refine ⟨?_, fun _ => ⟨packet, _, sends packet rfl, rfl⟩⟩
      change ((u.control.setEp 0 ⟨.nak, .nak⟩).ep 0).rx ≠ .valid
      rw [Control.setEp_same]
      decide
    · exact inv
  | inToken =>
    cases go
    split
    · intro received
      obtain ⟨rx, packet⟩ := inv received
      refine ⟨?_, packet⟩
      change ((u.control.setEp 0 _).ep 0).rx ≠ .valid
      rw [Control.setEp_same]
      exact rx
    · exact inv
  | outToken buffer =>
    cases go
    dsimp only
    split
    · intro _
      refine ⟨?_, fun setup => by cases setup⟩
      change ((u.control.setEp 0 ⟨.nak, _⟩).ep 0).rx ≠ .valid
      rw [Control.setEp_same]
      exact fun this => by cases this
    · exact inv
  | interrupt =>
    obtain ⟨w, handled, here⟩ := Option.map_eq_some_iff.mp (show u.usbIstr m = some v from go)
    -- nothing that was received waits any longer
    have taken : w.ctrRx = false := by
      split at handled
      · next waits =>
        unfold ctrLp at handled
        dsimp only at handled
        split at handled
        · next nothing =>
          obtain ⟨d, -, here⟩ := Option.map_eq_some_iff.mp handled
          subst here
          exact nothing
        split at handled
        · obtain ⟨d, -, here⟩ := Option.map_eq_some_iff.mp handled
          subst here
          rfl
        · obtain ⟨d, -, here⟩ := Option.map_eq_some_iff.mp handled
          subst here
          rfl
      · next nothing =>
        cases handled
        exact Bool.eq_false_iff.mpr fun received => nothing (.inl received)
    intro received
    subst here
    split at received
    · rw [taken] at received
      cases received
    · rw [taken] at received
      cases received
  | busReset =>
    cases go
    intro received
    obtain ⟨-, packet⟩ := inv received
    exact ⟨by simp, packet⟩

theorem usbdReset_addressed {d : Control} (inv : Addressed P d) : Addressed P d.usbdReset where
  request := inv.request
  status := inv.status
  out := inv.out
  daddr := .inr (.inl rfl)

/-- **The invariant of the address** is kept by every event. -/
theorem step_addressed {e : Event} (inv : Addressed P u.control) (waiting : u.Waiting P) (go : u.step m e = some v) :
    Addressed P v.control := by
  cases e with
  | setupToken packet =>
    cases go
    dsimp only
    split
    · exact Control.addressed_congr inv (Control.held_setEp ⟨.nak, .nak⟩ u.control) rfl
    · exact inv
  | inToken =>
    cases go
    split
    · exact Control.addressed_congr inv (Control.held_setEp _ u.control) rfl
    · exact inv
  | outToken buffer =>
    cases go
    dsimp only
    split
    · exact Control.addressed_congr inv (Control.held_setEp ⟨.nak, (u.control.ep 0).tx⟩ u.control) rfl
    · exact inv
  | interrupt =>
    obtain ⟨w, handled, here⟩ := Option.map_eq_some_iff.mp (show u.usbIstr m = some v from go)
    have start : Addressed P u.control.taken := Control.addressed_congr inv Control.held_taken rfl
    have inv' : Addressed P w.control := by
      split at handled
      · unfold ctrLp at handled
        dsimp only at handled
        split at handled
        · obtain ⟨d, done, here⟩ := Option.map_eq_some_iff.mp handled
          subst here
          exact Control.addressed_congr (Control.in0_addressed start done) (Control.restored_held d) rfl
        split at handled
        · next received setup =>
          obtain ⟨d, done, here⟩ := Option.map_eq_some_iff.mp handled
          subst here
          obtain ⟨packet, pma, sent, here⟩ := (waiting (eq_true_of_ne_false received)).2 setup
          exact Control.addressed_congr (Control.setup0_addressed start sent here done) (Control.restored_held d) rfl
        · obtain ⟨d, done, here⟩ := Option.map_eq_some_iff.mp handled
          subst here
          exact Control.addressed_congr (Control.out0_addressed start done) (Control.restored_held d) rfl
      · cases handled
        exact inv
    subst here
    split
    · exact usbdReset_addressed inv'
    · exact inv'
  | busReset =>
    cases go
    exact ⟨inv.request, inv.status, inv.out, .inl rfl⟩

end Step

/-- **The address over every run**: whatever the host sends in whatever order, and whenever
the interrupts come, the address register holds 0, the enable bit alone, or the address of
a well formed `SET_ADDRESS` request that the host has sent. -/
theorem run_address {m : Around} {pma : Pma} {es : List Event} {u : Usb} (go : (init pma).run m es = some u) :
    u.control.daddr = 0 ∨ u.control.daddr = 0x80 ∨
      ∃ packet a, .setupToken packet ∈ es ∧ assigns packet a ∧ u.control.daddr = a ||| 0x80 := by
  have start : Addressed (fun packet => .setupToken packet ∈ es) (init pma).control :=
    ⟨.inr rfl, fun this => (by cases this), fun this => absurd this (show ¬ ControlState.inData.isOut by decide), .inl rfl⟩
  have sends : ∀ e ∈ es, Sends (fun packet => .setupToken packet ∈ es) e := by
    rintro e mem packet rfl
    exact mem
  have go : Run.run (fun e u => u.step m e) es (init pma) = some u := go
  have kept := Run.run_inv
    (fun u => Addressed (fun packet => .setupToken packet ∈ es) u.control ∧ u.Waiting (fun packet => .setupToken packet ∈ es))
    (fun _ e => Sends (fun packet => .setupToken packet ∈ es) e)
    (fun u e v inv sends go => ⟨step_addressed inv.1 inv.2 go, step_waiting inv.2 sends go⟩)
    ⟨start, fun received => by cases received⟩
    (Run.meets_events sends (init pma)) go
  exact kept.1.daddr

/-- After a bus reset the host assigns the address 5. -/
def assignFive : List Event :=
  [.busReset, .interrupt, .setupToken fun i => [0x00, SET_ADDRESS, 5, 0, 0, 0, 0, 0].getD i 0, .interrupt, .inToken, .interrupt]

theorem run_address_five :
    ∃ u, (init fun _ => 0).run Around.empty assignFive = some u ∧ u.control.daddr = 0x85 ∧
      (u.control.daddr = 0 ∨ u.control.daddr = 0x80 ∨
        ∃ packet a, Event.setupToken packet ∈ assignFive ∧ assigns packet a ∧ u.control.daddr = a ||| 0x80) := by
  obtain ⟨u, go, daddr⟩ : ∃ u, (init fun _ => 0).run Around.empty assignFive = some u ∧ u.control.daddr = 0x85 :=
    ⟨_, rfl, by decide⟩
  exact ⟨u, go, daddr, run_address go⟩

end Usb

end OffLineProgrammer.UsbCore
