import OffLineProgrammer.UsbDisk.Host
import OffLineProgrammer.UsbDisk.Served
import OffLineProgrammer.UsbDisk.Stall

/-!
# What answers a rejected command

`Standard_ClearFeature` of `usb_core.c` makes a stalled EP4 valid again with what
its packet memory holds. A rejected block sends nothing: its handler stalls EP4,
or leaves it as it is, so the packet the host gets next is one of an earlier
command (`rejection_unanswered`).
-/

namespace OffLineProgrammer.UsbDisk
set_option autoImplicit false
open OffLineProgrammer.Lib OffLineProgrammer.Storage Udisk Host

/-! ## The machine with the halt -/

namespace Host

/-- `Standard_ClearFeature` for EP4. -/
def clearHalt (h : Host) : Option Host :=
  if h.env.epReg 4 &&& EPTX_STAT = EP_TX_STALL then do
    let env ← h.env.setTxStatus 1 4 EP_TX_VALID
    some { h with env := env }
  else some h

end Host

/-- What the host can do: CLEAR_FEATURE(ENDPOINT_HALT) besides its packets. -/
inductive HaltEvent where
  | host (e : HostEvent)
  | clearHalt

def HaltEvent.step (f : UdiskFunction) : HaltEvent → Host → Option Host
  | .host e, h => Host.step f e h
  | .clearHalt, h => h.clearHalt

/-- EP4 is about to send a CSW of failure with the tag of the block, and it is one
that the handler `calls` of this block has sent. -/
def OwnFailure (m : BulkOnlyCmd) (calls : List Action) (env : Env) : Prop :=
  ∃ status, status ≠ 0x00 ∧ Armed env ∧ packet4 env = cswOf m.tag status ∧
    ∃ a ∈ calls, a.csw? = some (cswOf m.tag status)

section Reachable

variable {flashId : Byte} {m : Mem} {h h' : Host}

/-- What holds of the machine between two packets. -/
structure Sound (h : Host) : Prop where
  ruled : h.disk.Ruled
  ready : ∃ m, h.env.bus.Ready m

theorem Host.Initial.sound (initial : Initial m h) : Sound h :=
  ⟨by rw [initial.disk]; exact Ruled.init, m, initial.bus⟩

/-- A handler whose calls come to their end. -/
theorem Sound.deal (sound : Sound h) (e : Event) {env : Env} {wire : List (List Byte)}
    (go : Host.deal (e.deal (udiskFun flashId) h.disk) env wire = some h') (bus : env.bus = h.env.bus) : Sound h' := by
  obtain ⟨m, ready⟩ := sound.ready
  by_cases stuck : .rxStall ∈ (e.deal (udiskFun flashId) h.disk).2
  · simp only [Host.deal, calls_stuck 1 _ stuck, Option.bind_eq_bind, Option.bind_none] at go
    cases go
  · obtain ⟨w', m', run, ready', -⟩ := @calls_ready (e.deal (udiskFun flashId) h.disk).2 m env (bus ▸ ready) stuck
    simp only [Host.deal, run, Option.bind_eq_bind, Option.bind_some] at go
    cases go
    exact ⟨sound.ruled.deal e stuck, m', ready'⟩

theorem clearHalt_returns (h : Host) :
    ∃ env, h.clearHalt = some { h with env := env } ∧ env.bus = h.env.bus ∧ packet4 env = packet4 h.env := by
  unfold Host.clearHalt
  split
  · rw [setTxStatus_returns 0 _ EP_TX_VALID (Or.inr rfl)]
    exact ⟨_, rfl, rfl, rfl⟩
  · exact ⟨h.env, rfl, rfl, rfl⟩

theorem Sound.step {e : HaltEvent} (sound : Sound h) (go : e.step (udiskFun flashId) h = some h') : Sound h' := by
  cases e with
  | clearHalt =>
    obtain ⟨env, run, bus, -⟩ := clearHalt_returns h
    rw [HaltEvent.step, run] at go
    cases go
    exact ⟨sound.ruled, bus ▸ sound.ready⟩
  | host e =>
    cases e with
    | out pbuf packlen => exact sound.deal (.out pbuf packlen) go rfl
    | readIn =>
      rw [HaltEvent.step, Host.step] at go
      split at go
      · exact sound.deal .inDone go rfl
      · cases go

theorem reachable_sound {h₀ : Host} (initial : Initial m h₀)
    (reached : Run.Reachable (HaltEvent.step (udiskFun flashId)) h₀ h) : Sound h :=
  Run.reachable_inv Sound (fun _ _ _ sound go => sound.step go) initial.sound reached

end Reachable

/-! ## The answer -/

section Answer

variable {flashId : Byte} {d : Udisk}

/-- A refused block without data from the host: EP4 is stalled, or nothing is called. -/
theorem outEpDeal_refused (f : UdiskFunction) (en : d.en = true) (idle : d.down = false) {cbw : Vector Byte packSize}
    (sig : (blockOf cbw).HasSignature) (noOut : (blockOf cbw).dataOut = false) (refused : (blockOf cbw).Refused) :
    ∃ up, (outEpDeal f cbw 0x1F d).2 = stalls up false := by
  obtain ⟨up, -, -, run⟩ := outEpDeal_rejected f en idle sig (refused_rejected (by rw [receive, en]) (receive_mBOC cbw d) refused)
  have down : (takeCbw (receive cbw d)).down = false := by
    simp only [takeCbw, receive, idle, Bool.false_or]
    exact noOut
  rw [run, down]
  exact ⟨up, rfl⟩

/-- A data packet can bring only a CSW of success. -/
theorem downOnePack_csw (ruled : Ruled d) (down : d.down = true) (pbuf : Vector Byte packSize) {a : Action}
    (mem : a ∈ (downOnePack (udiskFun flashId) pbuf d).2) {tag : Vector Byte 4} {status : Byte}
    (csw : a.csw? = some (cswOf tag status)) : status = 0x00 := by
  by_cases last : d.secPackCount.toNat = 63
  · by_cases done : d.transferDataLen - 64 = 0
    · rw [downOnePack_final flashId pbuf last done, upCsw_calls] at mem
      simp only [List.cons_append, List.nil_append, List.mem_cons, List.not_mem_nil, or_false] at mem
      rcases mem with rfl | rfl | rfl
      · cases csw
      · cases csw
      · rw [cswCall_csw, Option.some.injEq] at csw
        have byte := congrArg (fun bytes => bytes.getD 12 0) csw
        simp only [cswOf_status, afterLast] at byte
        rcases ruled.down down with good | part
        · exact byte.symm.trans good
        · bv_omega
    · rw [downOnePack_sector flashId pbuf last done] at mem
      simp only [List.mem_cons, List.not_mem_nil, or_false] at mem
      rcases mem with rfl | rfl <;> cases csw
  · have count := ruled.count
    rw [downOnePack_inside flashId pbuf (by omega), List.mem_append] at mem
    unfold eraseFirst at mem
    rcases mem with mem | mem
    · split at mem
      · rw [List.mem_singleton.mp mem] at csw
        cases csw
      · cases mem
    · rw [List.mem_singleton.mp mem] at csw
      cases csw

/-- The stall of EP4 leaves its packet memory alone. -/
theorem stalls_packet (env : Env) (up : Bool) :
    ∃ env', env.calls 1 (stalls up false) = some env' ∧ packet4 env' = packet4 env := by
  cases up with
  | false => exact ⟨env, rfl, rfl⟩
  | true =>
    have call : env.calls 1 (stalls true false) =
        some { env with epReg := fun e => if e = 4 then withTx (env.epReg 4) EP_TX_STALL else env.epReg e } := by
      simp only [stalls, if_true, Bool.false_eq_true, if_false, List.append_nil, Env.calls, Env.call]
      rw [setTxStatus_returns 0 env EP_TX_STALL (Or.inl rfl)]
      rfl
    exact ⟨_, call, rfl⟩

/-- No packet that a refused block sends is a CSW of failure. -/
theorem refused_calls (ruled : Ruled d) {cbw : Vector Byte packSize} (sig : (blockOf cbw).HasSignature)
    (noOut : (blockOf cbw).dataOut = false) (refused : (blockOf cbw).Refused) {a : Action}
    (mem : a ∈ (outEpDeal (udiskFun flashId) cbw 0x1F d).2) {tag : Vector Byte 4} {status : Byte}
    (csw : a.csw? = some (cswOf tag status)) : status = 0x00 := by
  cases down : d.down with
  | true =>
    rw [outEpDeal_data _ down] at mem
    exact downOnePack_csw ruled down cbw mem csw
  | false =>
    obtain ⟨up, calls⟩ := outEpDeal_refused (udiskFun flashId) ruled.en down sig noOut refused
    rw [calls] at mem
    rcases mem_stalls.mp mem with ⟨rfl, -⟩ | ⟨-, none⟩
    · cases csw
    · cases none

/-- **A rejected command is never answered with its own failure**: once the host
has cleared the halt, EP4 sends nothing that this command has sent. In the command
state its packet memory holds what it held before. -/
theorem rejection_unanswered (flashId : Byte) {m : Mem} {h₀ h : Host} (initial : Initial m h₀)
    (reached : Run.Reachable (HaltEvent.step (udiskFun flashId)) h₀ h) {cbw : Vector Byte packSize}
    (sig : (blockOf cbw).HasSignature) (noOut : (blockOf cbw).dataOut = false) (refused : (blockOf cbw).Refused) :
    ∃ h₁ h₂, Host.step (udiskFun flashId) (.out cbw 0x1F) h = some h₁ ∧ h₁.clearHalt = some h₂ ∧
      ¬ OwnFailure (blockOf cbw) (outEpDeal (udiskFun flashId) cbw 0x1F h.disk).2 h₂.env ∧
      (h.disk.down = false → packet4 h₂.env = packet4 h.env) := by
  obtain ⟨ruled, m', ready⟩ := reachable_sound initial reached
  have never : ∀ env, ¬ OwnFailure (blockOf cbw) (outEpDeal (udiskFun flashId) cbw 0x1F h.disk).2 env := by
    rintro env ⟨status, bad, -, -, a, mem, csw⟩
    exact bad (refused_calls ruled sig noOut refused mem csw)
  cases down : h.disk.down with
  | true =>
    have returns : .rxStall ∉ (outEpDeal (udiskFun flashId) cbw 0x1F h.disk).2 := by
      rw [outEpDeal_data _ down]
      exact downOnePack_no_rxStall cbw
    obtain ⟨w, -, run, -⟩ := calls_ready _ ready returns
    obtain ⟨env, clear, -, -⟩ := clearHalt_returns ⟨(outEpDeal (udiskFun flashId) cbw 0x1F h.disk).1, w, h.wire⟩
    refine ⟨_, _, ?_, clear, never env, fun h => Bool.noConfusion h⟩
    simp only [Host.step, Host.deal, run, Option.bind_eq_bind, Option.bind_some]
  | false =>
    obtain ⟨up, calls⟩ := outEpDeal_refused (udiskFun flashId) ruled.en down sig noOut refused
    obtain ⟨w, run, same⟩ := stalls_packet h.env up
    obtain ⟨env, clear, -, kept⟩ := clearHalt_returns ⟨(outEpDeal (udiskFun flashId) cbw 0x1F h.disk).1, w, h.wire⟩
    refine ⟨_, _, ?_, clear, never env, fun _ => kept.trans same⟩
    simp only [Host.step, Host.deal, calls, run, Option.bind_eq_bind, Option.bind_some]

end Answer

/-- INQUIRY of 36 bytes, which the host reads with its CSW, and then the block of
an unknown command with the tag 2. -/
def afterInquiry : List HaltEvent :=
  [.host (.out (packet [0x55, 0x53, 0x42, 0x43, 0x01, 0x00, 0x00, 0x00, 0x24, 0x00, 0x00, 0x00, 0x80, 0x00, 0x06, 0x12]) 0x1F),
    .host .readIn, .host .readIn]

def unknownBlock : Vector Byte packSize :=
  packet [0x55, 0x53, 0x42, 0x43, 0x02, 0x00, 0x00, 0x00, 0x24, 0x00, 0x00, 0x00, 0x80, 0x00, 0x06, 0xFF]

def restingHost : Host := ⟨udiskInit, restingEnv, []⟩

theorem restingHost_initial : Initial (fun _ => 0xFF#8) restingHost :=
  ⟨rfl, restingEnv_ready, List.length_replicate, List.length_replicate⟩

/-- After INQUIRY no CSW of its own answers the unknown command, and the packet memory
still holds the CSW of INQUIRY. -/
theorem rejection_unanswered_inquiry :
    ∃ h h₁ h₂, Run.run (HaltEvent.step (udiskFun 0x17)) afterInquiry restingHost = some h ∧
      Host.step (udiskFun 0x17) (.out unknownBlock 0x1F) h = some h₁ ∧ h₁.clearHalt = some h₂ ∧
      ¬ OwnFailure (blockOf unknownBlock) (outEpDeal (udiskFun 0x17) unknownBlock 0x1F h.disk).2 h₂.env ∧
      packet4 h₂.env = [0x55, 0x53, 0x42, 0x53, 0x01, 0x00, 0x00, 0x00, 0x00, 0x00, 0x00, 0x00, 0x00] := by
  have read : (Run.run (HaltEvent.step (udiskFun 0x17)) afterInquiry restingHost).map
      (fun h => (h.disk.down, packet4 h.env)) =
      some (false, [0x55, 0x53, 0x42, 0x53, 0x01, 0x00, 0x00, 0x00, 0x00, 0x00, 0x00, 0x00, 0x00]) := by decide +kernel
  obtain ⟨h, reached, shown⟩ := Option.map_eq_some_iff.mp read
  obtain ⟨idle, csw⟩ := Prod.mk.inj shown
  obtain ⟨h₁, h₂, run, clear, never, kept⟩ := rejection_unanswered 0x17 restingHost_initial ⟨afterInquiry, reached⟩
    (show (blockOf unknownBlock).HasSignature by decide +kernel)
    (show (blockOf unknownBlock).dataOut = false by decide +kernel)
    (show (blockOf unknownBlock).Refused by decide +kernel)
  exact ⟨h, h₁, h₂, reached, run, clear, never, (kept idle).trans csw⟩

/-- After INQUIRY the packet that answers the unknown command is the CSW of
INQUIRY, with its tag 1 and its status 0. -/
theorem rejection_stale :
    (Run.run (HaltEvent.step (udiskFun 0x17)) (afterInquiry ++ [.host (.out unknownBlock 0x1F), .clearHalt]) restingHost).map
      (fun h => (decide (Armed h.env), packet4 h.env)) =
      some (true, [0x55, 0x53, 0x42, 0x53, 0x01, 0x00, 0x00, 0x00, 0x00, 0x00, 0x00, 0x00, 0x00]) := by
  decide +kernel

end OffLineProgrammer.UsbDisk
