import OffLineProgrammer.UsbDisk.Callbacks

/-!
# Which packets are handled to the end

With the callbacks of `UdiskApp.c` every call returns and leaves the endpoint
it is meant for in its state, but for the receive stall: `Uidsk_Rx_Stall` hands a
receive state to `SetEPTxStatus` and waits for ever. So a packet is handled to
the end unless it is a command block that is refused with a data stage from the
host, or a packet of 31 bytes without the signature.
-/

namespace OffLineProgrammer.UsbDisk
set_option autoImplicit false
open OffLineProgrammer.Lib OffLineProgrammer.Storage Udisk

/-- The register with a receive status. -/
def withRx (r wState : BitVec 16) : BitVec 16 := (r &&& ~~~EPRX_STAT) ||| wState

/-- What a call is meant to do to the endpoint registers: one status field of one
endpoint. -/
def Action.intended (a : Action) (reg : Fin 8 → BitVec 16) : Fin 8 → BitVec 16 :=
  match a with
  | .usbSendPack _ | .usbSend .. => fun e => if e = 4 then withTx (reg 4) EP_TX_VALID else reg e
  | .txStall => fun e => if e = 4 then withTx (reg 4) EP_TX_STALL else reg e
  | .rxStall => fun e => if e = 5 then withRx (reg 5) EP_RX_STALL else reg e
  | _ => reg

def intendedAll : List Action → (Fin 8 → BitVec 16) → Fin 8 → BitVec 16
  | [], reg => reg
  | a :: as, reg => intendedAll as (a.intended reg)

/-- The calls return, with each endpoint in the state meant for it. -/
def HandledRight (as : List Action) (w : Env) : Prop :=
  ∃ fuel w', w.calls fuel as = some w' ∧ w'.epReg = intendedAll as w.epReg

/-- The block is refused while its data stage is from the host, or has no signature. -/
def StallsOut (d : Udisk) (pbuf : Vector Byte packSize) (packlen : BitVec 16) : Prop :=
  d.down = false ∧ packlen = 0x1F ∧
    (¬ (blockOf pbuf).HasSignature ∨
      ((receive pbuf d).rejected = true ∧ (blockOf pbuf).dataLen ≠ 0 ∧ (blockOf pbuf).flag &&& 0x80 = 0))

section Calls

variable {m : Mem} {w : Env}

theorem usbSilWrite_returns (fuel : Nat) (w : Env) (data : List Byte) (len : BitVec 32) :
    ∃ w', w.usbSilWrite (fuel + 1) data len = some w' ∧ w'.bus = w.bus ∧
      w'.epReg = fun e => if e = 4 then withTx (w.epReg 4) EP_TX_VALID else w.epReg e := by
  unfold Env.usbSilWrite
  simp only
  rw [setTxStatus_returns fuel _ EP_TX_VALID (Or.inr rfl)]
  exact ⟨_, rfl, rfl, rfl⟩

/-- **Every call but the receive stall** returns and does what it is meant to. -/
theorem call_returns (ready : w.bus.Ready m) {a : Action} (other : a ≠ .rxStall) (fuel : Nat) :
    ∃ w' m', w.call (fuel + 1) a = some w' ∧ w'.bus.Ready m' ∧ w'.epReg = a.intended w.epReg := by
  cases a with
  | eraseSector addr =>
    obtain ⟨bus, run, done⟩ := flashEraseSector_ready ready addr.toNat
    exact ⟨{ w with bus := bus }, _, by simp only [Env.call, run, Option.bind_eq_bind, Option.bind_some], done, rfl⟩
  | stage offset bytes => exact ⟨_, m, rfl, ready, rfl⟩
  | writeData addr len =>
    obtain ⟨bus, sent, m', run, done⟩ := flashWriteNoCheck_returns ready addr.toNat (w.downBuffer.take len.toNat)
    exact ⟨{ w with bus := bus, downBuffer := sent ++ w.downBuffer.drop len.toNat }, m',
      by simp only [Env.call, run, Option.bind_eq_bind, Option.bind_some], done, rfl⟩
  | readData addr len => exact ⟨_, m, rfl, flashReadData_keeps ready addr.toNat _, rfl⟩
  | usbSendPack len =>
    obtain ⟨w', run, bus, reg⟩ := usbSilWrite_returns fuel w w.packBuffer len
    exact ⟨w', m, run, bus ▸ ready, reg⟩
  | usbSend buf len =>
    obtain ⟨w', run, bus, reg⟩ := usbSilWrite_returns fuel w buf len
    exact ⟨w', m, run, bus ▸ ready, reg⟩
  | txStall => exact ⟨_, m, setTxStatus_returns fuel w EP_TX_STALL (Or.inl rfl), ready, rfl⟩
  | rxStall => exact absurd rfl other

theorem call_rxStall (fuel : Nat) : w.call fuel .rxStall = none := by
  simp only [Env.call, Env.setTxStatus, setEPTxStatus_rxStall, Option.bind_eq_bind, Option.bind_none]

theorem calls_ready (as : List Action) : ∀ {m : Mem} {w : Env}, w.bus.Ready m → .rxStall ∉ as →
    ∃ w' m', w.calls 1 as = some w' ∧ w'.bus.Ready m' ∧ w'.epReg = intendedAll as w.epReg := by
  induction as with
  | nil => intro m w ready _; exact ⟨w, m, rfl, ready, rfl⟩
  | cons a as ih =>
    intro m w ready none
    rw [List.mem_cons, not_or] at none
    obtain ⟨w₁, m₁, run, ready₁, reg⟩ := call_returns ready (Ne.symm none.1) 0
    obtain ⟨w', m', rest, ready', regs⟩ := ih ready₁ none.2
    refine ⟨w', m', ?_, ready', ?_⟩
    · simp only [Env.calls, run, Option.bind_eq_bind, Option.bind_some, rest]
    · rw [regs, reg, intendedAll]

theorem calls_return (as : List Action) {m : Mem} {w : Env} (ready : w.bus.Ready m) (none : .rxStall ∉ as) :
    ∃ w', w.calls 1 as = some w' ∧ w'.epReg = intendedAll as w.epReg := by
  obtain ⟨w', -, run, -, reg⟩ := calls_ready as ready none
  exact ⟨w', run, reg⟩

theorem calls_stuck (fuel : Nat) (as : List Action) : ∀ {w : Env}, .rxStall ∈ as → w.calls fuel as = none := by
  induction as with
  | nil => intro w mem; cases mem
  | cons a as ih =>
    intro w mem
    rcases List.mem_cons.mp mem with head | tail
    · rw [← head]
      simp only [Env.calls, call_rxStall, Option.bind_eq_bind, Option.bind_none]
    · cases run : w.call fuel a with
      | none => simp only [Env.calls, run, Option.bind_eq_bind, Option.bind_none]
      | some w' => simp only [Env.calls, run, Option.bind_eq_bind, Option.bind_some, ih tail]

/-- The calls of a handler come to their end exactly without a receive stall. -/
theorem handledRight_iff (ready : w.bus.Ready m) (as : List Action) : HandledRight as w ↔ .rxStall ∉ as := by
  constructor
  · rintro ⟨fuel, w', run, -⟩ mem
    rw [calls_stuck fuel as mem] at run
    cases run
  · intro none
    obtain ⟨w', run, reg⟩ := calls_return as ready none
    exact ⟨1, w', run, reg⟩

end Calls

section Handlers

variable {f : UdiskFunction} {d : Udisk}

theorem upload_no_rxStall {as : List Action} (upload : ∀ a ∈ as, a.isUpload = true) : .rxStall ∉ as :=
  fun mem => Action.ne_rxStall_upload (upload _ mem) rfl

theorem downOnePack_no_rxStall (pbuf : Vector Byte packSize) : .rxStall ∉ (downOnePack f pbuf d).2 := by
  unfold downOnePack
  simp only
  split
  · split <;> simp [upCsw]
  · simp

/-- Which command blocks stall the receive endpoint. -/
theorem scsiCmdDeal_rxStall (down : d.down = false) (pbuf : Vector Byte packSize) :
    .rxStall ∈ (scsiCmdDeal f (receive pbuf d)).2 ↔
      (¬ (blockOf pbuf).HasSignature ∨
        ((receive pbuf d).rejected = true ∧ (blockOf pbuf).dataLen ≠ 0 ∧ (blockOf pbuf).flag &&& 0x80 = 0)) := by
  have stage : (takeCbw (receive pbuf d)).down = true ↔
      (blockOf pbuf).dataLen ≠ 0 ∧ (blockOf pbuf).flag &&& 0x80 = 0 := by
    simp [takeCbw, receive, down]
  by_cases sig : (blockOf pbuf).HasSignature
  · rcases scsiCmdDeal_signed f (receive pbuf d) sig with ⟨accepted, none, -⟩ | ⟨rejected, -, tx, calls⟩
    · rw [none, accepted]
      simp [sig]
    · rw [calls, mem_stalls, rejected, ← stage]
      simp [sig]
  · rw [(scsiCmdDeal_unsigned f (receive pbuf d) sig).2, mem_stalls]
    simp [sig]

/-- **Which packets stall the receive endpoint.** -/
theorem outEpDeal_rxStall (pbuf : Vector Byte packSize) (packlen : BitVec 16) :
    .rxStall ∈ (outEpDeal f pbuf packlen d).2 ↔ StallsOut d pbuf packlen := by
  unfold StallsOut
  cases down : d.down with
  | true =>
    rw [outEpDeal_data f down]
    exact iff_of_false (downOnePack_no_rxStall pbuf) (fun h => Bool.noConfusion h.1)
  | false =>
    by_cases block : packlen = 0x1F
    · subst block
      rw [outEpDeal_command f down, List.mem_append]
      have after := upload_no_rxStall (afterCmd_upload f (scsiCmdDeal f (receive pbuf d)).1)
      rw [scsiCmdDeal_rxStall down]
      simp [after]
    · rw [outEpDeal_other f down pbuf block]
      exact iff_of_false List.not_mem_nil (fun h => block h.2.1)

end Handlers

/-- **Every packet is handled to the end**, in any state of the disk and of the
endpoint registers, exactly where it does not stall the receive endpoint; an IN
completion always is. -/
theorem handling_iff (f : UdiskFunction) (d : Udisk) (m : Mem) (w : Env) (ready : w.bus.Ready m) :
    (∀ (pbuf : Vector Byte packSize) (packlen : BitVec 16),
      HandledRight (outEpDeal f pbuf packlen d).2 w ↔ ¬ StallsOut d pbuf packlen) ∧
    HandledRight (inEpDeal f d).2 w := by
  constructor
  · intro pbuf packlen
    rw [handledRight_iff ready, outEpDeal_rxStall]
  · rw [handledRight_iff ready]
    exact upload_no_rxStall (inEpDeal_upload f d)

/-- An unknown command with its data stage to the host is handled to the end. -/
theorem handling_unsupported : HandledRight (outEpDeal (udiskFun 0)
    (packet [0x55, 0x53, 0x42, 0x43, 0x01, 0x00, 0x00, 0x00, 0x24, 0x00, 0x00, 0x00, 0x80, 0x00, 0x06, 0xFF])
    0x1F udiskInit).2 restingEnv :=
  ((handling_iff (udiskFun 0) udiskInit _ restingEnv restingEnv_ready).1 _ 0x1F).mpr (by
    rintro ⟨-, -, sig | ⟨-, -, dir⟩⟩
    · exact sig (by decide)
    · exact absurd dir (by decide))

/-- A packet of 31 zero bytes is not: the wait of the receive stall never ends. -/
theorem handling_unsigned : ¬ HandledRight (outEpDeal (udiskFun 0) (packet []) 0x1F udiskInit).2 restingEnv := by
  rintro ⟨fuel, w', run, -⟩
  have stall : .rxStall ∈ (outEpDeal (udiskFun 0) (packet []) 0x1F udiskInit).2 := by decide
  rw [calls_stuck fuel _ stall] at run
  cases run

end OffLineProgrammer.UsbDisk
