import Mathlib.Tactic.IntervalCases
import OffLineProgrammer.Lib.Loop
import OffLineProgrammer.Storage.DriverSpec
import OffLineProgrammer.UsbDisk.Commands

/-!
# The callbacks of the disk

`UdiskApp.c` installs the 25qxx driver for the sector calls and the endpoint
functions of the USB library for the others. An endpoint register toggles its
status bits where a one is written; `SetEPTxStatus` computes the bits to toggle
and waits until the status field reads back as the state it was given.
-/

namespace OffLineProgrammer.UsbDisk
set_option autoImplicit false
open OffLineProgrammer.Lib OffLineProgrammer.Storage

/-! ## Endpoint registers, from usb_regs.h -/

abbrev EPTX_STAT : BitVec 16 := 0x0030
abbrev EPRX_STAT : BitVec 16 := 0x3000
abbrev EPTX_DTOGMASK : BitVec 16 := 0x8FBF
abbrev EP_CTR_RX : BitVec 16 := 0x8000
abbrev EP_CTR_TX : BitVec 16 := 0x0080
abbrev EPTX_DTOG1 : BitVec 16 := 0x0010
abbrev EPTX_DTOG2 : BitVec 16 := 0x0020
abbrev EP_TX_STALL : BitVec 16 := 0x0010
abbrev EP_TX_VALID : BitVec 16 := 0x0030
abbrev EP_RX_STALL : BitVec 16 := 0x1000

/-- A write to an endpoint register: a status bit toggles where a one is
written, the other fields keep their value. -/
def setEndpoint (r value : BitVec 16) : BitVec 16 :=
  (r &&& ~~~(EPTX_STAT ||| EPRX_STAT)) ||| ((r ^^^ value) &&& (EPTX_STAT ||| EPRX_STAT))

/-- The value `_SetEPTxStatus` writes, computed from the register once. -/
def txRegVal (r wState : BitVec 16) : BitVec 16 :=
  let w := r &&& EPTX_DTOGMASK
  let w := if EPTX_DTOG1 &&& wState ≠ 0 then w ^^^ EPTX_DTOG1 else w
  let w := if EPTX_DTOG2 &&& wState ≠ 0 then w ^^^ EPTX_DTOG2 else w
  w ||| EP_CTR_RX ||| EP_CTR_TX

/-- The condition and the body of the wait loop of `_SetEPTxStatus`. -/
def txWait (wState value r : BitVec 16) : Option (BitVec 16 ⊕ BitVec 16) :=
  some (if r &&& EPTX_STAT ≠ wState then .inl (setEndpoint r value) else .inr r)

/-- `SetEPTxStatus` on the register `r`. -/
def setEPTxStatus (fuel : Nat) (wState r : BitVec 16) : Option (BitVec 16) :=
  Loop.exec (txWait wState (txRegVal r wState)) fuel (setEndpoint r (txRegVal r wState))

/-! ## The world of the callbacks -/

/-- For the literal endpoints of `epReg`. -/
instance epReg_neZero : NeZero 8 := ⟨by decide⟩

structure Env where
  /-- The bus of the 25qxx chip. -/
  bus : Bus
  /-- `UDisk_Down_Buffer` -/
  downBuffer : List Byte
  /-- `UDisk_Pack_Buffer` -/
  packBuffer : List Byte
  epReg : Fin 8 → BitVec 16
  /-- The packet memory of EP4 and its byte count. -/
  ep4Buffer : Mem
  ep4Count : BitVec 16
  /-- What is read past the end of a buffer. -/
  beyond : Mem

namespace Env

/-- `SetEPTxStatus` on one endpoint. -/
def setTxStatus (fuel : Nat) (ep : Fin 8) (wState : BitVec 16) (w : Env) : Option Env := do
  let r ← setEPTxStatus fuel wState (w.epReg ep)
  some { w with epReg := fun e => if e = ep then r else w.epReg e }

/-- `USB_SIL_Write( EP4_IN, data, len )`: the packet memory is written by halfwords. -/
def usbSilWrite (fuel : Nat) (data : List Byte) (len : BitVec 32) (w : Env) : Option Env :=
  let n := len.setWidth 16
  let bytes := (List.range ((n.toNat + 1) / 2 * 2)).map fun i => data.getD i (w.beyond i)
  setTxStatus fuel 4 EP_TX_VALID { w with ep4Buffer := w.ep4Buffer.write 0 bytes, ep4Count := n }

/-- The callback installed for each call; `fuel` bounds the wait loops. -/
def call (fuel : Nat) (w : Env) : Action → Option Env
  | .eraseSector addr => do
    let bus ← flashEraseSector addr.toNat w.bus
    some { w with bus := bus }
  | .stage offset bytes => some { w with downBuffer := mergeSector w.downBuffer offset bytes.toList }
  | .writeData addr len => do
    let (bus, sent) ← flashWriteNoCheck addr.toNat (w.downBuffer.take len.toNat) w.bus
    some { w with bus := bus, downBuffer := sent ++ w.downBuffer.drop len.toNat }
  | .readData addr len =>
    let r := flashReadData addr.toNat (w.packBuffer.take len.toNat) w.bus
    some { w with bus := r.1, packBuffer := r.2 ++ w.packBuffer.drop len.toNat }
  | .usbSendPack len => usbSilWrite fuel w.packBuffer len w
  | .usbSend buf len => usbSilWrite fuel buf len w
  -- `SetEPTxStatus(ENDP4, EP_TX_STALL)`
  | .txStall => setTxStatus fuel 4 EP_TX_STALL w
  -- `SetEPTxStatus(ENDP5, EP_RX_STALL)`
  | .rxStall => setTxStatus fuel 5 EP_RX_STALL w

/-- The calls of a handler, in order. -/
def calls (fuel : Nat) : List Action → Env → Option Env
  | [], w => some w
  | a :: as, w => do
    let w ← w.call fuel a
    calls fuel as w

end Env

/-- A blank chip at rest, and the endpoints as `USBD_Reset` sets them up. -/
def restingEnv : Env where
  bus := ⟨⟨fun _ => 0xFF#8, false, 0, fun _ => 3⟩, false, [], fun _ => 0, 0⟩
  downBuffer := List.replicate 4096 0
  packBuffer := List.replicate 64 0
  epReg := fun e => if e = 4 then 0x0024 else if e = 5 then 0x3005 else 0
  ep4Buffer := fun _ => 0
  ep4Count := 0
  beyond := fun _ => 0

theorem restingEnv_ready : restingEnv.bus.Ready fun _ => 0xFF#8 := ⟨rfl, rfl, rfl⟩

/-! ## The wait loop -/

/-- The register with a transmit status. -/
def withTx (r wState : BitVec 16) : BitVec 16 := (r &&& ~~~EPTX_STAT) ||| wState

/-- The first write sets a transmit state. -/
theorem setEndpoint_tx (r : BitVec 16) (wState : BitVec 16) (tx : wState = EP_TX_STALL ∨ wState = EP_TX_VALID) :
    setEndpoint r (txRegVal r wState) = withTx r wState := by
  rcases tx with rfl | rfl
  · have value : txRegVal r EP_TX_STALL = (r &&& EPTX_DTOGMASK ^^^ EPTX_DTOG1) ||| EP_CTR_RX ||| EP_CTR_TX := rfl
    rw [value, setEndpoint, withTx]
    apply BitVec.eq_of_getLsbD_eq
    intro i hi
    interval_cases i <;> simp
  · have value : txRegVal r EP_TX_VALID =
        (r &&& EPTX_DTOGMASK ^^^ EPTX_DTOG1 ^^^ EPTX_DTOG2) ||| EP_CTR_RX ||| EP_CTR_TX := rfl
    rw [value, setEndpoint, withTx]
    apply BitVec.eq_of_getLsbD_eq
    intro i hi
    interval_cases i <;> simp

theorem withTx_stat (r : BitVec 16) (wState : BitVec 16) (tx : wState = EP_TX_STALL ∨ wState = EP_TX_VALID) :
    withTx r wState &&& EPTX_STAT = wState := by
  rcases tx with rfl | rfl
  all_goals
    apply BitVec.eq_of_getLsbD_eq
    intro i hi
    interval_cases i <;> simp [withTx]

/-- **A transmit state ends the wait at once.** -/
theorem setEPTxStatus_tx (fuel : Nat) (r wState : BitVec 16) (tx : wState = EP_TX_STALL ∨ wState = EP_TX_VALID) :
    setEPTxStatus (fuel + 1) wState r = some (withTx r wState) := by
  rw [setEPTxStatus, setEndpoint_tx r wState tx]
  exact Loop.exec_leave (by simp only [txWait, withTx_stat r wState tx, ne_eq, not_true_eq_false, if_false])

theorem setTxStatus_returns (fuel : Nat) (w : Env) (wState : BitVec 16)
    (tx : wState = EP_TX_STALL ∨ wState = EP_TX_VALID) :
    w.setTxStatus (fuel + 1) 4 wState =
      some { w with epReg := fun e => if e = 4 then withTx (w.epReg 4) wState else w.epReg e } := by
  simp only [Env.setTxStatus, setEPTxStatus_tx fuel _ wState tx, Option.bind_eq_bind, Option.bind_some]

/-- **A receive state never ends it**: the field waited for has no such value. -/
theorem setEPTxStatus_rxStall (fuel : Nat) (r : BitVec 16) : setEPTxStatus fuel EP_RX_STALL r = none := by
  have stays : ∀ s : BitVec 16, True →
      ∃ s', txWait EP_RX_STALL (txRegVal r EP_RX_STALL) s = some (.inl s') ∧ True := by
    intro s _
    have differs : s &&& EPTX_STAT ≠ EP_RX_STALL := by
      intro same
      have bit := congrArg (fun v => v.getLsbD 12) same
      simp at bit
    exact ⟨setEndpoint s (txRegVal r EP_RX_STALL),
      by simp only [txWait, differs, ne_eq, not_false_eq_true, if_true], trivial⟩
  exact Loop.exec_diverges (fun _ => True) stays trivial

end OffLineProgrammer.UsbDisk
