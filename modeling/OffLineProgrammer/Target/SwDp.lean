import OffLineProgrammer.Lib.Serial
import OffLineProgrammer.Target.SwdHost

/-!
# SWD on the two lines, from SW_DP.c

The probe drives SWCLK, and SWDIO while its output is enabled; whatever else is on
the lines sees the level of SWDIO at each rising edge of SWCLK and may drive SWDIO
itself. `swdTransfer` is the code of `SWD_Transfer` for any such peer.
-/

namespace OffLineProgrammer.Target
set_option autoImplicit false
open OffLineProgrammer.Lib

/-! ## The lines -/

/-- What is at the other end of the lines: the level it drives SWDIO to, if any, and
what a rising edge of SWCLK with a level of SWDIO does to it. -/
structure Peer (τ : Type) where
  drives : τ → Option Bool
  edge : Bool → τ → τ

/-- The pins of the probe with the peer. `clash` is set when both drive SWDIO. -/
structure Pins (τ : Type) where
  out : Bool
  enabled : Bool
  peer : τ
  clash : Bool

section Lines

variable {τ : Type} (P : Peer τ)

/-- `PIN_SWDIO_IN`; the pin is pulled up. -/
def pinSwdioIn (p : Pins τ) : Bool := if p.enabled then p.out else (P.drives p.peer).getD true

/-- `PIN_SWDIO_OUT` -/
def pinSwdioOut (bit : Word) (p : Pins τ) : Pins τ := { p with out := bit.getLsbD 0 }

/-- `PIN_SWDIO_OUT_ENABLE`; the output is low. -/
def pinSwdioOutEnable (p : Pins τ) : Pins τ :=
  { p with enabled := true, out := false, clash := p.clash || (P.drives p.peer).isSome }

/-- `PIN_SWDIO_OUT_DISABLE` -/
def pinSwdioOutDisable (p : Pins τ) : Pins τ := { p with enabled := false, out := true }

/-- `SW_CLOCK_CYCLE` -/
def swClockCycle (p : Pins τ) : Pins τ :=
  { p with
    peer := P.edge (pinSwdioIn P p) p.peer
    clash := p.clash || (p.enabled && (P.drives p.peer).isSome) }

/-- `SW_WRITE_BIT` -/
def swWriteBit (bit : Word) (p : Pins τ) : Pins τ := swClockCycle P (pinSwdioOut bit p)

/-- `SW_READ_BIT` -/
def swReadBit (p : Pins τ) : Word × Pins τ := ((BitVec.ofBool (pinSwdioIn P p)).setWidth 32, swClockCycle P p)

/-- `for (n = ..; n; n--) { SW_CLOCK_CYCLE(); }` -/
def swClockCycles : Nat → Pins τ → Pins τ
  | 0, p => p
  | n + 1, p => swClockCycles n (swClockCycle P p)

end Lines

/-! ## Sequences -/

section Sequences

variable {τ : Type} (P : Peer τ)

/-- The loop of `SWJ_Sequence`, with `val` and `n` as they are before the next bit. -/
def swjBits : Nat → List Byte → Byte → Nat → Pins τ → Pins τ
  | 0, _, _, _, p => p
  | count + 1, data, _, 0, p =>
    let val := data.headD 0
    swjBits count data.tail (val >>> 1) 7 (swWriteBit P (val.setWidth 32) p)
  | count + 1, data, val, n + 1, p => swjBits count data (val >>> 1) n (swWriteBit P (val.setWidth 32) p)

/-- `SWJ_Sequence` -/
def swjSequence (count : Nat) (data : List Byte) (p : Pins τ) : Pins τ := swjBits P count data 0 0 p

end Sequences

/-! ## Transfers, from DAP.h and SW_DP.c -/

abbrev DAP_TRANSFER_RnW : Word := 2
abbrev DAP_TRANSFER_OK : Word := 1
abbrev DAP_TRANSFER_WAIT : Word := 2
abbrev DAP_TRANSFER_FAULT : Word := 4
abbrev DAP_TRANSFER_ERROR : Word := 8

/-- The fields of `DAP_Data` that a transfer reads. -/
structure DapData where
  turnaround : BitVec 8
  dataPhase : Bool
  idleCycles : BitVec 8

/-- `DAP_Setup` -/
def dapSetup : DapData := { turnaround := 1#8, dataPhase := false, idleCycles := 0#8 }

section Transfer

variable {τ : Type} (P : Peer τ)

/-- The bits of a packet request. -/
def packetRequest (request : Word) : List Word :=
  let parity := 0#32 + request >>> 0 + request >>> 1 + request >>> 2 + request >>> 3
  [1#32, request >>> 0, request >>> 1, request >>> 2, request >>> 3, parity, 0#32, 1#32]

def writeBits (bits : List Word) (p : Pins τ) : Pins τ := bits.foldl (fun p bit => swWriteBit P bit p) p

/-- `Acknowledge response` -/
def readAck (p : Pins τ) : Word × Pins τ :=
  let (bit0, p) := swReadBit P p
  let (bit1, p) := swReadBit P p
  let (bit2, p) := swReadBit P p
  (bit0 <<< 0 ||| bit1 <<< 1 ||| bit2 <<< 2, p)

/-- The loop of `Read data`: `val` and `parity` after `n` more bits. -/
def readWord : Nat → Word → Word → Pins τ → (Word × Word) × Pins τ
  | 0, val, parity, p => ((val, parity), p)
  | n + 1, val, parity, p =>
    let (bit, p) := swReadBit P p
    readWord n (val >>> 1 ||| bit <<< 31) (parity + bit) p

/-- The loop of `Write data`: the parity after `n` more bits. -/
def writeWord : Nat → Word → Word → Pins τ → Word × Pins τ
  | 0, _, parity, p => (parity, p)
  | n + 1, val, parity, p => writeWord n (val >>> 1) (parity + val) (swWriteBit P val p)

/-- `Idle cycles` and the end of a transfer that was acknowledged with OK. -/
def idleCycles (c : DapData) (p : Pins τ) : Pins τ :=
  let p := if c.idleCycles ≠ 0 then swClockCycles P c.idleCycles.toNat (pinSwdioOut 0 p) else p
  pinSwdioOut 1 p

/-- `SWD_Transfer`, fast or slow: the answer, and what `*data` holds then, of which a
caller that passes `NULL` sees nothing. -/
def swdTransfer (c : DapData) (request data : Word) (p : Pins τ) : Word × Word × Pins τ :=
  let turn := swClockCycles P c.turnaround.toNat
  let p := turn (pinSwdioOutDisable (writeBits P (packetRequest request) p))
  let (ack, p) := readAck P p
  if ack = DAP_TRANSFER_OK then
    if request &&& DAP_TRANSFER_RnW ≠ 0 then
      let ((val, parity), p) := readWord P 32 0 0 p
      let (bit, p) := swReadBit P p
      let ack := if (parity ^^^ bit) &&& 1 ≠ 0 then DAP_TRANSFER_ERROR else ack
      (ack, val, idleCycles P c (pinSwdioOutEnable P (turn p)))
    else
      let (parity, p) := writeWord P 32 data 0 (pinSwdioOutEnable P (turn p))
      (ack, data, idleCycles P c (swWriteBit P parity p))
  else if ack = DAP_TRANSFER_WAIT ∨ ack = DAP_TRANSFER_FAULT then
    let p := if c.dataPhase ∧ request &&& DAP_TRANSFER_RnW ≠ 0 then swClockCycles P 33 p else p
    let p := pinSwdioOutEnable P (turn p)
    let p := if c.dataPhase ∧ request &&& DAP_TRANSFER_RnW = 0 then swClockCycles P 33 (pinSwdioOut 0 p) else p
    (ack, data, pinSwdioOut 1 p)
  else
    (ack, data, pinSwdioOut 1 (pinSwdioOutEnable P (swClockCycles P (c.turnaround.toNat + 33) p)))

end Transfer

end OffLineProgrammer.Target
