import OffLineProgrammer.Target.SwDp

/-!
# A debug port on the two lines

What SWD says a debug port does: it takes in a packet request bit by bit, answers it
after the turnaround, and says or hears the data with their parity. A port that
cannot make sense of a request, or does not answer, is deaf until the line is reset
by 50 high bits; one that still speaks JTAG waits for the switching sequence after
them. What the port does with a request is a parameter (`Port`), and so is the noise
on the data it says and hears.
-/

namespace OffLineProgrammer.Target
set_option autoImplicit false
open OffLineProgrammer.Lib Serial

/-- APnDP, RnW, A2 and A3, the low bit first. -/
abbrev Header := BitVec 4

def Header.isRead (h : Header) : Bool := h.getLsbD 1

/-- What is behind the lines: how a request is answered, and what becomes of it. -/
structure Port (δ : Type) where
  answer : δ → Header → Ack
  /-- The word a read returns. -/
  fetch : δ → Header → Word
  /-- After a read. -/
  taken : δ → Header → δ
  /-- After a write. -/
  store : δ → Header → Word → δ
  /-- After a write whose parity is wrong. -/
  spoiled : δ → Header → δ
  /-- After an answer of WAIT or FAULT. -/
  refused : δ → Header → δ
  /-- The data bits, and whether the parity, that arrive inverted. -/
  noise : δ → Header → Word × Bool

/-- An odd number of bits arrives inverted. -/
def Odd (n : Word × Bool) : Bool := parity (bitsOf n.1) ^^ n.2

/-- What the port does in one clock cycle of its answer. -/
inductive Slot where
  | free
  | say (b : Bool)
  | hear
  deriving DecidableEq

/-- Where the port stands. `reply` holds the slots of the answer still to come, what
has been heard so far, and what becomes of the port with all of it. -/
inductive Phase (δ : Type) where
  | idle
  | header (bits : List Bool)
  | reply (slot : Slot) (slots : List Slot) (heard : List Bool) (after : List Bool → δ)
  | deaf
  | reset
  | jtag
  | select (bits : List Bool)

/-- The port with the number of high bits it has just seen. -/
structure Device (δ : Type) where
  port : δ
  phase : Phase δ
  ones : Nat

def Ack.bits : Ack → List Bool
  | .ok => [true, false, false]
  | .wait => [false, true, false]
  | .fault => [false, false, true]
  | .none => [true, true, true]

/-- The three bits of an answer as the probe reads them. -/
def Ack.word : Ack → Word
  | .ok => DAP_TRANSFER_OK
  | .wait => DAP_TRANSFER_WAIT
  | .fault => DAP_TRANSFER_FAULT
  | .none => 7

/-- `0xE79E` -/
def switchBits : List Bool := bitsOf 0xE79E#16

section Device

variable {δ : Type} (q : Port δ) (c : DapData)

/-- The slots of an answer that are still to come; with the last one it is over. -/
def answering (d : δ) (heard : List Bool) (after : List Bool → δ) : List Slot → Device δ
  | [] => ⟨after heard, .idle, 0⟩
  | slot :: slots => ⟨d, .reply slot slots heard after, 0⟩

def free (n : Nat) : List Slot := List.replicate n .free

def hear (n : Nat) : List Slot := List.replicate n .hear

/-- A word with its parity, as it arrives. -/
def noisy (n : Word × Bool) (bits : List Bool) : List Bool := invert (bitsOf n.1 ++ [n.2]) bits

/-- The slots of an answer. -/
def replySlots (d : δ) (h : Header) (a : Ack) : List Slot :=
  free c.turnaround.toNat ++ a.bits.map .say ++
    match a, h.isRead with
    | .ok, true => (noisy (q.noise d h) (bitsOf (q.fetch d h) ++ [parity (bitsOf (q.fetch d h))])).map .say ++ free c.turnaround.toNat
    | .ok, false => free c.turnaround.toNat ++ hear 33
    | _, true => free (if c.dataPhase then 33 else 0) ++ free c.turnaround.toNat
    | _, false => free c.turnaround.toNat ++ hear (if c.dataPhase then 33 else 0)

/-- What becomes of the port after an answer. -/
def replyAfter (d : δ) (h : Header) (a : Ack) (heard : List Bool) : δ :=
  match a, h.isRead with
  | .ok, true => q.taken d h
  | .ok, false =>
    let bits := noisy (q.noise d h) heard
    if parity bits then q.spoiled d h else q.store d h (collect (bits.take 32))
  | _, _ => q.refused d h

/-- The answer to a request, if there is one. -/
def answerWith (d : δ) (h : Header) (ones : Nat) : Ack → Device δ
  | .none => ⟨d, .deaf, ones⟩
  | a => answering d [] (replyAfter q d h a) (replySlots q c d h a)

/-- A packet request is complete. -/
def respond (d : δ) (ones : Nat) : List Bool → Device δ
  | [apndp, rnw, a2, a3, par, stop, park] =>
    let h : Header := BitVec.ofBoolListLE [apndp, rnw, a2, a3]
    if par = parity [apndp, rnw, a2, a3] ∧ stop = false ∧ park = true then answerWith q c d h ones (q.answer d h)
    else ⟨d, .deaf, ones⟩
  | _ => ⟨d, .deaf, ones⟩

/-- A bit outside an answer, with the number of high bits up to it. -/
def listen (x : Device δ) (l : Bool) (ones : Nat) : Device δ :=
  match x.phase with
  | .idle => ⟨x.port, if l then .header [] else .idle, ones⟩
  | .header bits => if bits.length < 6 then ⟨x.port, .header (bits ++ [l]), ones⟩ else respond q c x.port ones (bits ++ [l])
  | .reset => ⟨x.port, if l then .reset else .idle, ones⟩
  | .jtag => ⟨x.port, if l = false ∧ 50 ≤ x.ones then .select [l] else .jtag, ones⟩
  | .select bits =>
    ⟨x.port, if bits.length < 15 then .select (bits ++ [l]) else if bits ++ [l] = switchBits then .deaf else .jtag, ones⟩
  | phase => ⟨x.port, phase, ones⟩

/-- The port speaks SWD and is not in an answer. -/
def Device.hasLine (x : Device δ) : Bool :=
  match x.phase with
  | .idle | .header _ | .deaf | .reset => true
  | _ => false

/-- A rising edge of SWCLK. -/
def Device.edge (l : Bool) (x : Device δ) : Device δ :=
  match x.phase with
  | .reply slot slots heard after => answering x.port (if slot = .hear then heard ++ [l] else heard) after slots
  | _ =>
    let ones := if l then x.ones + 1 else 0
    if x.hasLine ∧ 50 ≤ ones then ⟨x.port, .reset, ones⟩ else listen q c x l ones

def Device.drives (x : Device δ) : Option Bool :=
  match x.phase with
  | .reply (.say b) _ _ _ => some b
  | _ => none

/-- The port as the peer of the probe. -/
def wire : Peer (Device δ) where
  drives := Device.drives
  edge := Device.edge q c

end Device

/-! ## Between two transfers -/

section Rest

variable {δ : Type}

/-- The probe drives the line and the port waits for a request. -/
def atRest (out : Bool) (d : δ) : Pins (Device δ) := ⟨out, true, ⟨d, .idle, 0⟩, false⟩

/-- The port does not answer any more. -/
def deafened (out : Bool) (ones : Nat) (d : δ) : Pins (Device δ) := ⟨out, true, ⟨d, .deaf, ones⟩, false⟩

/-- What a transfer is to the port: the answer, the data it leaves with the probe, and
what becomes of the port. -/
def Port.transfer (q : Port δ) (h : Header) (data : Word) (d : δ) : Word × Word × δ :=
  let n := q.noise d h
  match q.answer d h, h.isRead with
  | .ok, true => (if Odd n then DAP_TRANSFER_ERROR else DAP_TRANSFER_OK, n.1 ^^^ q.fetch d h, q.taken d h)
  | .ok, false => (DAP_TRANSFER_OK, data, if Odd n then q.spoiled d h else q.store d h (n.1 ^^^ data))
  | .none, _ => (Ack.word .none, data, d)
  | a, _ => (a.word, data, q.refused d h)

/-- A transfer with the lines after it: a port that does not answer is deaf then. -/
def Port.exchange (q : Port δ) (c : DapData) (request data : Word) (d : δ) : Word × Word × Pins (Device δ) :=
  let r := q.transfer (request.setWidth 4) data d
  (r.1, r.2.1, if q.answer d (request.setWidth 4) = .none then deafened true (2 * c.turnaround.toNat + 37) r.2.2
    else atRest true r.2.2)

end Rest

end OffLineProgrammer.Target
