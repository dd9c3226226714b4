import OffLineProgrammer.Lib.BlockStore
import OffLineProgrammer.Lib.Run
import OffLineProgrammer.UsbDisk.Callbacks

/-!
# The host's side of a block transfer

The disk with its callbacks, driven by a host: an OUT packet is handed to
`UDISK_Out_EP_Deal`, and a packet that EP4 has ready is read off the wire and
then reported to `UDISK_In_EP_Deal`. `Io` is a well-formed read or write with
its script of events, and `Io.write?` and `Answers` say what the disk is for: a
store of blocks of 4096 bytes.
-/

namespace OffLineProgrammer.UsbDisk
set_option autoImplicit false
open OffLineProgrammer.Lib OffLineProgrammer.Storage Udisk

/-! ## The machine -/

structure Host where
  disk : Udisk
  env : Env
  /-- The packets the host has read. -/
  wire : List (List Byte)

/-- An OUT packet, or the host reading the packet of EP4. -/
inductive HostEvent where
  | out (pbuf : Vector Byte packSize) (packlen : BitVec 16)
  | readIn

abbrev EP_TX_NAK : BitVec 16 := 0x0020

namespace Host

/-- A handler and the callbacks it makes. -/
def deal (r : Udisk × List Action) (env : Env) (wire : List (List Byte)) : Option Host := do
  let env ← env.calls 1 r.2
  some ⟨r.1, env, wire⟩

/-- The packet EP4 sends. -/
def packet4 (env : Env) : List Byte := env.ep4Buffer.read 0 env.ep4Count.toNat

/-- EP4 has a packet to send. -/
def Armed (env : Env) : Prop := env.epReg 4 &&& EPTX_STAT = EP_TX_VALID

instance (env : Env) : Decidable (Armed env) := by unfold Armed; infer_instance

/-- The peripheral answers NAK once the packet is sent. -/
def sent (env : Env) : Env :=
  { env with epReg := fun e => if e = 4 then withTx (env.epReg 4) EP_TX_NAK else env.epReg e }

def step (f : UdiskFunction) : HostEvent → Host → Option Host
  | .out pbuf packlen, h => deal (outEpDeal f pbuf packlen h.disk) h.env h.wire
  | .readIn, h =>
    if Armed h.env then deal (inEpDeal f h.disk) (sent h.env) (h.wire ++ [packet4 h.env]) else none

/-- The cells of the flash. -/
def flash (h : Host) : Mem := h.env.bus.chip.mem

/-- After `Udisk_Init`, with the chip holding `m` and EP4 as `USBD_Reset` leaves it. -/
structure Initial (m : Mem) (h : Host) : Prop where
  disk : h.disk = udiskInit
  bus : h.env.bus.Ready m
  downBuffer : h.env.downBuffer.length = 4096
  packBuffer : h.env.packBuffer.length = 64

end Host

/-! ## Well-formed reads and writes -/

/-- A command block with the data packets that follow it. -/
structure Io where
  cbw : Vector Byte packSize
  payload : List (Vector Byte packSize)
  signed : (blockOf cbw).HasSignature
  nonempty : 0 < (blockOf cbw).sectors
  fits : (blockOf cbw).first + (blockOf cbw).sectors ≤ 4096
  length : (blockOf cbw).dataLen.toNat = 4096 * (blockOf cbw).sectors
  direction :
    ((blockOf cbw).IsRead ∧ (blockOf cbw).flag &&& 0x80 ≠ 0 ∧ payload = []) ∨
    ((blockOf cbw).IsWrite ∧ (blockOf cbw).flag &&& 0x80 = 0 ∧ payload.length = 64 * (blockOf cbw).sectors)

namespace Io

def first (c : Io) : Nat := (blockOf c.cbw).first
def sectors (c : Io) : Nat := (blockOf c.cbw).sectors
def IsRead (c : Io) : Prop := (blockOf c.cbw).IsRead

instance (c : Io) : Decidable c.IsRead := by unfold IsRead; infer_instance

/-- The payload as bytes. -/
def bytes (c : Io) : List Byte := c.payload.flatMap fun p => p.toList

/-- What the host does: the block, the data packets, and the reads of the data
and of the CSW. -/
def script (c : Io) : List HostEvent :=
  .out c.cbw 0x1F ::
    if c.IsRead then List.replicate (64 * c.sectors + 1) .readIn
    else c.payload.map (fun p => .out p 0x40) ++ [.readIn]

end Io

/-! ## The block store -/

/-- Sector `s` of a memory. -/
def sector (m : Mem) (s : Nat) : List Byte := m.read (4096 * s) 4096

/-- The sectors of a payload. -/
def sectorsOf (bytes : List Byte) (n : Nat) : List (List Byte) :=
  (List.range n).map fun i => (bytes.drop (4096 * i)).take 4096

/-- The write of a command to the store, if it is one. -/
def Io.write? (c : Io) : Option (BlockStore.Write (List Byte)) :=
  if c.IsRead then none else some ⟨c.first, sectorsOf c.bytes c.sectors⟩

/-- The writes of a list of commands. -/
def writesOf (cs : List Io) : List (BlockStore.Write (List Byte)) := cs.filterMap Io.write?

/-- The CSW of a command that succeeded. -/
def goodCsw (c : Io) : List Byte :=
  [0x55, 0x53, 0x42, 0x53] ++ (blockOf c.cbw).tag.toList ++ [0x00, 0x00, 0x00, 0x00, 0x00]

/-- The packets that answer a command on the store: for a read `64 * n` data
packets that hold its sectors in order, and then the CSW. -/
def Answers (store : Nat → List Byte) (c : Io) (reply : List (List Byte)) : Prop :=
  (c.IsRead → ∃ data, reply = data ++ [goodCsw c] ∧ data.length = 64 * c.sectors ∧ (∀ p ∈ data, p.length = 64) ∧
    data.flatten = (List.range c.sectors).flatMap fun i => store (c.first + i)) ∧
  (¬ c.IsRead → reply = [goodCsw c])

end OffLineProgrammer.UsbDisk
