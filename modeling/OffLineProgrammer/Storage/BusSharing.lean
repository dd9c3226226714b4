import OffLineProgrammer.Storage.BusPrograms

/-!
# Two threads on one SPI bus

FatFs in the main thread and the USB thread reach the flash through the same chip
select, the same DMA channels and the same completion object, and nothing locks
them: while `DMA1_Channel_Write` waits the other thread runs. Their transactions
stay apart exactly in the runs in which every operation begins while the other
thread is not inside one.
-/

namespace OffLineProgrammer.Storage.Shared
set_option autoImplicit false
open OffLineProgrammer.Lib

/-- The thread that runs FatFs and the thread that serves USB. -/
inductive Thread where
  | main
  | usb
  deriving DecidableEq

/-- The flash operations: those of diskio.c, with `dev.buff` where it is used, and
those of `udisk_fun`. -/
inductive Operation where
  | diskRead (buff : List Byte) (sector count : Nat)
  | diskWrite (buff : List Byte) (sector count : Nat) (dev : List Byte)
  | udiskEraseSector (address : Nat)
  | udiskReadData (addr : Nat) (data : List Byte)
  | udiskWriteData (addr : Nat) (data : List Byte)

/-- The value of an operation is dropped. -/
def discard {α : Type} (x : Program α) : Program Unit := do
  let _ ← x
  pure ()

/-- What a thread does for an operation; the operations of the other thread are none of its own. -/
def program (polls : Nat) : Thread → Operation → Program Unit
  | .main, .diskRead buff sector count => discard (diskRead buff sector count)
  | .main, .diskWrite buff sector count dev => discard (diskWrite polls buff sector count dev)
  | .usb, .udiskEraseSector address => flashEraseSector polls address
  | .usb, .udiskReadData addr data => discard (flashReadData addr data)
  | .usb, .udiskWriteData addr data => discard (flashWriteNoCheck polls addr data)
  | _, _ => .spin

/-- The two threads and the bus. -/
abbrev Sharing := Threads.State Thread (List Byte)

/-- A call of an operation, an action of the thread that runs, the end of a DMA
transfer, which lets the first thread that waits on the completion object go on, or a
switch while the thread that ran waits in `DMA1_Channel_Write` or uses no flash. -/
abbrev Happens := Threads.Event Thread (List Byte) Operation

/-- One step of the two threads. -/
def sharingStep (polls : Nat) : Happens → Sharing → Option Sharing := Threads.step (program polls)

/-- The main thread runs, and no thread has used the flash. -/
def sharingInit : Sharing := Threads.start .main

theorem moves_discard {α : Type} {x : Program α} (moves : x.Moves false false) : (discard x).Moves false false :=
  moves.bind fun _ => .ret () false

/-- Every operation transfers between chip select low and chip select high only. -/
theorem moves_program (polls : Nat) (t : Thread) (o : Operation) : (program polls t o).Moves false false := by
  cases t with
  | main =>
    cases o with
    | diskRead buff sector count => exact moves_discard (moves_diskRead buff sector count)
    | diskWrite buff sector count dev => exact moves_discard (moves_diskWrite polls buff sector count dev)
    | udiskEraseSector address => exact .spin false false
    | udiskReadData addr data => exact .spin false false
    | udiskWriteData addr data => exact .spin false false
  | usb =>
    cases o with
    | diskRead buff sector count => exact .spin false false
    | diskWrite buff sector count dev => exact .spin false false
    | udiskEraseSector address => exact moves_eraseSector polls address
    | udiskReadData addr data => exact moves_discard (moves_readData addr data)
    | udiskWriteData addr data => exact moves_discard (moves_writeNoCheck polls addr data)

/-- **The transactions of the two threads stay apart**, in the bus and in
`DMA1_Channel_Write`, if and only if every operation begins while the other thread is
not inside one. -/
theorem transactions_iff {polls : Nat} {es : List Happens} {s : Sharing}
    (run : Run.run (sharingStep polls) es sharingInit = some s) :
    Threads.Clean s.trace ↔ Run.Meets (sharingStep polls) Threads.Alone es sharingInit :=
  Threads.clean_iff (moves_program polls) run

/-- One sector read by FatFs, up to its first transfer. -/
def readEvents : List Happens := [.call (.diskRead (List.replicate 4096 0) 0 1), .act]

theorem transactions_read : ∃ s, Run.run (sharingStep 1) readEvents sharingInit = some s ∧
    (Threads.Clean s.trace ↔ Run.Meets (sharingStep 1) Threads.Alone readEvents sharingInit) :=
  ⟨_, rfl, transactions_iff rfl⟩

/-- The host reads a packet while the main thread waits for the first transfer of a sector. -/
def mixedEvents : List Happens := readEvents ++ [.switch .usb, .call (.udiskReadData 0 (List.replicate 64 0)), .act]

/-- The USB thread pulls the chip select low inside the transaction of the main thread and
enters `DMA1_Channel_Write` while that waits. -/
theorem transactions_mixed : ∃ s, Run.run (sharingStep 1) mixedEvents sharingInit = some s ∧
    ¬ Threads.Contiguous s.trace ∧ ¬ Threads.Exclusive s.trace := by
  refine ⟨_, rfl, fun contiguous => ?_, fun exclusive => ?_⟩
  · have same := contiguous [(.usb, .enter)] .usb .select [(.main, .enter)] .main [] rfl (by decide)
    cases same
  · have left := exclusive [] .usb [(.usb, .select)] .main [(.main, .select)] rfl
    revert left
    decide

end OffLineProgrammer.Storage.Shared
