import OffLineProgrammer.Lib.Run
import Mathlib.Logic.Function.Basic

/-!
# DMA transfers and their completion

`DMA1_Channel_Write` starts two channels and waits on one completion object; the
interrupt of each channel sets its bit in `IrqCh`, and the one that makes `IrqCh`
equal to `UserCh` completes the object. The thread that calls it, the hardware and
the interrupts take their steps in any order (`dmaStep`).
-/

namespace OffLineProgrammer.Board
open Lib
set_option autoImplicit false

/-- The channels of DMA1. -/
inductive Channel where
  | channel1 | channel2 | channel3 | channel4 | channel5 | channel6 | channel7 | channel8
  deriving DecidableEq

/-- `DMA1_Channel1_INDEX` and its seven siblings. -/
def Channel.index : Channel → Nat
  | .channel1 => 0
  | .channel2 => 1
  | .channel3 => 2
  | .channel4 => 3
  | .channel5 => 4
  | .channel6 => 5
  | .channel7 => 6
  | .channel8 => 7

/-- The `Instance` fields of `ch32_dma_config`. -/
def ch32DmaConfig : List Channel :=
  [.channel1, .channel2, .channel3, .channel4, .channel5, .channel6, .channel7, .channel8]

/-- A transfer that has come to its end sets the channel's `TC` flag. -/
inductive Transfer where
  | off | running | complete
  deriving DecidableEq

/-- `DmaCH` with its completion object (`flag`, and whether the thread is on its
`suspended_list`) and what the hardware keeps of each channel. -/
structure Dma where
  userCh : BitVec 8
  irqCh : BitVec 8
  flag : Bool
  suspended : Bool
  itEnabled : Channel → Bool
  transfer : Channel → Transfer

/-! ## The interrupts -/

/-- `rt_completion_done`: a thread on the list is resumed. -/
def rtCompletionDone (d : Dma) : Dma := if d.flag then d else { d with flag := true, suspended := false }

/-- The body the eight handlers share. -/
def irqHandler (c : Channel) (index : Nat) (d : Dma) : Dma :=
  if d.transfer c = .complete then
    let d := { d with transfer := Function.update d.transfer c .off, irqCh := d.irqCh ||| 1#8 <<< index }
    if d.irqCh = d.userCh then rtCompletionDone d else d
  else d

def dma1Channel1IrqHandler : Dma → Dma := irqHandler .channel1 0
def dma1Channel2IrqHandler : Dma → Dma := irqHandler .channel2 1
def dma1Channel3IrqHandler : Dma → Dma := irqHandler .channel3 2
def dma1Channel4IrqHandler : Dma → Dma := irqHandler .channel4 3
def dma1Channel5IrqHandler : Dma → Dma := irqHandler .channel5 4
def dma1Channel6IrqHandler : Dma → Dma := irqHandler .channel6 5
def dma1Channel7IrqHandler : Dma → Dma := irqHandler .channel7 6
def dma1Channel8IrqHandler : Dma → Dma := irqHandler .channel8 7

/-- The handler the vector table holds for a channel. -/
def handlerOf : Channel → Dma → Dma
  | .channel1 => dma1Channel1IrqHandler
  | .channel2 => dma1Channel2IrqHandler
  | .channel3 => dma1Channel3IrqHandler
  | .channel4 => dma1Channel4IrqHandler
  | .channel5 => dma1Channel5IrqHandler
  | .channel6 => dma1Channel6IrqHandler
  | .channel7 => dma1Channel7IrqHandler
  | .channel8 => dma1Channel8IrqHandler

/-! ## The call -/

/-- The statements of `DMA1_Channel_Write`, each one step of the thread. `awake` is
the rest of `rt_completion_wait` for a thread that has been suspended in it. -/
inductive Stmt where
  | clearUserCh
  | clearIrqCh
  | itConfig (c : Channel)
  | orUserCh (i : Nat)
  | cmd (c : Option Channel)
  | wait
  | awake
  | ret
  deriving DecidableEq

/-- The loop over `ch32_dma_config`, for one of the two arguments. -/
def channelIndex (instance_ : Option Channel) : Nat :=
  ch32DmaConfig.zipIdx.foldl (fun i (c, k) => if some c = instance_ then k else i) 0

/-- `DMA1_Channel_Write(Tx, Rx)`; `none` is `NULL`. -/
def dma1ChannelWrite (tx rx : Option Channel) : List Stmt :=
  [Stmt.clearUserCh, .clearIrqCh] ++ tx.toList.map Stmt.itConfig ++ rx.toList.map Stmt.itConfig ++
  (if tx ≠ none then [Stmt.orUserCh (channelIndex tx)] else []) ++
  (if rx ≠ none then [Stmt.orUserCh (channelIndex rx)] else []) ++
  (if tx ≠ none then [Stmt.cmd rx] else []) ++ (if rx ≠ none then [Stmt.cmd tx] else []) ++
  [Stmt.wait, .clearIrqCh, .clearUserCh, .ret]

/-- One statement: what it leaves and the statements that come before the rest.
`DMA_Cmd(NULL, …)` writes through a null pointer, and the assertion of
`rt_completion_wait` that its list is empty ends the program. -/
def Stmt.exec (d : Dma) : Stmt → Option (Dma × List Stmt)
  | .clearUserCh => some ({ d with userCh := 0#8 }, [])
  | .clearIrqCh => some ({ d with irqCh := 0#8 }, [])
  | .itConfig c => some ({ d with itEnabled := Function.update d.itEnabled c true }, [])
  | .orUserCh i => some ({ d with userCh := d.userCh ||| 1#8 <<< i }, [])
  | .cmd none => none
  | .cmd (some c) => some ({ d with transfer := Function.update d.transfer c .running }, [])
  | .wait =>
    if d.flag then some ({ d with flag := false }, [])
    else if d.suspended then none
    else some ({ d with suspended := true }, [.awake])
  | .awake => some ({ d with flag := false }, [])
  | .ret => some (d, [])

/-! ## The system -/

/-- What the log shows of a run. -/
inductive Mark where
  | enter (tx rx : Channel)
  | irq (c : Channel)
  | leave
  deriving DecidableEq

/-- The state of the driver, what the thread's call has still to do, and the log. -/
structure DmaSystem where
  dma : Dma
  todo : List Stmt
  log : List Mark

/-- The thread calls with two channels or goes on in its call, a transfer comes to
its end, or an interrupt is taken. -/
inductive DmaEvent where
  | call (tx rx : Channel) (distinct : tx ≠ rx)
  | thread
  | complete (c : Channel)
  | irq (c : Channel)

/-- A thread on the completion's list does not run; an interrupt is raised by a
finished transfer whose interrupt is enabled. -/
def dmaStep : DmaEvent → DmaSystem → Option DmaSystem
  | .call tx rx _, s =>
    match s.todo with
    | [] => some { s with todo := dma1ChannelWrite (some tx) (some rx), log := s.log ++ [.enter tx rx] }
    | _ :: _ => none
  | .thread, s =>
    match s.todo with
    | [] => none
    | stmt :: rest =>
      if s.dma.suspended then none
      else (stmt.exec s.dma).map fun (d, more) =>
        { dma := d, todo := more ++ rest, log := s.log ++ if stmt = .ret then [.leave] else [] }
  | .complete c, s =>
    if s.dma.transfer c = .running then
      some { s with dma := { s.dma with transfer := Function.update s.dma.transfer c .complete } }
    else none
  | .irq c, s =>
    if s.dma.transfer c = .complete ∧ s.dma.itEnabled c then
      some { s with dma := handlerOf c s.dma, log := s.log ++ [.irq c] }
    else none

/-- After `rt_hw_dma_init`, with no call made. -/
def dmaInit : DmaSystem where
  dma := { userCh := 0#8, irqCh := 0#8, flag := false, suspended := false, itEnabled := fun _ => false, transfer := fun _ => .off }
  todo := []
  log := []

end OffLineProgrammer.Board
