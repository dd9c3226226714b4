import OffLineProgrammer.Target.ResetProgram

/-!
# Calls of the algorithm over SWD, from swd_host.c

`swd_flash_syscall_exec` loads the registers of the core, starts it and waits until it
halts at the breakpoint. Every wait is a loop of reads of `DHCSR` with a limit.
-/

namespace OffLineProgrammer.Target
set_option autoImplicit false
open OffLineProgrammer.Lib

/-! ## Registers of the core, from debug_cm.h and swd_host.c -/

abbrev DCRSR : Word := 0xE000EDF4
abbrev DCRDR : Word := 0xE000EDF8
abbrev DHCSR : Word := 0xE000EDF0
abbrev REGWnR : Word := 0x10000
abbrev S_REGRDY : Word := 0x00010000
abbrev C_HALT : Word := 2
abbrev C_MASKINTS : Word := 8
/-- `STICKYERR | WDATAERR` -/
abbrev stickyErrors : Word := 0xA0

abbrev MAX_TIMEOUT : Nat := 1000000

/-- `DEBUG_STATE` -/
structure DebugState where
  r : Vector Word 16
  xpsr : Word

/-- `flash_algo_return_t` -/
inductive FlashAlgoReturn where
  | bool
  | pointer

section Exec

variable (w : Wire)

/-- Reads of `DHCSR` until one of these bits is set, with the rounds left. -/
def pollDhcsr (bits : Word) : Nat → Op Probe Unit
  | 0 => Op.fail
  | rounds + 1 => do
    let val ← swdReadWord w DHCSR
    if val &&& bits ≠ 0 then pure () else pollDhcsr bits rounds

/-- `swd_read_core_register` -/
def swdReadCoreRegister (n : Word) : Op Probe Word := do
  swdWriteWord w DCRSR n
  pollDhcsr w S_REGRDY 100
  swdReadWord w DCRDR

/-- `swd_write_core_register` -/
def swdWriteCoreRegister (n val : Word) : Op Probe Unit := do
  swdWriteWord w DCRDR val
  swdWriteWord w DCRSR (n ||| REGWnR)
  pollDhcsr w S_REGRDY 100

/-- The loops of `swd_write_debug_state`. -/
def writeCoreRegisters (state : DebugState) : List (Fin 16) → Op Probe Unit
  | [] => pure ()
  | i :: rest => do
    swdWriteCoreRegister w (BitVec.ofNat 32 i) (state.r.get i)
    writeCoreRegisters state rest

/-- `swd_write_debug_state` -/
def swdWriteDebugState (state : DebugState) : Op Probe Unit := do
  swdWriteDp w DP_SELECT 0
  writeCoreRegisters w state [0, 1, 2, 3]
  swdWriteCoreRegister w 9 (state.r.get 9)
  writeCoreRegisters w state [13, 14, 15]
  swdWriteCoreRegister w 16 state.xpsr
  swdWriteWord w DBG_HCSR (DBGKEY ||| C_DEBUGEN ||| C_MASKINTS ||| C_HALT)
  swdWriteWord w DBG_HCSR (DBGKEY ||| C_DEBUGEN ||| C_MASKINTS)
  let status ← swdReadDp w DP_CTRL_STAT
  if status &&& stickyErrors ≠ 0 then Op.fail else pure ()

/-- `swd_wait_until_halted` -/
def swdWaitUntilHalted : Op Probe Unit := pollDhcsr w S_HALT MAX_TIMEOUT

/-- `swd_flash_syscall_exec` -/
def swdFlashSyscallExec (sysCallParam : ProgramSyscall) (entry arg1 arg2 arg3 arg4 : Word)
    (returnType : FlashAlgoReturn) : Op Probe Unit := do
  let state : DebugState := {
    r := #v[arg1, arg2, arg3, arg4, 0, 0, 0, 0, 0, sysCallParam.staticBase, 0, 0, 0, sysCallParam.stackPointer,
      sysCallParam.breakpoint, entry]
    xpsr := 0x01000000 }
  swdWriteDebugState w state
  swdWaitUntilHalted w
  let r0 ← swdReadCoreRegister w 0
  swdWriteWord w DBG_HCSR (DBGKEY ||| C_DEBUGEN ||| C_HALT)
  match returnType with
  | .pointer => if r0 ≠ arg1 + arg2 then Op.fail else pure ()
  | .bool => if r0 ≠ 0 then Op.fail else pure ()

end Exec

end OffLineProgrammer.Target
