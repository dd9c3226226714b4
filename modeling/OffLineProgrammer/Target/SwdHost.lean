import OffLineProgrammer.Lib.Op
import OffLineProgrammer.Target.Swd

/-!
# Transfers over SWD, from swd_host.c

The probe reaches the memory of the target through the access port: CSW selects
the size of an access, TAR its address, and an access of DRW moves TAR on. The
functions of `swd_host.c` keep SELECT and CSW in `dap_state` and do not write
again what they believe to be there.
-/

namespace OffLineProgrammer.Target
set_option autoImplicit false
open OffLineProgrammer.Lib

/-! ## Registers, from DAP.h and debug_cm.h -/

abbrev DP_ABORT : Word := 0x00
abbrev DP_CTRL_STAT : Word := 0x04
abbrev DP_SELECT : Word := 0x08
abbrev DP_RDBUFF : Word := 0x0C

abbrev AP_CSW : Word := 0x00
abbrev AP_TAR : Word := 0x04
abbrev AP_DRW : Word := 0x0C
abbrev APBANKSEL : Word := 0xF0

/-- `CSW_RESERVED | CSW_MSTRDBG | CSW_HPROT | CSW_DBGSTAT | CSW_SADDRINC` -/
abbrev CSW_VALUE : Word := 0x23000050
abbrev CSW_SIZE8 : Word := 0
abbrev CSW_SIZE32 : Word := 2
abbrev CSW_SADDRINC : Word := 0x10

abbrev TARGET_AUTO_INCREMENT_PAGE_SIZE : Nat := 0x200
abbrev MAX_SWD_RETRY : Nat := 100

/-! ## The target -/

/-- The answer to a transfer. -/
inductive Ack where
  | ok
  | wait
  | fault
  | none
  deriving DecidableEq

/-- A transfer, with the address of the register and what is written. -/
inductive Request where
  | dpRead (adr : Word)
  | dpWrite (adr val : Word)
  | apRead (adr : Word)
  | apWrite (adr val : Word)
  deriving DecidableEq

/-- What a read has fetched: some bytes, in the lanes from `lane` on. -/
structure Posted where
  lane : Nat
  bytes : List Byte
  fits : lane + bytes.length ≤ 4

/-- Nothing is known. -/
def Posted.nothing : Posted := ⟨0, [], by decide⟩

/-- SELECT of the debug port, CSW and TAR of the access port, what the last read of an
access port has fetched, and the memory behind it. -/
structure MemAp where
  select : Word
  csw : Word
  tar : Word
  rdbuff : Posted
  mem : WordMem

/-- The bytes of an access. -/
def accessSize (csw : Word) : Nat :=
  match (csw &&& 7).toNat with
  | 0 => 1
  | 1 => 2
  | 2 => 4
  | _ => 0

/-- An access is inside one word. -/
theorem access_fits (csw tar : Word) :
    (BitVec.ofNat 32 (tar.toNat / accessSize csw * accessSize csw)).toNat % 4 + accessSize csw ≤ 4 := by
  have sizes : accessSize csw = 0 ∨ accessSize csw = 1 ∨ accessSize csw = 2 ∨ accessSize csw = 4 := by
    unfold accessSize
    split <;> simp
  rw [BitVec.toNat_ofNat]
  rcases sizes with size | size | size | size <;> rw [size] <;> omega

/-- `int2array` -/
def int2array (data : Word) : List Byte :=
  [data.extractLsb' 0 8, data.extractLsb' 8 8, data.extractLsb' 16 8, data.extractLsb' 24 8]

namespace MemAp

/-- TAR after an access: only its ten low bits are sure to be counted. -/
def next (a : MemAp) : Word :=
  if a.csw &&& 0x30 = CSW_SADDRINC then
    BitVec.ofNat 32 (a.tar.toNat / 1024 * 1024 + (a.tar.toNat + accessSize a.csw) % 1024)
  else a.tar

/-- A write of DRW: each byte comes from the lane of its address. -/
def write (a : MemAp) (val : Word) : MemAp :=
  let size := accessSize a.csw
  let addr := BitVec.ofNat 32 (a.tar.toNat / size * size)
  { a with
    mem := a.mem.store addr (((int2array val).drop (addr.toNat % 4)).take size)
    tar := a.next }

/-- A read of DRW: the bytes are fetched in the lanes of their addresses. -/
def read (a : MemAp) : MemAp :=
  let size := accessSize a.csw
  let addr := BitVec.ofNat 32 (a.tar.toNat / size * size)
  { a with
    rdbuff := ⟨addr.toNat % 4, a.mem.read addr size, by rw [WordMem.length_read]; exact access_fits a.csw a.tar⟩
    tar := a.next }

/-- A read of another register: nothing is known of what it fetches. -/
def readOther (a : MemAp) : MemAp := { a with rdbuff := .nothing }

def setSelect (a : MemAp) (val : Word) : MemAp := { a with select := val }

def setCsw (a : MemAp) (val : Word) : MemAp := { a with csw := val }

def setTar (a : MemAp) (val : Word) : MemAp := { a with tar := val }

/-- A transfer that is answered with OK. -/
def transfer (a : MemAp) : Request → MemAp
  | .dpRead _ => a
  | .dpWrite adr val => if adr = DP_SELECT then a.setSelect val else a
  | .apRead adr => if a.select = 0 ∧ adr = AP_DRW then a.read else a.readOther
  | .apWrite adr val =>
    if a.select ≠ 0 then a
    else if adr = AP_CSW then a.setCsw val
    else if adr = AP_TAR then a.setTar val
    else if adr = AP_DRW then a.write val
    else a

section Transfer

variable {a : MemAp} {val : Word}

@[simp] theorem setSelect_select : (a.setSelect val).select = val := rfl
@[simp] theorem setSelect_csw : (a.setSelect val).csw = a.csw := rfl
@[simp] theorem setSelect_mem : (a.setSelect val).mem = a.mem := rfl
@[simp] theorem setCsw_select : (a.setCsw val).select = a.select := rfl
@[simp] theorem setCsw_csw : (a.setCsw val).csw = val := rfl
@[simp] theorem setCsw_mem : (a.setCsw val).mem = a.mem := rfl
@[simp] theorem setTar_select : (a.setTar val).select = a.select := rfl
@[simp] theorem setTar_csw : (a.setTar val).csw = a.csw := rfl
@[simp] theorem setTar_tar : (a.setTar val).tar = val := rfl
@[simp] theorem setTar_mem : (a.setTar val).mem = a.mem := rfl
@[simp] theorem write_select : (a.write val).select = a.select := rfl
@[simp] theorem write_csw : (a.write val).csw = a.csw := rfl
@[simp] theorem write_tar : (a.write val).tar = a.next := rfl

theorem transfer_select : a.transfer (.dpWrite DP_SELECT val) = a.setSelect val := rfl

theorem transfer_csw (selected : a.select = 0) : a.transfer (.apWrite AP_CSW val) = a.setCsw val := by
  rw [transfer, if_neg (not_not.mpr selected), if_pos rfl]

theorem transfer_tar (selected : a.select = 0) : a.transfer (.apWrite AP_TAR val) = a.setTar val := by
  rw [transfer, if_neg (not_not.mpr selected), if_neg (by decide), if_pos rfl]

theorem transfer_drw (selected : a.select = 0) : a.transfer (.apWrite AP_DRW val) = a.write val := by
  rw [transfer, if_neg (not_not.mpr selected), if_neg (by decide), if_neg (by decide), if_pos rfl]

end Transfer

end MemAp

/-- What comes back over the wire, by the number of the transfer: the answer, and the
data of a read, which may depend on the access port and on what is read. -/
structure Wire where
  ack : Nat → Ack
  reads : Nat → MemAp → Request → Word

/-! ## Transfers -/

/-- `DAP_STATE` -/
structure DapState where
  select : Word
  csw : Word

/-- The probe, the target, the number of transfers so far, and the requests that were
given up, each with the access port that did not carry it out. -/
structure Probe where
  dapState : DapState
  ap : MemAp
  transfers : Nat
  refused : List (MemAp × Request)

section Host

variable (w : Wire)

/-- `SWD_Transfer` -/
def Probe.transfer (r : Request) (p : Probe) : Probe :=
  { p with
    ap := if w.ack p.transfers = .ok then p.ap.transfer r else p.ap
    transfers := p.transfers + 1 }

/-- The request is not tried again. -/
def Probe.giveUp (r : Request) (p : Probe) : Probe := { p with refused := p.refused ++ [(p.ap, r)] }

/-- `swd_transfer_retry` with the retries left; any answer but OK is a failure. -/
def transferRetry (r : Request) : Nat → Op Probe Word
  | left, p =>
    match w.ack p.transfers, left with
    | .ok, _ => (.ok (w.reads p.transfers p.ap r), p.transfer w r)
    | .wait, left + 1 => transferRetry r left (p.transfer w r)
    | _, _ => (.fail, (p.transfer w r).giveUp r)

/-- `swd_transfer_retry` -/
def swdTransferRetry (r : Request) : Op Probe Word := transferRetry w r (MAX_SWD_RETRY - 1)

/-- `dap_state.select = val` -/
def setSelect (val : Word) : Op Probe Unit := Op.modify fun p => { p with dapState := ⟨val, p.dapState.csw⟩ }

/-- `dap_state.csw = val` -/
def setCsw (val : Word) : Op Probe Unit := Op.modify fun p => { p with dapState := ⟨p.dapState.select, val⟩ }

/-- `swd_read_dp` -/
def swdReadDp (adr : Word) : Op Probe Word := swdTransferRetry w (.dpRead (adr &&& 0x0C))

/-- `swd_write_dp` -/
def swdWriteDp (adr val : Word) : Op Probe Unit := do
  let p ← Op.get
  if adr = DP_SELECT ∧ p.dapState.select = val then pure ()
  else
    let _ ← swdTransferRetry w (.dpWrite (adr &&& 0x0C) val)
    if adr = DP_SELECT then setSelect val else pure ()

/-- `swd_get_apsel` -/
def swdGetApsel (adr : Word) : Word := adr &&& 0xFF000000

/-- `swd_read_ap`; the first read is a dummy. -/
def swdReadAp (adr : Word) : Op Probe Word := do
  swdWriteDp w DP_SELECT (swdGetApsel adr ||| (adr &&& APBANKSEL))
  Op.ignore (do
    let _ ← swdTransferRetry w (.apRead (adr &&& 0x0C))
    pure ())
  swdTransferRetry w (.apRead (adr &&& 0x0C))

/-- The transfers of `swd_write_ap`. -/
def writeApReg (adr val : Word) : Op Probe Unit := do
  let _ ← swdTransferRetry w (.apWrite (adr &&& 0x0C) val)
  let _ ← swdTransferRetry w (.dpRead DP_RDBUFF)
  pure ()

/-- `swd_write_ap` -/
def swdWriteAp (adr val : Word) : Op Probe Unit := do
  swdWriteDp w DP_SELECT (swdGetApsel adr ||| (adr &&& APBANKSEL))
  if adr = AP_CSW then
    let p ← Op.get
    if p.dapState.csw = val then pure ()
    else
      setCsw val
      writeApReg w adr val
  else writeApReg w adr val

/-! ## Memory -/

/-- The word at four bytes of a buffer. -/
def bufferWord (b₀ b₁ b₂ b₃ : Byte) : Word := b₃ ++ b₂ ++ b₁ ++ b₀

/-- The loop of `swd_write_block`. -/
def writeWords : List Byte → Op Probe Unit
  | b₀ :: b₁ :: b₂ :: b₃ :: data => do
    let _ ← swdTransferRetry w (.apWrite AP_DRW (bufferWord b₀ b₁ b₂ b₃))
    writeWords data
  | _ => pure ()

/-- `swd_write_block` -/
def swdWriteBlock (address : Word) (data : List Byte) : Op Probe Unit :=
  if data.length = 0 then Op.fail
  else do
    swdWriteAp w AP_CSW (CSW_VALUE ||| CSW_SIZE32)
    let _ ← swdTransferRetry w (.apWrite AP_TAR address)
    writeWords w data
    let _ ← swdTransferRetry w (.dpRead DP_RDBUFF)
    pure ()

/-- `swd_read_data` -/
def swdReadData (addr : Word) : Op Probe Word := do
  let _ ← swdTransferRetry w (.apWrite AP_TAR addr)
  let _ ← swdTransferRetry w (.apRead AP_DRW)
  swdTransferRetry w (.dpRead DP_RDBUFF)

/-- `swd_write_data` -/
def swdWriteData (address data : Word) : Op Probe Unit := do
  let _ ← swdTransferRetry w (.apWrite AP_TAR address)
  let _ ← swdTransferRetry w (.apWrite AP_DRW data)
  let _ ← swdTransferRetry w (.dpRead DP_RDBUFF)
  pure ()

/-- `swd_read_word` -/
def swdReadWord (addr : Word) : Op Probe Word := do
  swdWriteAp w AP_CSW (CSW_VALUE ||| CSW_SIZE32)
  swdReadData w addr

/-- `swd_write_word` -/
def swdWriteWord (addr val : Word) : Op Probe Unit := do
  swdWriteAp w AP_CSW (CSW_VALUE ||| CSW_SIZE32)
  swdWriteData w addr val

/-- `swd_write_byte` -/
def swdWriteByte (addr : Word) (val : Byte) : Op Probe Unit := do
  swdWriteAp w AP_CSW (CSW_VALUE ||| CSW_SIZE8)
  swdWriteData w addr (val.setWidth 32 <<< ((addr &&& 3).toNat <<< 3))

/-- The first loop of `swd_write_memory`: bytes until the address is aligned. -/
def writeHead (address : Word) : List Byte → Op Probe (Word × List Byte)
  | [] => pure (address, [])
  | b :: data =>
    if address &&& 3 ≠ 0 then do
      swdWriteByte w address b
      writeHead (address + 1) data
    else pure (address, b :: data)

/-- The bytes of one block. -/
def blockSize (address : Word) (size : Nat) : Nat :=
  let n := TARGET_AUTO_INCREMENT_PAGE_SIZE - address.toNat % TARGET_AUTO_INCREMENT_PAGE_SIZE
  if size < n then size / 4 * 4 else n

/-- The second loop: aligned blocks, with as many rounds as there are bytes at most. -/
def writeBlocks : Nat → Word → List Byte → Op Probe (Word × List Byte)
  | 0, address, data => pure (address, data)
  | rounds + 1, address, data =>
    if data.length > 3 then do
      let n := blockSize address data.length
      swdWriteBlock w address (data.take n)
      writeBlocks rounds (address + BitVec.ofNat 32 n) (data.drop n)
    else pure (address, data)

/-- The last loop. -/
def writeTail (address : Word) : List Byte → Op Probe Unit
  | [] => pure ()
  | b :: data => do
    swdWriteByte w address b
    writeTail (address + 1) data

/-- `swd_write_memory` -/
def swdWriteMemory (address : Word) (data : List Byte) : Op Probe Unit := do
  let r ← writeHead w address data
  let r ← writeBlocks w r.2.length r.1 r.2
  writeTail w r.1 r.2

end Host

/-! ## Transfers that are carried out -/

/-- `dap_state` holds what is in the registers, or the value of `swd_init_debug`. -/
structure Probe.InStep (p : Probe) : Prop where
  select : p.dapState.select = 0xFFFFFFFF ∨ p.dapState.select = p.ap.select
  csw : p.dapState.csw = 0xFFFFFFFF ∨ p.dapState.csw = p.ap.csw

/-- The access port is selected, with this CSW. -/
structure Probe.Ready (csw : Word) (p : Probe) : Prop where
  step : p.InStep
  select : p.ap.select = 0
  csw : p.ap.csw = csw

section Carried

variable {w : Wire} {p q : Probe} {r : Request} {v : Word}

theorem transfer_carried (ok : w.ack p.transfers = .ok) :
    p.transfer w r = { p with ap := p.ap.transfer r, transfers := p.transfers + 1 } := by
  rw [Probe.transfer, if_pos ok]

/-- Any other answer leaves the target as it is. -/
theorem transfer_other (other : w.ack p.transfers ≠ .ok) :
    p.transfer w r = { p with transfers := p.transfers + 1 } := by
  rw [Probe.transfer, if_neg other]

/-- How `swd_transfer_retry` ends, after `n` answers of WAIT. -/
inductive RetryEnds (w : Wire) (r : Request) (left : Nat) (p : Probe) : Outcome Word × Probe → Prop
  | carried (n : Nat) (tries : n ≤ left) (waits : ∀ j < n, w.ack (p.transfers + j) = .wait)
      (ok : w.ack (p.transfers + n) = .ok) :
      RetryEnds w r left p (.ok (w.reads (p.transfers + n) p.ap r),
        { p with ap := p.ap.transfer r, transfers := p.transfers + n + 1 })
  | givenUp (n : Nat) (tries : n ≤ left) (waits : ∀ j < n, w.ack (p.transfers + j) = .wait)
      (other : w.ack (p.transfers + n) ≠ .ok) (last : w.ack (p.transfers + n) = .wait → n = left) :
      RetryEnds w r left p (.fail,
        { p with transfers := p.transfers + n + 1, refused := p.refused ++ [(p.ap, r)] })

/-- One more answer of WAIT before the others. -/
theorem RetryEnds.later {left : Nat} {e : Outcome Word × Probe} (wait : w.ack p.transfers = .wait)
    (ends : RetryEnds w r left { p with transfers := p.transfers + 1 } e) : RetryEnds w r (left + 1) p e := by
  have shift : ∀ j, p.transfers + 1 + j = p.transfers + (j + 1) := fun j => by omega
  have first : ∀ {n : Nat}, (∀ j < n, w.ack (p.transfers + 1 + j) = .wait) →
      ∀ j < n + 1, w.ack (p.transfers + j) = .wait := by
    intro n waits j before
    cases j with
    | zero => exact wait
    | succ j =>
      rw [← shift]
      exact waits j (Nat.lt_of_succ_lt_succ before)
  cases ends with
  | carried n tries waits ok =>
    simp only [shift n] at ok ⊢
    exact .carried (n + 1) (Nat.succ_le_succ tries) (first waits) ok
  | givenUp n tries waits other last =>
    simp only [shift n] at other last ⊢
    exact .givenUp (n + 1) (Nat.succ_le_succ tries) (first waits) other fun again => congrArg (· + 1) (last again)

/-- **The retries**: WAIT is answered again and again, then the request is carried out or
given up. -/
theorem transferRetry_ends (w : Wire) (r : Request) (left : Nat) (p : Probe) :
    RetryEnds w r left p (transferRetry w r left p) := by
  induction left generalizing p with
  | zero =>
    unfold transferRetry
    split
    · rename_i ok
      rw [transfer_carried ok]
      exact .carried 0 (Nat.le_refl 0) nofun ok
    · rename_i more
      cases more
    · rename_i other _
      rw [transfer_other other]
      exact .givenUp 0 (Nat.le_refl 0) nofun other fun _ => rfl
  | succ left ih =>
    unfold transferRetry
    split
    · rename_i ok
      rw [transfer_carried ok]
      exact .carried 0 (Nat.zero_le _) nofun ok
    · rename_i wait left'
      cases left'
      rw [transfer_other (by rw [wait]; exact Ack.noConfusion)]
      exact RetryEnds.later wait (ih _)
    · rename_i other again
      rw [transfer_other other]
      exact .givenUp 0 (Nat.zero_le _) nofun other fun wait => (again left wait rfl).elim

theorem swdTransferRetry_ends (w : Wire) (r : Request) (p : Probe) :
    RetryEnds w r (MAX_SWD_RETRY - 1) p (swdTransferRetry w r p) :=
  transferRetry_ends w r _ p

/-- WAIT leaves the target as it is. -/
theorem swdTransferRetry_ok (run : swdTransferRetry w r p = (.ok v, q)) :
    q.dapState = p.dapState ∧ q.ap = p.ap.transfer r := by
  have ends := swdTransferRetry_ends w r p
  rw [run] at ends
  cases ends
  exact ⟨rfl, rfl⟩

/-- SELECT is not written again where it is known. -/
theorem swdWriteDp_select_ok {val : Word} (step : p.InStep) (known : val ≠ 0xFFFFFFFF)
    (run : swdWriteDp w DP_SELECT val p = (.ok (), q)) : q.InStep ∧ q.ap = p.ap.setSelect val := by
  obtain ⟨_, _, got, run⟩ := Op.bind_ok.mp run
  cases got
  split at run
  · rename_i cached
    obtain ⟨-, rfl⟩ := Op.pure_ok.mp run
    have here : p.ap.select = val := by
      rcases step.select with fake | same
      · exact absurd (cached.2.symm.trans fake) known
      · exact same.symm.trans cached.2
    exact ⟨step, by rw [← here]; rfl⟩
  · obtain ⟨_, t, sent, run⟩ := Op.bind_ok.mp run
    obtain ⟨state, ap⟩ := swdTransferRetry_ok sent
    have ap : t.ap = p.ap.setSelect val := ap.trans MemAp.transfer_select
    rw [if_pos rfl] at run
    cases run
    refine ⟨⟨Or.inr ?_, ?_⟩, ap⟩
    · exact (congrArg MemAp.select ap).symm
    · show t.dapState.csw = _ ∨ t.dapState.csw = t.ap.csw
      rw [state, ap]
      exact step.csw

/-- Nor is CSW. -/
theorem swdWriteAp_csw_ok {csw : Word} (step : p.InStep) (known : csw ≠ 0xFFFFFFFF)
    (run : swdWriteAp w AP_CSW csw p = (.ok (), q)) : q.Ready csw ∧ q.ap.mem = p.ap.mem := by
  obtain ⟨_, t, selected, run⟩ := Op.bind_ok.mp run
  obtain ⟨step, ap⟩ := swdWriteDp_select_ok step (by decide) selected
  have select : t.ap.select = 0 := congrArg MemAp.select ap
  have mem : t.ap.mem = p.ap.mem := by rw [ap, MemAp.setSelect_mem]
  rw [if_pos rfl] at run
  obtain ⟨_, _, got, run⟩ := Op.bind_ok.mp run
  cases got
  split at run
  · rename_i cached
    obtain ⟨-, rfl⟩ := Op.pure_ok.mp run
    have here : t.ap.csw = csw := by
      rcases step.csw with fake | same
      · exact absurd (cached.symm.trans fake) known
      · exact same.symm.trans cached
    exact ⟨⟨step, select, here⟩, mem⟩
  · obtain ⟨_, _, set, run⟩ := Op.bind_ok.mp run
    cases set
    obtain ⟨_, u, sent, run⟩ := Op.bind_ok.mp run
    obtain ⟨_, u', read, run⟩ := Op.bind_ok.mp run
    obtain ⟨-, rfl⟩ := Op.pure_ok.mp run
    obtain ⟨state, ap⟩ := swdTransferRetry_ok sent
    obtain ⟨state', ap'⟩ := swdTransferRetry_ok read
    have written : u'.ap = t.ap.setCsw csw := ap'.trans (ap.trans (MemAp.transfer_csw select))
    have cached : u'.dapState = ⟨t.dapState.select, csw⟩ := state'.trans state
    refine ⟨⟨⟨?_, Or.inr ?_⟩, ?_, ?_⟩, ?_⟩
    · rw [cached, written]
      exact step.select
    · rw [cached, written, MemAp.setCsw_csw]
    · rw [written, MemAp.setCsw_select, select]
    · rw [written, MemAp.setCsw_csw]
    · rw [written, MemAp.setCsw_mem, mem]

/-! ## Bytes and words -/

/-- After the operation the bytes are in memory. -/
structure Probe.Stored (p : Probe) (address : Word) (data : List Byte) (q : Probe) : Prop where
  step : q.InStep
  mem : q.ap.mem = p.ap.mem.store address data

theorem Probe.Stored.trans {p q u : Probe} {address : Word} {data rest : List Byte} (first : p.Stored address data q)
    (second : q.Stored (address + BitVec.ofNat 32 data.length) rest u) (fits : data.length + rest.length ≤ 2 ^ 32) :
    p.Stored address (data ++ rest) u :=
  ⟨second.step, by rw [second.mem, first.mem, WordMem.store_append _ _ _ _ fits]⟩

/-- The byte of a lane. -/
theorem byte_lane (val : Word) {k : Nat} (less : k < 4) :
    ((int2array val).drop k).take 1 = [(val >>> (k <<< 3)).setWidth 8] := by
  have cases : k = 0 ∨ k = 1 ∨ k = 2 ∨ k = 3 := by omega
  rcases cases with rfl | rfl | rfl | rfl
  all_goals
    simp only [int2array, List.drop_succ_cons, List.drop_zero, List.take_succ_cons, List.take_zero, List.cons.injEq,
      and_true]
    apply BitVec.eq_of_toNat_eq
    rw [BitVec.extractLsb'_toNat, BitVec.toNat_setWidth, BitVec.toNat_ushiftRight]
    rfl

/-- A byte that is put in a lane is there. -/
theorem lane (val : Byte) {k : Nat} (less : k < 4) :
    ((int2array (val.setWidth 32 <<< (k <<< 3))).drop k).take 1 = [val] := by
  rw [byte_lane _ less]
  apply congrArg (· :: [])
  apply BitVec.eq_of_toNat_eq
  have bound := val.isLt
  have small : val.toNat * 2 ^ (k <<< 3) < 2 ^ 32 := by
    have shift : k <<< 3 ≤ 24 := by
      rw [Nat.shiftLeft_eq]
      omega
    calc val.toNat * 2 ^ (k <<< 3) ≤ val.toNat * 2 ^ 24 := Nat.mul_le_mul_left _ (Nat.pow_le_pow_right (by decide) shift)
      _ < 2 ^ 32 := by omega
  rw [BitVec.toNat_setWidth, BitVec.toNat_ushiftRight, BitVec.toNat_shiftLeft, BitVec.toNat_setWidth,
    Nat.mod_eq_of_lt (Nat.lt_trans bound (by decide)), Nat.shiftLeft_eq, Nat.mod_eq_of_lt small,
    Nat.shiftRight_eq_div_pow, Nat.mul_div_cancel _ (Nat.two_pow_pos _), Nat.mod_eq_of_lt bound]

theorem int2array_bufferWord (b₀ b₁ b₂ b₃ : Byte) : int2array (bufferWord b₀ b₁ b₂ b₃) = [b₀, b₁, b₂, b₃] := by
  have whole : (bufferWord b₀ b₁ b₂ b₃).toNat =
      b₃.toNat * 2 ^ 24 + b₂.toNat * 2 ^ 16 + b₁.toNat * 2 ^ 8 + b₀.toNat := by
    simp only [bufferWord, BitVec.toNat_append]
    rw [← Nat.shiftLeft_add_eq_or_of_lt b₀.isLt, ← Nat.shiftLeft_add_eq_or_of_lt b₁.isLt,
      ← Nat.shiftLeft_add_eq_or_of_lt b₂.isLt]
    simp only [Nat.shiftLeft_eq]
    omega
  have byte : ∀ (b : Byte) (s : Nat), (bufferWord b₀ b₁ b₂ b₃).toNat / 2 ^ s % 2 ^ 8 = b.toNat →
      (bufferWord b₀ b₁ b₂ b₃).extractLsb' s 8 = b := by
    intro b s same
    apply BitVec.eq_of_toNat_eq
    rw [BitVec.extractLsb'_toNat, Nat.shiftRight_eq_div_pow, same]
  have h₀ := b₀.isLt
  have h₁ := b₁.isLt
  have h₂ := b₂.isLt
  rw [int2array, byte b₀ 0 (by omega), byte b₁ 8 (by omega), byte b₂ 16 (by omega), byte b₃ 24 (by omega)]

/-- The low bits of an address. -/
theorem low_bits (address : Word) : (address &&& 3).toNat = address.toNat % 4 := by
  rw [BitVec.toNat_and]
  exact Nat.and_two_pow_sub_one_eq_mod address.toNat 2

/-- A write of DRW with CSW for bytes. -/
theorem MemAp.write_byte {a : MemAp} (csw : a.csw = CSW_VALUE ||| CSW_SIZE8) (val : Byte) :
    (a.write (val.setWidth 32 <<< ((a.tar &&& 3).toNat <<< 3))).mem = a.mem.store a.tar [val] := by
  have size : accessSize a.csw = 1 := by rw [csw]; decide
  have place : BitVec.ofNat 32 (a.tar.toNat / 1 * 1) = a.tar := by
    rw [Nat.div_one, Nat.mul_one, BitVec.ofNat_toNat, BitVec.setWidth_eq]
  have small : (a.tar &&& 3).toNat < 4 := by
    rw [low_bits]
    exact Nat.mod_lt _ (by decide)
  simp only [write, size, place]
  rw [← low_bits, lane val small]

/-- A write of DRW with CSW for words. -/
theorem MemAp.write_word {a : MemAp} (csw : a.csw = CSW_VALUE ||| CSW_SIZE32) (aligned : a.tar.toNat % 4 = 0)
    (b₀ b₁ b₂ b₃ : Byte) : (a.write (bufferWord b₀ b₁ b₂ b₃)).mem = a.mem.store a.tar [b₀, b₁, b₂, b₃] := by
  have size : accessSize a.csw = 4 := by rw [csw]; decide
  have place : BitVec.ofNat 32 (a.tar.toNat / 4 * 4) = a.tar := by
    rw [show a.tar.toNat / 4 * 4 = a.tar.toNat by omega, BitVec.ofNat_toNat, BitVec.setWidth_eq]
  simp only [write, size, place, aligned, int2array_bufferWord]
  rfl

/-- TAR counts on inside 1024 bytes. -/
theorem MemAp.next_word {a : MemAp} (csw : a.csw = CSW_VALUE ||| CSW_SIZE32) (inside : a.tar.toNat % 1024 + 4 < 1024) :
    a.next = a.tar + 4 := by
  have size : accessSize a.csw = 4 := by rw [csw]; decide
  have counts : a.csw &&& 0x30 = CSW_SADDRINC := by rw [csw]; decide
  rw [next, if_pos counts, size]
  apply BitVec.eq_of_toNat_eq
  have bound := a.tar.isLt
  have four : (4 : Word).toNat = 4 := rfl
  rw [BitVec.toNat_ofNat, BitVec.toNat_add, four]
  omega

/-- A transfer to the access port leaves `dap_state` and CSW in step. -/
theorem Probe.Ready.after {csw : Word} {t : Probe} (ready : p.Ready csw) (state : t.dapState = p.dapState)
    (select : t.ap.select = p.ap.select) (same : t.ap.csw = p.ap.csw) : t.Ready csw := by
  refine ⟨⟨?_, ?_⟩, select.trans ready.select, same.trans ready.csw⟩
  · rw [state, select]
    exact ready.step.select
  · rw [state, same]
    exact ready.step.csw

/-- `TAR write` -/
theorem tar_ok {csw address : Word} (ready : p.Ready csw)
    (run : swdTransferRetry w (.apWrite AP_TAR address) p = (.ok v, q)) :
    q.Ready csw ∧ q.ap.mem = p.ap.mem ∧ q.ap.tar = address := by
  obtain ⟨state, ap⟩ := swdTransferRetry_ok run
  rw [MemAp.transfer_tar ready.select] at ap
  refine ⟨ready.after state ?_ ?_, ?_, ?_⟩
  all_goals rw [ap]
  · exact MemAp.setTar_select
  · exact MemAp.setTar_csw
  · exact MemAp.setTar_mem
  · exact MemAp.setTar_tar

/-- CSW and TAR are set, and the transfers of the access follow. -/
theorem addressed_ok {α : Type} {csw address : Word} {k : Word → Op Probe α} {r : α} (step : p.InStep)
    (known : csw ≠ 0xFFFFFFFF)
    (run : (swdWriteAp w AP_CSW csw >>= fun _ => swdTransferRetry w (.apWrite AP_TAR address) >>= k) p = (.ok r, q)) :
    ∃ v t, t.Ready csw ∧ t.ap.mem = p.ap.mem ∧ t.ap.tar = address ∧ k v t = (.ok r, q) := by
  obtain ⟨_, t, selected, run⟩ := Op.bind_ok.mp run
  obtain ⟨ready, mem⟩ := swdWriteAp_csw_ok step known selected
  obtain ⟨v, t', addressed, run⟩ := Op.bind_ok.mp run
  obtain ⟨ready', mem', tar⟩ := tar_ok ready addressed
  exact ⟨v, t', ready', mem'.trans mem, tar, run⟩

/-- `DRW write` -/
theorem drw_ok {csw val : Word} (ready : p.Ready csw)
    (run : swdTransferRetry w (.apWrite AP_DRW val) p = (.ok v, q)) : q.Ready csw ∧ q.ap = p.ap.write val := by
  obtain ⟨state, ap⟩ := swdTransferRetry_ok run
  rw [MemAp.transfer_drw ready.select] at ap
  refine ⟨ready.after state ?_ ?_, ap⟩
  all_goals rw [ap]
  · exact MemAp.write_select
  · exact MemAp.write_csw

/-- `dummy read` -/
theorem rdbuff_ok {csw : Word} (ready : p.Ready csw) (run : swdTransferRetry w (.dpRead DP_RDBUFF) p = (.ok v, q)) :
    q.Ready csw ∧ q.ap.mem = p.ap.mem := by
  obtain ⟨state, ap⟩ := swdTransferRetry_ok run
  have same : q.ap = p.ap := ap
  exact ⟨ready.after state (by rw [same]) (by rw [same]), by rw [same]⟩

theorem swdWriteByte_ok {addr : Word} {val : Byte} (step : p.InStep)
    (run : swdWriteByte w addr val p = (.ok (), q)) : p.Stored addr [val] q := by
  obtain ⟨_, t, ready, mem, tar, run⟩ := addressed_ok step (by decide) run
  obtain ⟨_, u, written, run⟩ := Op.bind_ok.mp run
  obtain ⟨ready', ap⟩ := drw_ok ready written
  obtain ⟨_, u', read, run⟩ := Op.bind_ok.mp run
  obtain ⟨done, mem'⟩ := rdbuff_ok ready' read
  obtain ⟨-, rfl⟩ := Op.pure_ok.mp run
  refine ⟨done.step, ?_⟩
  rw [mem', ap, ← tar, MemAp.write_byte ready.csw, mem]

/-- The words of a block, which ends inside the 512 bytes it starts in. -/
theorem writeWords_ok {p q : Probe} {data : List Byte} (ready : p.Ready (CSW_VALUE ||| CSW_SIZE32))
    (aligned : p.ap.tar.toNat % 4 = 0) (words : data.length % 4 = 0)
    (page : p.ap.tar.toNat % TARGET_AUTO_INCREMENT_PAGE_SIZE + data.length ≤ TARGET_AUTO_INCREMENT_PAGE_SIZE)
    (run : writeWords w data p = (.ok (), q)) :
    q.Ready (CSW_VALUE ||| CSW_SIZE32) ∧ q.ap.mem = p.ap.mem.store p.ap.tar data := by
  match data with
  | [] =>
    obtain ⟨-, rfl⟩ := Op.pure_ok.mp run
    exact ⟨ready, (WordMem.store_nil _ _).symm⟩
  | [_] | [_, _] | [_, _, _] => simp at words
  | b₀ :: b₁ :: b₂ :: b₃ :: rest =>
    have inside : p.ap.tar.toNat % 512 + (rest.length + 1 + 1 + 1 + 1) ≤ 512 := page
    simp only [List.length_cons] at words
    obtain ⟨_, t, written, run⟩ := Op.bind_ok.mp run
    obtain ⟨ready', ap⟩ := drw_ok ready written
    have mem : t.ap.mem = p.ap.mem.store p.ap.tar [b₀, b₁, b₂, b₃] := by
      rw [ap, MemAp.write_word ready.csw aligned]
    rcases Nat.eq_zero_or_pos rest.length with none | more
    · obtain rfl := List.length_eq_zero_iff.mp none
      obtain ⟨-, rfl⟩ := Op.pure_ok.mp run
      exact ⟨ready', mem⟩
    · have tar : t.ap.tar = p.ap.tar + 4 := by
        rw [ap, MemAp.write_tar, MemAp.next_word ready.csw (by omega)]
      have bound := p.ap.tar.isLt
      have place : t.ap.tar.toNat = p.ap.tar.toNat + 4 := by
        have four : (4 : Word).toNat = 4 := rfl
        rw [tar, BitVec.toNat_add, four]
        omega
      have page' : t.ap.tar.toNat % 512 + rest.length ≤ 512 := by omega
      obtain ⟨done, stored⟩ := writeWords_ok ready' (by omega) (by omega) page' run
      refine ⟨done, ?_⟩
      rw [stored, mem, tar]
      exact (WordMem.store_append _ _ [b₀, b₁, b₂, b₃] rest (by simp only [List.length_cons, List.length_nil]; omega)).symm

theorem swdWriteBlock_ok {address : Word} {data : List Byte} (step : p.InStep) (aligned : address.toNat % 4 = 0)
    (words : data.length % 4 = 0)
    (page : address.toNat % TARGET_AUTO_INCREMENT_PAGE_SIZE + data.length ≤ TARGET_AUTO_INCREMENT_PAGE_SIZE)
    (run : swdWriteBlock w address data p = (.ok (), q)) : p.Stored address data q := by
  unfold swdWriteBlock at run
  split at run
  · cases run
  · obtain ⟨_, t, ready, mem, tar, run⟩ := addressed_ok step (by decide) run
    obtain ⟨_, u, written, run⟩ := Op.bind_ok.mp run
    obtain ⟨ready', stored⟩ := writeWords_ok ready (by rw [tar]; exact aligned) words (by rw [tar]; exact page) written
    obtain ⟨_, u', read, run⟩ := Op.bind_ok.mp run
    obtain ⟨done, mem'⟩ := rdbuff_ok ready' read
    obtain ⟨-, rfl⟩ := Op.pure_ok.mp run
    exact ⟨done.step, by rw [mem', stored, mem, tar]⟩

/-! ## `swd_write_memory` -/

theorem Probe.Stored.nil {address : Word} (step : p.InStep) : p.Stored address [] p :=
  ⟨step, (WordMem.store_nil _ _).symm⟩

/-- The first loop stores the bytes in front of the first aligned address. -/
theorem writeHead_ok {p q : Probe} {address address' : Word} {data rest : List Byte} (step : p.InStep)
    (fits : data.length ≤ 2 ^ 32) (run : writeHead w address data p = (.ok (address', rest), q)) :
    ∃ front, data = front ++ rest ∧ address' = address + BitVec.ofNat 32 front.length ∧
      (rest = [] ∨ address'.toNat % 4 = 0) ∧ p.Stored address front q := by
  induction data generalizing p address with
  | nil =>
    obtain ⟨same, rfl⟩ := Op.pure_ok.mp run
    cases same
    exact ⟨[], rfl, (BitVec.add_zero _).symm, Or.inl rfl, Probe.Stored.nil step⟩
  | cons b data ih =>
    rw [List.length_cons] at fits
    unfold writeHead at run
    split at run
    · obtain ⟨_, t, written, run⟩ := Op.bind_ok.mp run
      have here := swdWriteByte_ok step written
      obtain ⟨front, rfl, rfl, aligned, stored⟩ := ih here.step (by omega) run
      rw [List.length_append] at fits
      refine ⟨b :: front, rfl, ?_, aligned, here.trans stored ?_⟩
      · rw [List.length_cons, Nat.add_comm, BitVec.ofNat_add, BitVec.add_assoc]
        rfl
      · rw [List.length_singleton]
        omega
    · rename_i even
      obtain ⟨same, rfl⟩ := Op.pure_ok.mp run
      cases same
      refine ⟨[], rfl, (BitVec.add_zero _).symm, Or.inr ?_, Probe.Stored.nil step⟩
      rw [← low_bits, not_not.mp even]
      rfl

/-- A block is of whole words and ends inside the 512 bytes it starts in. -/
theorem blockSize_spec {address : Word} {size : Nat} (aligned : address.toNat % 4 = 0) (more : size > 3) :
    0 < blockSize address size ∧ blockSize address size ≤ size ∧ blockSize address size % 4 = 0 ∧
      address.toNat % 512 + blockSize address size ≤ 512 := by
  have page : TARGET_AUTO_INCREMENT_PAGE_SIZE = 512 := rfl
  simp only [blockSize, page]
  split <;> omega

/-- So the next one is aligned, too. -/
theorem blockSize_aligned {address : Word} {size : Nat} (aligned : address.toNat % 4 = 0) (more : size > 3) :
    (address + BitVec.ofNat 32 (blockSize address size)).toNat % 4 = 0 := by
  obtain ⟨-, -, words, -⟩ := blockSize_spec aligned more
  rw [BitVec.toNat_add, BitVec.toNat_ofNat]
  omega

/-- The second loop stores aligned words. -/
theorem writeBlocks_ok {p q : Probe} {address address' : Word} {data rest : List Byte} {rounds : Nat} (step : p.InStep)
    (aligned : data = [] ∨ address.toNat % 4 = 0) (fits : data.length ≤ 2 ^ 32)
    (run : writeBlocks w rounds address data p = (.ok (address', rest), q)) :
    ∃ front, data = front ++ rest ∧ address' = address + BitVec.ofNat 32 front.length ∧ p.Stored address front q := by
  induction rounds generalizing p address data with
  | zero =>
    obtain ⟨same, rfl⟩ := Op.pure_ok.mp run
    cases same
    exact ⟨[], rfl, (BitVec.add_zero _).symm, Probe.Stored.nil step⟩
  | succ rounds ih =>
    unfold writeBlocks at run
    split at run
    · rename_i more
      have even : address.toNat % 4 = 0 := by
        rcases aligned with rfl | even
        · cases more
        · exact even
      obtain ⟨some_, le, words, page⟩ := blockSize_spec even more
      have even' := blockSize_aligned even more
      obtain ⟨n, size⟩ : ∃ n, blockSize address data.length = n := ⟨_, rfl⟩
      rw [size] at some_ le words page even'
      simp only [size] at run
      have length : (data.take n).length = n := by
        rw [List.length_take]
        omega
      have rest_length : (data.drop n).length = data.length - n := List.length_drop
      obtain ⟨_, t, written, run⟩ := Op.bind_ok.mp run
      have here := swdWriteBlock_ok step even (by rw [length]; exact words) (by rw [length]; exact page) written
      obtain ⟨front, split, rfl, stored⟩ := ih here.step (Or.inr even') (by omega) run
      have whole : data = data.take n ++ front ++ rest := by
        rw [List.append_assoc, ← split, List.take_append_drop]
      have front_le : front.length ≤ data.length - n := by
        rw [← rest_length, split, List.length_append]
        omega
      refine ⟨data.take n ++ front, whole, ?_, here.trans (by rw [length]; exact stored) ?_⟩
      · rw [List.length_append, length, BitVec.ofNat_add, BitVec.add_assoc]
      · rw [length]
        omega
    · obtain ⟨same, rfl⟩ := Op.pure_ok.mp run
      cases same
      exact ⟨[], rfl, (BitVec.add_zero _).symm, Probe.Stored.nil step⟩

/-- The last loop stores the rest byte by byte. -/
theorem writeTail_ok {p q : Probe} {address : Word} {data : List Byte} (step : p.InStep) (fits : data.length ≤ 2 ^ 32)
    (run : writeTail w address data p = (.ok (), q)) : p.Stored address data q := by
  induction data generalizing p address with
  | nil =>
    obtain ⟨-, rfl⟩ := Op.pure_ok.mp run
    exact Probe.Stored.nil step
  | cons b data ih =>
    rw [List.length_cons] at fits
    obtain ⟨_, t, written, run⟩ := Op.bind_ok.mp run
    have here := swdWriteByte_ok step written
    refine here.trans (ih here.step (by omega) run) ?_
    rw [List.length_singleton]
    omega

/-- **`swd_write_memory` stores the bytes**, whatever the address and the length. -/
theorem swdWriteMemory_ok {address : Word} {data : List Byte} (step : p.InStep) (fits : data.length ≤ 2 ^ 32)
    (run : swdWriteMemory w address data p = (.ok (), q)) : p.Stored address data q := by
  obtain ⟨⟨address', rest⟩, t, head, run⟩ := Op.bind_ok.mp run
  obtain ⟨front, rfl, rfl, aligned, first⟩ := writeHead_ok step fits head
  rw [List.length_append] at fits
  obtain ⟨⟨address'', tail⟩, u, blocks, run⟩ := Op.bind_ok.mp run
  obtain ⟨middle, rfl, rfl, second⟩ := writeBlocks_ok first.step aligned (by omega) blocks
  rw [List.length_append] at fits
  have small : tail.length ≤ 2 ^ 32 := by omega
  have third := writeTail_ok second.step small run
  exact first.trans (second.trans third (by omega)) (by rw [List.length_append]; omega)

end Carried

end OffLineProgrammer.Target
