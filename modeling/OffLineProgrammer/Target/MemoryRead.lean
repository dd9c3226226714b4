import OffLineProgrammer.Target.SwdHost

/-!
# Reads of memory over SWD, from swd_host.c

Reads of an access port are posted: a read starts an access and brings what the access
before it fetched, and RDBUFF brings the last one. `swd_read_block` reads one word
ahead, and every read stays in the 512 bytes in which TAR is sure to be counted.
-/

namespace OffLineProgrammer.Target
set_option autoImplicit false
open OffLineProgrammer.Lib

section Host

variable (w : Wire)

/-- `swd_read_byte` -/
def swdReadByte (addr : Word) : Op Probe Byte := do
  swdWriteAp w AP_CSW (CSW_VALUE ||| CSW_SIZE8)
  let tmp ← swdReadData w addr
  pure ((tmp >>> ((addr &&& 3).toNat <<< 3)).setWidth 8)

/-- The loop of `swd_read_block`. -/
def readWords : Nat → Op Probe (List Byte)
  | 0 => pure []
  | n + 1 => do
    let val ← swdTransferRetry w (.apRead AP_DRW)
    let data ← readWords n
    pure (int2array val ++ data)

/-- `swd_read_block`; `size_in_words - 1` is an `uint32_t`. -/
def swdReadBlock (address : Word) (size : Nat) : Op Probe (List Byte) :=
  if size = 0 then Op.fail
  else do
    swdWriteAp w AP_CSW (CSW_VALUE ||| CSW_SIZE32)
    let _ ← swdTransferRetry w (.apWrite AP_TAR address)
    let _ ← swdTransferRetry w (.apRead AP_DRW)
    let data ← readWords w (BitVec.ofNat 32 (size / 4) - 1).toNat
    let last ← swdTransferRetry w (.dpRead DP_RDBUFF)
    pure (data ++ int2array last)

/-- The first loop of `swd_read_memory`, with the size left: the address and the size
it leaves, and the bytes it has read. -/
def readHead (address : Word) : Nat → Op Probe (Word × Nat × List Byte)
  | 0 => pure (address, 0, [])
  | size + 1 =>
    if address &&& 3 ≠ 0 then do
      let b ← swdReadByte w address
      let r ← readHead (address + 1) size
      pure (r.1, r.2.1, b :: r.2.2)
    else pure (address, size + 1, [])

/-- The second loop: aligned blocks, with as many rounds as there are bytes at most. -/
def readBlocks : Nat → Word → Nat → Op Probe (Word × Nat × List Byte)
  | 0, address, size => pure (address, size, [])
  | rounds + 1, address, size =>
    if size > 3 then do
      let n := blockSize address size
      let data ← swdReadBlock w address n
      let r ← readBlocks rounds (address + BitVec.ofNat 32 n) (size - n)
      pure (r.1, r.2.1, data ++ r.2.2)
    else pure (address, size, [])

/-- The last loop. -/
def readTail (address : Word) : Nat → Op Probe (List Byte)
  | 0 => pure []
  | size + 1 => do
    let b ← swdReadByte w address
    let data ← readTail (address + 1) size
    pure (b :: data)

/-- `swd_read_memory` -/
def swdReadMemory (address : Word) (size : Nat) : Op Probe (List Byte) := do
  let r ← readHead w address size
  let s ← readBlocks w r.2.1 r.1 r.2.1
  let tail ← readTail w s.1 s.2.1
  pure (r.2.2 ++ s.2.2 ++ tail)

end Host

/-! ## What a read brings -/

/-- These bytes, in the lanes from this one on. -/
def Posted.Holds (posted : Posted) (lane : Nat) (bytes : List Byte) : Prop := posted.lane = lane ∧ posted.bytes = bytes

/-- The bytes of a word in the lanes of what was fetched. -/
def Posted.In (posted : Posted) (val : Word) : Prop :=
  ((int2array val).drop posted.lane).take posted.bytes.length = posted.bytes

theorem Posted.In.holds {posted : Posted} {val : Word} {lane : Nat} {bytes : List Byte} (here : posted.In val)
    (holds : posted.Holds lane bytes) : ((int2array val).drop lane).take bytes.length = bytes := by
  rw [Posted.In, holds.1, holds.2] at here
  exact here

/-- Reads of DRW and of RDBUFF bring what was fetched last; in the other lanes there may
be anything. -/
def Wire.ReadsPosted (w : Wire) : Prop :=
  ∀ (i : Nat) (a : MemAp) (r : Request), r = .apRead AP_DRW ∨ r = .dpRead DP_RDBUFF → a.rdbuff.In (w.reads i a r)

namespace MemAp

variable {a : MemAp}

@[simp] theorem read_select : a.read.select = a.select := rfl
@[simp] theorem read_csw : a.read.csw = a.csw := rfl
@[simp] theorem read_tar : a.read.tar = a.next := rfl
@[simp] theorem read_mem : a.read.mem = a.mem := rfl
@[simp] theorem setTar_rdbuff (val : Word) : (a.setTar val).rdbuff = a.rdbuff := rfl

theorem transfer_read (selected : a.select = 0) : a.transfer (.apRead AP_DRW) = a.read := by
  rw [transfer, if_pos ⟨selected, rfl⟩]

/-- A read of DRW with CSW for bytes. -/
theorem read_byte (csw : a.csw = CSW_VALUE ||| CSW_SIZE8) : a.read.rdbuff.Holds (a.tar.toNat % 4) [a.mem a.tar] := by
  have size : accessSize a.csw = 1 := by rw [csw]; decide
  have place : BitVec.ofNat 32 (a.tar.toNat / 1 * 1) = a.tar := by
    rw [Nat.div_one, Nat.mul_one, BitVec.ofNat_toNat, BitVec.setWidth_eq]
  have cell : a.mem.read a.tar 1 = [a.mem a.tar] := congrArg (fun x => [a.mem x]) (BitVec.add_zero a.tar)
  simp only [Posted.Holds, read, size, place, cell, and_self]

/-- A read of DRW with CSW for words. -/
theorem read_word (csw : a.csw = CSW_VALUE ||| CSW_SIZE32) (aligned : a.tar.toNat % 4 = 0) :
    a.read.rdbuff.Holds 0 (a.mem.read a.tar 4) := by
  have size : accessSize a.csw = 4 := by rw [csw]; decide
  have place : BitVec.ofNat 32 (a.tar.toNat / 4 * 4) = a.tar := by
    rw [show a.tar.toNat / 4 * 4 = a.tar.toNat by omega, BitVec.ofNat_toNat, BitVec.setWidth_eq]
  simp only [Posted.Holds, read, size, place, aligned, and_self]

end MemAp

section Fetched

variable {w : Wire} {p q : Probe} {v : Word}

theorem transferRetry_value {r : Request} {left : Nat} (run : transferRetry w r left p = (.ok v, q)) :
    ∃ i, v = w.reads i p.ap r := by
  have ends := transferRetry_ends w r left p
  rw [run] at ends
  cases ends with
  | carried n => exact ⟨p.transfers + n, rfl⟩

/-- A read of DRW brings what was fetched before, and fetches. -/
theorem drwRead_ok {csw : Word} (posted : w.ReadsPosted) (ready : p.Ready csw)
    (run : swdTransferRetry w (.apRead AP_DRW) p = (.ok v, q)) :
    q.Ready csw ∧ q.ap = p.ap.read ∧ p.ap.rdbuff.In v := by
  obtain ⟨state, ap⟩ := swdTransferRetry_ok run
  obtain ⟨i, val⟩ := transferRetry_value run
  rw [MemAp.transfer_read ready.select] at ap
  refine ⟨ready.after state (by rw [ap, MemAp.read_select]) (by rw [ap, MemAp.read_csw]), ap, ?_⟩
  rw [val]
  exact posted i p.ap _ (Or.inl rfl)

/-- RDBUFF brings what was fetched last. -/
theorem rdbuffRead_ok {csw : Word} (posted : w.ReadsPosted) (ready : p.Ready csw)
    (run : swdTransferRetry w (.dpRead DP_RDBUFF) p = (.ok v, q)) :
    q.Ready csw ∧ q.ap.mem = p.ap.mem ∧ p.ap.rdbuff.In v := by
  obtain ⟨ready', mem⟩ := rdbuff_ok ready run
  obtain ⟨i, val⟩ := transferRetry_value run
  refine ⟨ready', mem, ?_⟩
  rw [val]
  exact posted i p.ap _ (Or.inr rfl)

/-- `swd_read_data` -/
theorem swdReadData_ok {csw addr : Word} (posted : w.ReadsPosted) (ready : p.Ready csw)
    (run : swdReadData w addr p = (.ok v, q)) :
    q.Ready csw ∧ q.ap.mem = p.ap.mem ∧ (p.ap.setTar addr).read.rdbuff.In v := by
  obtain ⟨_, t, addressed, run⟩ := Op.bind_ok.mp run
  obtain ⟨ready', -, -⟩ := tar_ok ready addressed
  obtain ⟨-, ap⟩ := swdTransferRetry_ok addressed
  rw [MemAp.transfer_tar ready.select] at ap
  obtain ⟨_, u, started, run⟩ := Op.bind_ok.mp run
  obtain ⟨ready'', fetched, -⟩ := drwRead_ok posted ready' started
  obtain ⟨done, mem, val⟩ := rdbuffRead_ok posted ready'' run
  refine ⟨done, ?_, ?_⟩
  · rw [mem, fetched, MemAp.read_mem, ap, MemAp.setTar_mem]
  · rwa [fetched, ap] at val

/-- After the operation memory is as it was, and `dap_state` in step. -/
structure Probe.Kept (p q : Probe) : Prop where
  step : q.InStep
  mem : q.ap.mem = p.ap.mem

theorem Probe.Kept.trans {p q u : Probe} (first : p.Kept q) (second : q.Kept u) : p.Kept u :=
  ⟨second.step, second.mem.trans first.mem⟩

theorem swdReadByte_ok {addr : Word} {b : Byte} (posted : w.ReadsPosted) (step : p.InStep)
    (run : swdReadByte w addr p = (.ok b, q)) : p.Kept q ∧ b = p.ap.mem addr := by
  obtain ⟨_, t, selected, run⟩ := Op.bind_ok.mp run
  obtain ⟨ready, mem⟩ := swdWriteAp_csw_ok step (by decide) selected
  obtain ⟨tmp, u, read, run⟩ := Op.bind_ok.mp run
  obtain ⟨done, mem', val⟩ := swdReadData_ok posted ready read
  obtain ⟨rfl, rfl⟩ := Op.pure_ok.mp run
  refine ⟨⟨done.step, mem'.trans mem⟩, ?_⟩
  have small : (addr &&& 3).toNat < 4 := by
    rw [low_bits]
    exact Nat.mod_lt _ (by decide)
  have fetched : (t.ap.setTar addr).read.rdbuff.Holds (addr &&& 3).toNat [t.ap.mem addr] := by
    rw [low_bits]
    exact MemAp.read_byte ready.csw
  have byte := val.holds fetched
  rw [List.length_singleton, byte_lane tmp small, mem] at byte
  exact List.head_eq_of_cons_eq byte

/-- The bytes of a whole word. -/
theorem Posted.In.word {posted : Posted} {a : Word} {m : WordMem} (val : posted.In v)
    (fetched : posted.Holds 0 (m.read a 4)) : int2array v = m.read a 4 := by
  have here := val.holds fetched
  rw [WordMem.length_read] at here
  exact here

/-- The words behind the one that was fetched, up to the end of the 512 bytes. -/
theorem readWords_ok {n : Nat} {a : Word} {data : List Byte} (posted : w.ReadsPosted)
    (ready : p.Ready (CSW_VALUE ||| CSW_SIZE32)) (aligned : a.toNat % 4 = 0)
    (fetched : p.ap.rdbuff.Holds 0 (p.ap.mem.read a 4)) (next : n = 0 ∨ p.ap.tar = a + 4)
    (page : a.toNat % TARGET_AUTO_INCREMENT_PAGE_SIZE + (4 * n + 4) ≤ TARGET_AUTO_INCREMENT_PAGE_SIZE)
    (run : readWords w n p = (.ok data, q)) :
    q.Ready (CSW_VALUE ||| CSW_SIZE32) ∧ q.ap.mem = p.ap.mem ∧ data = p.ap.mem.read a (4 * n) ∧
      q.ap.rdbuff.Holds 0 (p.ap.mem.read (a + BitVec.ofNat 32 (4 * n)) 4) := by
  induction n generalizing p a data with
  | zero =>
    obtain ⟨rfl, rfl⟩ := Op.pure_ok.mp run
    exact ⟨ready, rfl, rfl, by rw [Nat.mul_zero, BitVec.add_zero]; exact fetched⟩
  | succ n ih =>
    have tar : p.ap.tar = a + 4 := next.resolve_left (Nat.succ_ne_zero n)
    have inside : a.toNat % 512 + (4 * (n + 1) + 4) ≤ 512 := page
    have bound := a.isLt
    have place : (a + 4).toNat = a.toNat + 4 := by
      have four : (4 : Word).toNat = 4 := rfl
      rw [BitVec.toNat_add, four]
      omega
    obtain ⟨val, t, started, run⟩ := Op.bind_ok.mp run
    obtain ⟨rest, u, more, run⟩ := Op.bind_ok.mp run
    obtain ⟨rfl, rfl⟩ := Op.pure_ok.mp run
    obtain ⟨ready', ap, here⟩ := drwRead_ok posted ready started
    have mem : t.ap.mem = p.ap.mem := by rw [ap, MemAp.read_mem]
    have fetched' : t.ap.rdbuff.Holds 0 (t.ap.mem.read (a + 4) 4) := by
      rw [mem, ap, ← tar]
      exact MemAp.read_word ready.csw (by rw [tar, place]; omega)
    have next' : n = 0 ∨ t.ap.tar = a + 4 + 4 := by
      rcases Nat.eq_zero_or_pos n with none | some_
      · exact Or.inl none
      · rw [ap, MemAp.read_tar, MemAp.next_word ready.csw (by rw [tar, place]; omega), tar]
        exact Or.inr rfl
    have page' : (a + 4).toNat % 512 + (4 * n + 4) ≤ 512 := by omega
    obtain ⟨done, mem', data', last⟩ := ih ready' (by omega) fetched' next' page' more
    refine ⟨done, mem'.trans mem, ?_, ?_⟩
    · rw [here.word fetched, data', mem, show 4 * (n + 1) = 4 + 4 * n by omega, WordMem.read_add]
      rfl
    · rw [mem, BitVec.add_assoc] at last
      rw [show 4 * (n + 1) = 4 + 4 * n by omega, BitVec.ofNat_add]
      exact last

theorem swdReadBlock_ok {address : Word} {size : Nat} {data : List Byte} (posted : w.ReadsPosted) (step : p.InStep)
    (aligned : address.toNat % 4 = 0) (words : size % 4 = 0)
    (page : address.toNat % TARGET_AUTO_INCREMENT_PAGE_SIZE + size ≤ TARGET_AUTO_INCREMENT_PAGE_SIZE)
    (run : swdReadBlock w address size p = (.ok data, q)) : p.Kept q ∧ data = p.ap.mem.read address size := by
  unfold swdReadBlock at run
  split at run
  · cases run
  · rename_i some_
    have inside : address.toNat % 512 + size ≤ 512 := page
    have count : (BitVec.ofNat 32 (size / 4) - 1).toNat = size / 4 - 1 := by
      rw [BitVec.toNat_sub, BitVec.toNat_ofNat, show (1 : BitVec 32).toNat = 1 from rfl]
      omega
    obtain ⟨_, t, ready, mem, tar, run⟩ := addressed_ok step (by decide) run
    obtain ⟨_, u, started, run⟩ := Op.bind_ok.mp run
    obtain ⟨ready', ap, -⟩ := drwRead_ok posted ready started
    have here : u.ap.mem = p.ap.mem := by rw [ap, MemAp.read_mem, mem]
    have fetched : u.ap.rdbuff.Holds 0 (u.ap.mem.read address 4) := by
      rw [ap, MemAp.read_mem, ← tar]
      exact MemAp.read_word ready.csw (by rw [tar]; exact aligned)
    have next : size / 4 - 1 = 0 ∨ u.ap.tar = address + 4 := by
      rcases Nat.eq_zero_or_pos (size / 4 - 1) with none | more
      · exact Or.inl none
      · rw [ap, MemAp.read_tar, MemAp.next_word ready.csw (by rw [tar]; omega), tar]
        exact Or.inr rfl
    have page' : address.toNat % 512 + (4 * (size / 4 - 1) + 4) ≤ 512 := by omega
    rw [count] at run
    obtain ⟨front, v, more, run⟩ := Op.bind_ok.mp run
    obtain ⟨ready'', mem', front', fetched'⟩ := readWords_ok posted ready' aligned fetched next page' more
    obtain ⟨last, v', read, run⟩ := Op.bind_ok.mp run
    obtain ⟨done, mem'', val⟩ := rdbuffRead_ok posted ready'' read
    obtain ⟨rfl, rfl⟩ := Op.pure_ok.mp run
    refine ⟨⟨done.step, by rw [mem'', mem', here]⟩, ?_⟩
    rw [val.word fetched', front', here, ← WordMem.read_add]
    exact congrArg (p.ap.mem.read address) (by omega)

theorem Probe.Kept.refl (step : p.InStep) : p.Kept p := ⟨step, rfl⟩

/-- Bytes one after the other. -/
theorem readTail_ok {address : Word} {size : Nat} {data : List Byte} (posted : w.ReadsPosted) (step : p.InStep)
    (run : readTail w address size p = (.ok data, q)) : p.Kept q ∧ data = p.ap.mem.read address size := by
  induction size generalizing p address data with
  | zero =>
    obtain ⟨rfl, rfl⟩ := Op.pure_ok.mp run
    exact ⟨Probe.Kept.refl step, rfl⟩
  | succ size ih =>
    obtain ⟨b, t, read, run⟩ := Op.bind_ok.mp run
    obtain ⟨rest, u, more, run⟩ := Op.bind_ok.mp run
    obtain ⟨rfl, rfl⟩ := Op.pure_ok.mp run
    obtain ⟨first, byte⟩ := swdReadByte_ok posted step read
    obtain ⟨second, bytes⟩ := ih first.step more
    have split := WordMem.read_add p.ap.mem address 1 size
    refine ⟨first.trans second, ?_⟩
    rw [Nat.add_comm 1] at split
    rw [split, byte, bytes, first.mem]
    exact congrArg (fun x => p.ap.mem x :: _) (BitVec.add_zero address).symm

end Fetched

end OffLineProgrammer.Target
