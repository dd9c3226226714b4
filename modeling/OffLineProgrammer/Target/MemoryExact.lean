import OffLineProgrammer.Target.RegisterCache

/-!
# Downloads and uploads over SWD

`swd_write_memory` and `swd_read_memory` go over bytes up to an aligned address, over
blocks of words, and over the bytes that are left. Both split a range in the same way,
and every block is one of whole words inside 512 bytes. Where every transfer is answered
with OK they come to the end, and the range has been stored or read.
-/

namespace OffLineProgrammer.Target
set_option autoImplicit false
open OffLineProgrammer.Lib

/-! ## How a range is split -/

/-- The number of bytes in front of the first aligned address. -/
def lead (address : Word) (size : Nat) : Nat := min size ((4 - address.toNat % 4) % 4)

/-- The sizes of the blocks, with as many rounds as there are bytes at most. -/
def blockSizes : Nat → Word → Nat → List Nat
  | 0, _, _ => []
  | rounds + 1, address, size =>
    if size > 3 then
      let n := blockSize address size
      n :: blockSizes rounds (address + BitVec.ofNat 32 n) (size - n)
    else []

/-- The blocks of a range, behind its first bytes. -/
def memoryBlocks (address : Word) (size : Nat) : List Nat :=
  blockSizes (size - lead address size) (address + BitVec.ofNat 32 (lead address size)) (size - lead address size)

/-- Whole words from an aligned address on, inside 512 bytes. -/
structure IsBlock (address : Word) (n : Nat) : Prop where
  aligned : address.toNat % 4 = 0
  positive : 0 < n
  words : n % 4 = 0
  page : address.toNat % TARGET_AUTO_INCREMENT_PAGE_SIZE + n ≤ TARGET_AUTO_INCREMENT_PAGE_SIZE

/-- Blocks one after the other. -/
def Blocks : Word → List Nat → Prop
  | _, [] => True
  | address, n :: sizes => IsBlock address n ∧ Blocks (address + BitVec.ofNat 32 n) sizes

section Split

variable (w : Wire)

def writeEach (address : Word) : List Nat → List Byte → Op Probe Unit
  | [], _ => pure ()
  | n :: sizes, data => do
    swdWriteBlock w address (data.take n)
    writeEach (address + BitVec.ofNat 32 n) sizes (data.drop n)

def readEach (address : Word) : List Nat → Op Probe (List Byte)
  | [] => pure []
  | n :: sizes => do
    let data ← swdReadBlock w address n
    let rest ← readEach (address + BitVec.ofNat 32 n) sizes
    pure (data ++ rest)

/-- Bytes, blocks and bytes of a buffer. -/
def writeSplit (address : Word) (front : Nat) (sizes : List Nat) (data : List Byte) : Op Probe Unit := do
  writeTail w address (data.take front)
  writeEach w (address + BitVec.ofNat 32 front) sizes (data.drop front)
  writeTail w (address + BitVec.ofNat 32 front + BitVec.ofNat 32 sizes.sum) ((data.drop front).drop sizes.sum)

def readSplit (address : Word) (front : Nat) (sizes : List Nat) (size : Nat) : Op Probe (List Byte) := do
  let head ← readTail w address front
  let middle ← readEach w (address + BitVec.ofNat 32 front) sizes
  let tail ← readTail w (address + BitVec.ofNat 32 front + BitVec.ofNat 32 sizes.sum) (size - front - sizes.sum)
  pure (head ++ middle ++ tail)

end Split

theorem lead_le (address : Word) (size : Nat) : lead address size ≤ size := Nat.min_le_left _ _

theorem lead_even {address : Word} (even : ¬ address &&& 3 ≠ 0) (size : Nat) : lead address size = 0 := by
  have zero : address.toNat % 4 = 0 := by
    rw [← low_bits, not_not.mp even]
    rfl
  rw [lead, zero]
  omega

theorem lead_odd {address : Word} (odd : address &&& 3 ≠ 0) (size : Nat) :
    lead address (size + 1) = lead (address + 1) size + 1 := by
  have some_ : address.toNat % 4 ≠ 0 := by
    rw [← low_bits]
    exact fun zero => odd (BitVec.eq_of_toNat_eq zero)
  have one : (1 : Word).toNat = 1 := rfl
  rw [lead, lead, BitVec.toNat_add, one]
  omega

/-- Behind the first bytes the range is aligned, or there is nothing left. -/
theorem lead_aligned (address : Word) (size : Nat) :
    size - lead address size = 0 ∨ (address + BitVec.ofNat 32 (lead address size)).toNat % 4 = 0 := by
  rw [lead, BitVec.toNat_add, BitVec.toNat_ofNat]
  omega

theorem blocks_blockSizes {address : Word} {size rounds : Nat} (aligned : size = 0 ∨ address.toNat % 4 = 0) :
    Blocks address (blockSizes rounds address size) ∧ (blockSizes rounds address size).sum ≤ size := by
  induction rounds generalizing address size with
  | zero => exact ⟨trivial, Nat.zero_le _⟩
  | succ rounds ih =>
    unfold blockSizes
    split
    · rename_i more
      have even : address.toNat % 4 = 0 := aligned.resolve_left (by omega)
      obtain ⟨positive, le, words, page⟩ := blockSize_spec even more
      obtain ⟨blocks, sum⟩ := @ih (address + BitVec.ofNat 32 (blockSize address size)) (size - blockSize address size)
        (Or.inr (blockSize_aligned even more))
      refine ⟨⟨⟨even, positive, words, page⟩, blocks⟩, ?_⟩
      rw [List.sum_cons]
      omega
    · exact ⟨trivial, Nat.zero_le _⟩

/-- **Every block** is one of whole words inside 512 bytes. -/
theorem blocks_memoryBlocks (address : Word) (size : Nat) :
    Blocks (address + BitVec.ofNat 32 (lead address size)) (memoryBlocks address size) ∧
      (memoryBlocks address size).sum ≤ size - lead address size :=
  blocks_blockSizes (lead_aligned address size)

section Equations

variable (w : Wire)

theorem writeHead_eq (address : Word) (data : List Byte) :
    writeHead w address data = (do
      writeTail w address (data.take (lead address data.length))
      pure (address + BitVec.ofNat 32 (lead address data.length), data.drop (lead address data.length))) := by
  induction data generalizing address with
  | nil =>
    rw [show lead address ([] : List Byte).length = 0 from Nat.zero_min _, BitVec.add_zero]
    rfl
  | cons b data ih =>
    unfold writeHead
    split
    · rename_i odd
      rw [List.length_cons, lead_odd odd, List.take_succ_cons, writeTail, Op.bind_assoc, List.drop_succ_cons]
      apply congrArg (swdWriteByte w address b >>= ·)
      funext _
      rw [ih, Nat.add_comm, BitVec.ofNat_add, BitVec.add_assoc]
      rfl
    · rename_i even
      rw [lead_even even, BitVec.add_zero]
      rfl

theorem readHead_eq (address : Word) (size : Nat) :
    readHead w address size = (do
      let front ← readTail w address (lead address size)
      pure (address + BitVec.ofNat 32 (lead address size), size - lead address size, front)) := by
  induction size generalizing address with
  | zero =>
    rw [show lead address 0 = 0 from Nat.zero_min _, BitVec.add_zero]
    rfl
  | succ size ih =>
    unfold readHead
    split
    · rename_i odd
      rw [lead_odd odd, readTail, Op.bind_assoc]
      apply congrArg (swdReadByte w address >>= ·)
      funext b
      rw [ih, Op.bind_assoc, Op.bind_assoc]
      apply congrArg (readTail w (address + 1) (lead (address + 1) size) >>= ·)
      funext front
      rw [Op.pure_bind, Op.pure_bind, Nat.add_sub_add_right, Nat.add_comm, BitVec.ofNat_add, BitVec.add_assoc]
      rfl
    · rename_i even
      rw [lead_even even, BitVec.add_zero]
      rfl

theorem writeBlocks_eq (rounds : Nat) (address : Word) (data : List Byte) :
    writeBlocks w rounds address data = (do
      writeEach w address (blockSizes rounds address data.length) data
      pure (address + BitVec.ofNat 32 (blockSizes rounds address data.length).sum,
        data.drop (blockSizes rounds address data.length).sum)) := by
  induction rounds generalizing address data with
  | zero =>
    rw [show blockSizes 0 address data.length = [] from rfl, List.sum_nil, BitVec.add_zero]
    rfl
  | succ rounds ih =>
    unfold writeBlocks blockSizes
    split
    · dsimp only
      rw [writeEach, Op.bind_assoc, List.sum_cons]
      apply congrArg (swdWriteBlock w address _ >>= ·)
      funext _
      rw [ih, List.length_drop, BitVec.ofNat_add, BitVec.add_assoc, List.drop_drop]
    · rw [List.sum_nil, BitVec.add_zero]
      rfl

theorem readBlocks_eq (rounds : Nat) (address : Word) (size : Nat) :
    readBlocks w rounds address size = (do
      let data ← readEach w address (blockSizes rounds address size)
      pure (address + BitVec.ofNat 32 (blockSizes rounds address size).sum,
        size - (blockSizes rounds address size).sum, data)) := by
  induction rounds generalizing address size with
  | zero =>
    rw [show blockSizes 0 address size = [] from rfl, List.sum_nil, BitVec.add_zero]
    rfl
  | succ rounds ih =>
    unfold readBlocks blockSizes
    split
    · dsimp only
      rw [readEach, Op.bind_assoc, List.sum_cons]
      apply congrArg (swdReadBlock w address _ >>= ·)
      funext data
      rw [ih, Op.bind_assoc, Op.bind_assoc]
      apply congrArg (readEach w _ _ >>= ·)
      funext rest
      rw [Op.pure_bind, Op.pure_bind, BitVec.ofNat_add, BitVec.add_assoc, Nat.sub_sub]
    · rw [List.sum_nil, BitVec.add_zero]
      rfl

theorem swdWriteMemory_eq (address : Word) (data : List Byte) :
    swdWriteMemory w address data =
      writeSplit w address (lead address data.length) (memoryBlocks address data.length) data := by
  rw [swdWriteMemory, writeHead_eq, Op.bind_assoc, writeSplit]
  apply congrArg (writeTail w address _ >>= ·)
  funext _
  rw [Op.pure_bind, writeBlocks_eq, Op.bind_assoc, List.length_drop]
  rfl

theorem swdReadMemory_eq (address : Word) (size : Nat) :
    swdReadMemory w address size = readSplit w address (lead address size) (memoryBlocks address size) size := by
  rw [swdReadMemory, readHead_eq, Op.bind_assoc, readSplit]
  apply congrArg (readTail w address _ >>= ·)
  funext _
  rw [Op.pure_bind, readBlocks_eq, Op.bind_assoc]
  rfl

end Equations

/-! ## Where every transfer is answered with OK -/

def Wire.AllOk (w : Wire) : Prop := ∀ i, w.ack i = .ok

namespace Wire.AllOk

variable {w : Wire}

theorem transfer (ok : w.AllOk) (r : Request) : Op.Returns (swdTransferRetry w r) := by
  intro p
  refine ⟨w.reads p.transfers p.ap r, p.transfer w r, ?_⟩
  unfold swdTransferRetry transferRetry
  rw [ok]

/-- Nothing is ever given up. -/
theorem excuse (ok : w.AllOk) : Excuse w fun _ => False where
  transfer _ _ never := never
  setSelect _ _ never := never
  setCsw _ _ never := never
  refused := by
    intro r p q run _
    obtain ⟨v, t, carried⟩ := ok.transfer r p
    rw [carried] at run
    cases run

theorem writeSelect (ok : w.AllOk) (val : Word) : Op.Returns (swdWriteDp w DP_SELECT val) := by
  refine Op.Returns.get.bind fun p => Op.Returns.ite (fun _ => Op.Returns.pure ()) fun _ => ?_
  exact (ok.transfer _).bind fun _ => Op.Returns.ite (fun _ => Op.Returns.modify _) fun _ => Op.Returns.pure ()

theorem writeApReg (ok : w.AllOk) (adr val : Word) : Op.Returns (writeApReg w adr val) :=
  (ok.transfer _).bind fun _ => (ok.transfer _).bind fun _ => Op.Returns.pure ()

theorem writeAp (ok : w.AllOk) (adr val : Word) : Op.Returns (swdWriteAp w adr val) := by
  refine (ok.writeSelect _).bind fun _ => Op.Returns.ite (fun _ => ?_) fun _ => ok.writeApReg adr val
  refine Op.Returns.get.bind fun p => Op.Returns.ite (fun _ => Op.Returns.pure ()) fun _ => ?_
  exact (Op.Returns.modify _).bind fun _ => ok.writeApReg adr val

theorem readByte (ok : w.AllOk) (addr : Word) : Op.Returns (swdReadByte w addr) := by
  refine (ok.writeAp _ _).bind fun _ => Op.Returns.bind ?_ fun _ => Op.Returns.pure _
  exact (ok.transfer _).bind fun _ => (ok.transfer _).bind fun _ => ok.transfer _

theorem writeByte (ok : w.AllOk) (addr : Word) (val : Byte) : Op.Returns (swdWriteByte w addr val) := by
  refine (ok.writeAp _ _).bind fun _ => (ok.transfer _).bind fun _ => (ok.transfer _).bind fun _ => ?_
  exact (ok.transfer _).bind fun _ => Op.Returns.pure ()

theorem writeWords (ok : w.AllOk) (data : List Byte) : Op.Returns (writeWords w data) := by
  match data with
  | [] | [_] | [_, _] | [_, _, _] => exact Op.Returns.pure ()
  | b₀ :: b₁ :: b₂ :: b₃ :: data => exact (ok.transfer _).bind fun _ => ok.writeWords data

theorem readWords (ok : w.AllOk) (n : Nat) : Op.Returns (readWords w n) := by
  induction n with
  | zero => exact Op.Returns.pure []
  | succ n ih => exact (ok.transfer _).bind fun _ => ih.bind fun _ => Op.Returns.pure _

/-- A block that is not empty. -/
theorem writeBlock (ok : w.AllOk) (address : Word) {data : List Byte} (some_ : data.length ≠ 0) :
    Op.Returns (swdWriteBlock w address data) := by
  rw [swdWriteBlock, if_neg some_]
  refine (ok.writeAp _ _).bind fun _ => (ok.transfer _).bind fun _ => (ok.writeWords data).bind fun _ => ?_
  exact (ok.transfer _).bind fun _ => Op.Returns.pure ()

theorem readBlock (ok : w.AllOk) (address : Word) {size : Nat} (some_ : size ≠ 0) :
    Op.Returns (swdReadBlock w address size) := by
  rw [swdReadBlock, if_neg some_]
  refine (ok.writeAp _ _).bind fun _ => (ok.transfer _).bind fun _ => (ok.transfer _).bind fun _ => ?_
  exact (ok.readWords _).bind fun _ => (ok.transfer _).bind fun _ => Op.Returns.pure _

theorem writeTail (ok : w.AllOk) (address : Word) (data : List Byte) : Op.Returns (writeTail w address data) := by
  induction data generalizing address with
  | nil => exact Op.Returns.pure ()
  | cons b data ih => exact (ok.writeByte _ _).bind fun _ => ih _

theorem readTail (ok : w.AllOk) (address : Word) (size : Nat) : Op.Returns (readTail w address size) := by
  induction size generalizing address with
  | zero => exact Op.Returns.pure []
  | succ size ih => exact (ok.readByte _).bind fun _ => (ih _).bind fun _ => Op.Returns.pure _

theorem writeEach (ok : w.AllOk) {address : Word} {sizes : List Nat} {data : List Byte} (blocks : Blocks address sizes)
    (fits : sizes.sum ≤ data.length) : Op.Returns (writeEach w address sizes data) := by
  induction sizes generalizing address data with
  | nil => exact Op.Returns.pure ()
  | cons n sizes ih =>
    obtain ⟨block, blocks⟩ := blocks
    have positive := block.positive
    rw [List.sum_cons] at fits
    have some_ : (data.take n).length ≠ 0 := by
      rw [List.length_take]
      omega
    refine (ok.writeBlock address some_).bind fun _ => ih blocks ?_
    rw [List.length_drop]
    omega

theorem readEach (ok : w.AllOk) {address : Word} {sizes : List Nat} (blocks : Blocks address sizes) :
    Op.Returns (readEach w address sizes) := by
  induction sizes generalizing address with
  | nil => exact Op.Returns.pure []
  | cons n sizes ih =>
    refine (ok.readBlock address (Nat.ne_of_gt blocks.1.positive)).bind fun _ => ?_
    exact (ih blocks.2).bind fun _ => Op.Returns.pure _

theorem writeMemory (ok : w.AllOk) (address : Word) (data : List Byte) :
    Op.Returns (swdWriteMemory w address data) := by
  obtain ⟨blocks, sum⟩ := blocks_memoryBlocks address data.length
  rw [swdWriteMemory_eq, writeSplit]
  refine (ok.writeTail _ _).bind fun _ => (ok.writeEach blocks ?_).bind fun _ => ok.writeTail _ _
  rw [List.length_drop]
  exact sum

theorem readMemory (ok : w.AllOk) (address : Word) (size : Nat) : Op.Returns (swdReadMemory w address size) := by
  rw [swdReadMemory_eq, readSplit]
  refine (ok.readTail _ _).bind fun _ => (ok.readEach (blocks_memoryBlocks address size).1).bind fun _ => ?_
  exact (ok.readTail _ _).bind fun _ => Op.Returns.pure _

end Wire.AllOk

/-! ## What is read -/

section Read

variable {w : Wire} {p q : Probe}

theorem readEach_ok {address : Word} {sizes : List Nat} {data : List Byte} (posted : w.ReadsPosted) (step : p.InStep)
    (blocks : Blocks address sizes) (run : readEach w address sizes p = (.ok data, q)) :
    p.Kept q ∧ data = p.ap.mem.read address sizes.sum := by
  induction sizes generalizing p address data with
  | nil =>
    obtain ⟨rfl, rfl⟩ := Op.pure_ok.mp run
    exact ⟨Probe.Kept.refl step, rfl⟩
  | cons n sizes ih =>
    obtain ⟨block, blocks⟩ := blocks
    obtain ⟨front, t, read, run⟩ := Op.bind_ok.mp run
    obtain ⟨rest, u, more, run⟩ := Op.bind_ok.mp run
    obtain ⟨rfl, rfl⟩ := Op.pure_ok.mp run
    obtain ⟨first, here⟩ := swdReadBlock_ok posted step block.aligned block.words block.page read
    obtain ⟨second, later⟩ := ih first.step blocks more
    refine ⟨first.trans second, ?_⟩
    rw [here, later, first.mem, List.sum_cons, WordMem.read_add]

/-- **`swd_read_memory` reads the bytes**, whatever the address and the size. -/
theorem swdReadMemory_ok {address : Word} {size : Nat} {data : List Byte} (posted : w.ReadsPosted) (step : p.InStep)
    (run : swdReadMemory w address size p = (.ok data, q)) : p.Kept q ∧ data = p.ap.mem.read address size := by
  obtain ⟨blocks, sum⟩ := blocks_memoryBlocks address size
  have front := lead_le address size
  rw [swdReadMemory_eq] at run
  obtain ⟨head, t, first, run⟩ := Op.bind_ok.mp run
  obtain ⟨middle, u, second, run⟩ := Op.bind_ok.mp run
  obtain ⟨tail, v, third, run⟩ := Op.bind_ok.mp run
  obtain ⟨rfl, rfl⟩ := Op.pure_ok.mp run
  obtain ⟨kept₁, head'⟩ := readTail_ok posted step first
  obtain ⟨kept₂, middle'⟩ := readEach_ok posted kept₁.step blocks second
  obtain ⟨kept₃, tail'⟩ := readTail_ok posted kept₂.step third
  refine ⟨kept₁.trans (kept₂.trans kept₃), ?_⟩
  have whole : size = lead address size + ((memoryBlocks address size).sum +
      (size - lead address size - (memoryBlocks address size).sum)) := by omega
  have split := congrArg (p.ap.mem.read address) whole
  rw [WordMem.read_add, WordMem.read_add] at split
  rw [split, head', middle', tail', kept₂.mem, kept₁.mem, List.append_assoc]

end Read

/-! ## Downloads and uploads -/

/-- The accesses so far leave `dap_state` in step. -/
theorem accesses_inStep {h : Host} {p₀ p : Probe} {accesses : List Access} (ok : h.wire.AllOk)
    (proper : ∀ a ∈ accesses, a.Proper)
    (reached : Run.run (Access.step h.wire) accesses (swdInitDebug h p₀).2 = some p) : p.InStep := by
  refine Run.run_inv Probe.InStep (fun _ a => a.Proper) ?_ (initDebug_step h p₀) (Run.meets_events proper _) reached
  intro p a q inStep proper went
  exact (Access.step_inStepOr ok.excuse inStep proper went).resolve_left id

/-- The bytes of the range are those of the buffer, and all the others are as they were. -/
def Overwritten (before : WordMem) (address : Word) (data : List Byte) (after : WordMem) : Prop :=
  (∀ i (hi : i < data.length), after (address + BitVec.ofNat 32 i) = data[i]) ∧
    ∀ x : Word, x.toNat < address.toNat ∨ address.toNat + data.length ≤ x.toNat → after x = before x

theorem overwritten_store (m : WordMem) {address : Word} {data : List Byte} (fits : address.toNat + data.length ≤ 2 ^ 32) :
    Overwritten m address data (m.store address data) := by
  refine ⟨fun i hi => WordMem.store_in i hi (by omega), fun x out => WordMem.store_out ?_⟩
  have bound := x.isLt
  rw [BitVec.toNat_sub]
  rcases out with below | above <;> omega

/-- **Downloads and uploads are exact**: both come to the end, in blocks of words that stay
inside 512 bytes; a write changes the range to the buffer and nothing else, and a read
brings what is in the range, so that what was written is read back. -/
theorem swdMemory_exact {h : Host} {p₀ p : Probe} {accesses : List Access} (ok : h.wire.AllOk)
    (posted : h.wire.ReadsPosted) (proper : ∀ a ∈ accesses, a.Proper)
    (reached : Run.run (Access.step h.wire) accesses (swdInitDebug h p₀).2 = some p) {address : Word} {size : Nat}
    (fits : address.toNat + size ≤ 2 ^ 32) :
    (∀ data : List Byte, data.length = size → ∃ q, swdWriteMemory h.wire address data p = (.ok (), q) ∧
      Overwritten p.ap.mem address data q.ap.mem ∧ ∃ r, swdReadMemory h.wire address size q = (.ok data, r)) ∧
    (∃ q, swdReadMemory h.wire address size p = (.ok (p.ap.mem.read address size), q) ∧ q.ap.mem = p.ap.mem) ∧
    Blocks (address + BitVec.ofNat 32 (lead address size)) (memoryBlocks address size) ∧
    (∀ data : List Byte, data.length = size →
      swdWriteMemory h.wire address data = writeSplit h.wire address (lead address size) (memoryBlocks address size) data) ∧
    swdReadMemory h.wire address size = readSplit h.wire address (lead address size) (memoryBlocks address size) size := by
  have step := accesses_inStep ok proper reached
  refine ⟨?_, ?_, (blocks_memoryBlocks address size).1, ?_, swdReadMemory_eq h.wire address size⟩
  · rintro data rfl
    obtain ⟨_, q, written⟩ := ok.writeMemory address data p
    have stored := swdWriteMemory_ok step (by omega) written
    refine ⟨q, written, ?_, ?_⟩
    · rw [stored.mem]
      exact overwritten_store p.ap.mem fits
    · obtain ⟨back, r, read⟩ := ok.readMemory address data.length q
      obtain ⟨-, same⟩ := swdReadMemory_ok posted stored.step read
      rw [stored.mem, WordMem.read_store (by omega)] at same
      exact ⟨r, by rw [read, same]⟩
  · obtain ⟨data, q, read⟩ := ok.readMemory address size p
    obtain ⟨kept, same⟩ := swdReadMemory_ok posted step read
    exact ⟨q, by rw [read, same], kept.mem⟩
  · rintro data rfl
    exact swdWriteMemory_eq h.wire address data

/-! ## A port that answers at once -/

/-- What was fetched in its lanes, and zeros in the others. -/
def postedWord (posted : Posted) : Word :=
  let lanes := List.replicate posted.lane 0 ++ posted.bytes
  bufferWord (lanes.getD 0 0) (lanes.getD 1 0) (lanes.getD 2 0) (lanes.getD 3 0)

theorem in_postedWord (posted : Posted) : posted.In (postedWord posted) := by
  have lanes : ∀ l : List Byte, [l.getD 0 0, l.getD 1 0, l.getD 2 0, l.getD 3 0] = (List.range 4).map (l.getD · 0) :=
    fun _ => rfl
  have fits := posted.fits
  rw [Posted.In, postedWord, int2array_bufferWord, lanes]
  apply List.ext_getElem
  · rw [List.length_take, List.length_drop, List.length_map, List.length_range]
    omega
  · intro i hi hj
    have inside : posted.lane + i < (List.replicate posted.lane (0 : Byte) ++ posted.bytes).length := by
      rw [List.length_append, List.length_replicate]
      omega
    have past : (List.replicate posted.lane (0 : Byte)).length ≤ posted.lane + i := by
      rw [List.length_replicate]
      exact Nat.le_add_right _ _
    rw [List.getElem_take, List.getElem_drop, List.getElem_map, List.getElem_range, List.getD_eq_getElem _ _ inside,
      List.getElem_append_right past]
    simp only [List.length_replicate, Nat.add_sub_cancel_left]

/-- Every transfer is carried out at once; power is up, and reads are posted. -/
def readyHost : Host :=
  ⟨⟨fun _ => .ok, fun _ a r => if r = .dpRead DP_CTRL_STAT then powerUpAck else postedWord a.rdbuff⟩, 0⟩

theorem readyHost_posted : readyHost.wire.ReadsPosted := by
  intro i a r which
  have other : r ≠ .dpRead DP_CTRL_STAT := by
    rcases which with rfl | rfl <;> decide
  have value : readyHost.wire.reads i a r = postedWord a.rdbuff := if_neg other
  rw [value]
  exact in_postedWord a.rdbuff

/-- Thirteen bytes over a boundary of 512 bytes, after two other accesses. -/
theorem swdMemory_exact_boundary : memoryBlocks 0x200001F9 13 = [4, 4] ∧
    ∃ p q r, Run.run (Access.step readyHost.wire) [.writeByte 0x20000200 0x5A, .readWord 0x20000200]
        (swdInitDebug readyHost unusedProbe).2 = some p ∧
      swdWriteMemory readyHost.wire 0x200001F9 (List.range 13 |>.map (BitVec.ofNat 8)) p = (.ok (), q) ∧
      Overwritten p.ap.mem 0x200001F9 (List.range 13 |>.map (BitVec.ofNat 8)) q.ap.mem ∧
      swdReadMemory readyHost.wire 0x200001F9 13 q = (.ok (List.range 13 |>.map (BitVec.ofNat 8)), r) := by
  refine ⟨by decide, ?_⟩
  have proper : ∀ a ∈ [Access.writeByte 0x20000200 0x5A, .readWord 0x20000200], a.Proper := by
    intro a mem
    simp only [List.mem_cons, List.not_mem_nil, or_false] at mem
    rcases mem with rfl | rfl <;> exact trivial
  have exact_ := @swdMemory_exact readyHost unusedProbe _ [.writeByte 0x20000200 0x5A, .readWord 0x20000200] (fun _ => rfl)
    readyHost_posted proper rfl 0x200001F9 13 (by decide)
  obtain ⟨q, written, overwritten, r, read⟩ := exact_.1 (List.range 13 |>.map (BitVec.ofNat 8)) rfl
  exact ⟨_, q, r, rfl, written, overwritten, read⟩

end OffLineProgrammer.Target
