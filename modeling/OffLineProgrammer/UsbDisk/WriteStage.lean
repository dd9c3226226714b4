import OffLineProgrammer.UsbDisk.Transfer

/-!
# The data stage of a write

An invariant on the number of packets ties the sector, the packet count and the
remaining length to the cells of the chip and to the staged part of the sector.
-/

namespace OffLineProgrammer.UsbDisk
set_option autoImplicit false
open OffLineProgrammer.Lib OffLineProgrammer.Storage Udisk Host

section Calls

variable {w : Env} {m : Mem}

theorem calls_append (fuel : Nat) (as bs : List Action) : ∀ w : Env,
    w.calls fuel (as ++ bs) = (w.calls fuel as).bind fun v => v.calls fuel bs := by
  induction as with
  | nil => intro w; rfl
  | cons a as ih =>
    intro w
    simp only [List.cons_append, Env.calls, Option.bind_eq_bind]
    cases w.call fuel a with
    | none => rfl
    | some v => exact ih v

/-- The sector of a byte address below the end of the part. -/
theorem erase_runs (ready : w.bus.Ready m) {a : BitVec 32} {s : Nat} (address : a.toNat = s * 4096) (below : s < 4096) :
    ∃ b, w.call 1 (.eraseSector a) = some { w with bus := b } ∧ b.Ready (m.erase (4096 * s) 4096) := by
  obtain ⟨b, run, done⟩ := flashEraseSector_ready ready a.toNat
  have start : a.toNat % chipSize / spiFlashSectorSize * spiFlashSectorSize = 4096 * s := by
    rw [address]
    simp only [chipSize, spiFlashSectorSize]
    omega
  rw [start] at done
  exact ⟨b, by simp only [Env.call, run, Option.bind_eq_bind, Option.bind_some], done⟩

/-- The down buffer is programmed. -/
theorem writeData_runs (ready : w.bus.Ready m) (size : w.downBuffer.length = 4096) {a : BitVec 32} {s : Nat}
    (address : a.toNat = s * 4096) (below : s < 4096) :
    ∃ b sent, w.call 1 (.writeData a 4096) = some { w with bus := b, downBuffer := sent } ∧ sent.length = 4096 ∧
      b.Ready (m.program (4096 * s) w.downBuffer) := by
  have whole : w.downBuffer.take 4096 = w.downBuffer := List.take_of_length_le (Nat.le_of_eq size)
  have rest : w.downBuffer.drop 4096 = [] := List.drop_eq_nil_of_le (Nat.le_of_eq size)
  have fits : a.toNat + w.downBuffer.length ≤ chipSize := by
    rw [address, size]
    simp only [chipSize]
    omega
  obtain ⟨b, sent, run, done, same⟩ := flashWriteNoCheck_ready ready a.toNat w.downBuffer fits
    (Nat.lt_of_lt_of_eq (by decide : 0 < 4096) size.symm)
  rw [address, Nat.mul_comm] at done
  refine ⟨b, sent, ?_, same.trans size, done⟩
  simp only [Env.call, show (4096 : BitVec 32).toNat = 4096 from rfl, whole, rest, run, Option.bind_eq_bind,
    Option.bind_some, List.append_nil]

/-- Staging the next piece extends the front of the buffer that is filled. -/
theorem staged_front {buff src piece : List Byte} {off : Nat} (front : buff.take off = src.take off)
    (next : piece = (src.drop off).take 64) (whole : piece.length = 64) (fits : off + 64 ≤ buff.length) :
    (mergeSector buff off piece).take (off + 64) = src.take (off + 64) ∧
      (mergeSector buff off piece).length = buff.length := by
  have size : (buff.take off).length = off := by rw [List.length_take]; omega
  have filled : (buff.take off ++ piece).length = off + 64 := by rw [List.length_append, size, whole]
  constructor
  · rw [mergeSector, List.take_left' filled, front, next, List.take_add]
  · rw [mergeSector, List.length_append, filled, List.length_drop, whole]
    omega

end Calls

/-! ## The payload -/

/-- A list of packets in bytes. -/
theorem length_packets (ps : List (Vector Byte packSize)) : (ps.flatMap fun p => p.toList).length = 64 * ps.length := by
  induction ps with
  | nil => rfl
  | cons p ps ih =>
    have size : p.toList.length = 64 := Vector.length_toList
    rw [List.flatMap_cons, List.length_append, ih, size, List.length_cons]
    omega

/-- Packet `k` is at its place among the bytes. -/
theorem packet_bytes : ∀ {ps : List (Vector Byte packSize)} {k : Nat} {p : Vector Byte packSize}, ps[k]? = some p →
    ((ps.flatMap fun p => p.toList).drop (64 * k)).take 64 = p.toList := by
  intro ps
  induction ps with
  | nil => intro k p found; cases found
  | cons q ps ih =>
    intro k p found
    have size : q.toList.length = 64 := Vector.length_toList
    cases k with
    | zero =>
      cases found
      rw [Nat.mul_zero, List.drop_zero, List.flatMap_cons, List.take_left' size]
    | succ k =>
      have split : 64 * (k + 1) = q.toList.length + 64 * k := by omega
      rw [List.flatMap_cons, split, List.drop_length_add_append]
      exact ih found

namespace Io

variable {c : Io}

theorem payload_length (write : ¬ c.IsRead) : c.payload.length = 64 * c.sectors := by
  rcases c.direction with ⟨read, -⟩ | ⟨-, -, length⟩
  · exact absurd read write
  · exact length

theorem bytes_length (write : ¬ c.IsRead) : c.bytes.length = 4096 * c.sectors := by
  have packets := payload_length write
  rw [bytes, length_packets, packets]
  omega

end Io

/-! ## The cells and the disk -/

/-- The cells after `i` sectors and `j` packets of the next. -/
def stored (m : Mem) (c : Io) (i j : Nat) : Mem :=
  let whole := m.write (4096 * c.first) (c.bytes.take (4096 * i))
  if j = 0 then whole else whole.erase (4096 * (c.first + i)) 4096

/-- The disk after `i` sectors and `j` packets of the next. -/
structure Writer (c : Io) (i j : Nat) (d : Udisk) : Prop where
  en : d.en = true
  up : d.up = false
  down : d.down = true
  good : d.cswBytes = goodCsw c
  cursor : d.curSecLba.toNat = c.first + i
  count : d.secPackCount.toNat = j
  left : d.transferDataLen.toNat + 64 * (64 * i + j) = 4096 * c.sectors

structure WriteAt (m : Mem) (c : Io) (wire : List (List Byte)) (i j : Nat) (h : Host) : Prop where
  holds : h.env.Holds (stored m c i j)
  staged : h.env.downBuffer.take (64 * j) = (c.bytes.drop (4096 * i)).take (64 * j)
  wire : h.wire = wire
  disk : Writer c i j h.disk

section Writes

variable (flashId : Byte) {m : Mem} {c : Io} {wire : List (List Byte)} {h : Host} {d : Udisk} {i j : Nat}
  {p : Vector Byte packSize}

/-- The cells outside the extent are those before the write. -/
theorem stored_outside (write : ¬ c.IsRead) (inside : i < c.sectors) {x : Nat}
    (out : x < 4096 * c.first ∨ 4096 * (c.first + c.sectors) ≤ x) : stored m c i j x = m x := by
  have size : (c.bytes.take (4096 * i)).length = 4096 * i := by
    rw [List.length_take, Io.bytes_length write]
    omega
  have whole : (m.write (4096 * c.first) (c.bytes.take (4096 * i))) x = m x := by
    apply Mem.write_out
    rw [size]
    omega
  simp only [stored]
  split
  · exact whole
  · rw [Mem.erase_out (by omega)]
    exact whole

/-- A sector that is filled continues the write. -/
theorem stored_next (write : ¬ c.IsRead) (inside : i < c.sectors) {buff : List Byte}
    (filled : buff = (c.bytes.drop (4096 * i)).take 4096) :
    (stored m c i 63).program (4096 * (c.first + i)) buff = stored m c (i + 1) 0 := by
  have front : (c.bytes.take (4096 * i)).length = 4096 * i := by
    rw [List.length_take, Io.bytes_length write]
    omega
  have size : buff.length = 4096 := by
    rw [filled, List.length_take, List.length_drop, Io.bytes_length write]
    omega
  have address : 4096 * (c.first + i) = 4096 * c.first + (c.bytes.take (4096 * i)).length := by
    rw [front, Nat.mul_add]
  have erased := Mem.program_erase (m.write (4096 * c.first) (c.bytes.take (4096 * i))) (4096 * (c.first + i)) buff
  rw [size] at erased
  have joined : c.bytes.take (4096 * i) ++ buff = c.bytes.take (4096 * (i + 1)) := by
    rw [filled, Nat.mul_add, List.take_add]
  simp only [stored, show ¬ (63 = 0) by decide, if_false, if_true]
  rw [erased, address, ← Mem.write_append, joined]

/-- The block of a write erases nothing yet. -/
theorem Idle.write (idle : Idle m wire h) (write : ¬ c.IsRead) :
    ∃ h', step (udiskFun flashId) (.out c.cbw 0x1F) h = some h' ∧ WriteAt m c wire 0 0 h' := by
  have deal := scsiCmdDeal_rdWr (udiskFun flashId) h.disk idle.en c.cbw c.signed (Or.inr (c.isWrite_iff.mpr write))
  have len := bne_iff_ne.mpr c.dataLen_ne
  have dir : (blockOf c.cbw).flag &&& 0x80 = 0 := by
    rcases c.direction with ⟨read, -⟩ | ⟨-, dir, -⟩
    · exact absurd read write
    · exact dir
  obtain ⟨cursor, count, left, good⟩ := rdWrPre flashId c h.disk
  have down : (cmdRdWrDealPre (udiskFun flashId) (takeCbw (receive c.cbw h.disk))).down = true := by
    simp only [cmdRdWrDealPre, cmdDealStatus, takeCbw, receive, len, beq_iff_eq.mpr dir, Bool.and_true, Bool.or_true]
  have up : (cmdRdWrDealPre (udiskFun flashId) (takeCbw (receive c.cbw h.disk))).up = false := by
    simp only [cmdRdWrDealPre, cmdDealStatus, takeCbw, receive, idle.up, dir, bne_self_eq_false, Bool.and_false,
      Bool.or_false]
  have en : (cmdRdWrDealPre (udiskFun flashId) (takeCbw (receive c.cbw h.disk))).en = true := by
    simp only [cmdRdWrDealPre, cmdDealStatus, takeCbw, receive, idle.en]
  have next : outEpDeal (udiskFun flashId) c.cbw 0x1F h.disk =
      (cmdRdWrDealPre (udiskFun flashId) (takeCbw (receive c.cbw h.disk)), []) := by
    rw [outEpDeal_command (udiskFun flashId) idle.down, deal]
    simp only [afterCmd, down, if_true, List.nil_append]
  have start : stored m c 0 0 = m := by simp [stored]
  have writer : Writer c 0 0 (cmdRdWrDealPre (udiskFun flashId) (takeCbw (receive c.cbw h.disk))) := by
    refine ⟨en, up, down, good, ?_, count, ?_⟩
    · rw [cursor, Nat.add_zero]
    · rw [left]
      omega
  have holds : h.env.Holds (stored m c 0 0) := by
    rw [start]
    exact idle.holds
  have staged : h.env.downBuffer.take (64 * 0) = (c.bytes.drop (4096 * 0)).take (64 * 0) := by
    rw [Nat.mul_zero, List.take_zero, List.take_zero]
  rw [step, next, deal_silent]
  exact ⟨_, rfl, holds, staged, idle.wire, writer⟩

/-- An erase before the first packet, and the packet in its place of the sector. -/
theorem stage_runs {w : Env} (disk : Writer c i j d) (holds : w.Holds (stored m c i j))
    (inside : i < c.sectors) (place : j < 64) (piece : c.payload[64 * i + j]? = some p)
    (staged : w.downBuffer.take (64 * j) = (c.bytes.drop (4096 * i)).take (64 * j)) :
    ∃ w', w.calls 1 (eraseFirst d ++ [.stage (d.secPackCount.toNat * packSize) p]) = some w' ∧
      w'.Holds (stored m c i (j + 1)) ∧
      w'.downBuffer.take (64 * (j + 1)) = (c.bytes.drop (4096 * i)).take (64 * (j + 1)) := by
  have fits : c.first + c.sectors ≤ 4096 := c.fits
  have size : p.toList.length = 64 := Vector.length_toList
  have bytes : p.toList = ((c.bytes.drop (4096 * i)).drop (64 * j)).take 64 := by
    rw [List.drop_drop, show 4096 * i + 64 * j = 64 * (64 * i + j) by omega]
    exact (packet_bytes piece).symm
  have offset : d.secPackCount.toNat * packSize = 64 * j := by rw [disk.count, packSize, Nat.mul_comm]
  obtain ⟨front, length⟩ := staged_front staged bytes size (by rw [holds.downBuffer]; omega)
  rw [← Nat.mul_succ] at front
  -- Whether the sector was erased by this packet or by an earlier one.
  have erased : ∃ b, w.calls 1 (eraseFirst d) = some { w with bus := b } ∧ b.Ready (stored m c i (j + 1)) := by
    rcases Nat.eq_zero_or_pos j with rfl | later
    · have address : d.secStartAddr.toNat = (c.first + i) * 4096 := by
        rw [secStartAddr_toNat (by rw [disk.cursor]; omega), disk.cursor]
      obtain ⟨b, run, ready⟩ := erase_runs holds.bus address (by omega)
      have first : d.secPackCount = 0 := BitVec.eq_of_toNat_eq disk.count
      refine ⟨b, ?_, ?_⟩
      · simp only [eraseFirst, if_pos first, Env.calls, run, Option.bind_eq_bind, Option.bind_some]
      · simpa only [stored, if_true, Nat.zero_add, Nat.one_ne_zero, if_false] using ready
    · have count := disk.count
      have first : ¬ d.secPackCount = 0 := by
        intro zero
        rw [zero] at count
        exact absurd count (by simp; omega)
      refine ⟨w.bus, by rw [eraseFirst, if_neg first]; rfl, ?_⟩
      have same : stored m c i (j + 1) = stored m c i j := by
        simp only [stored, if_neg (Nat.succ_ne_zero j), if_neg (Nat.ne_of_gt later)]
      rw [same]
      exact holds.bus
  obtain ⟨b, run, ready⟩ := erased
  refine ⟨{ w with bus := b, downBuffer := mergeSector w.downBuffer (64 * j) p.toList }, ?_,
    ⟨ready, length.trans holds.downBuffer, holds.packBuffer⟩, front⟩
  rw [calls_append, run, offset]
  rfl

/-- A packet inside a sector. -/
theorem WriteAt.inside (at_ : WriteAt m c wire i j h) (inside : i < c.sectors)
    (more : j + 1 < 64) (piece : c.payload[64 * i + j]? = some p) :
    ∃ h', step (udiskFun flashId) (.out p 0x40) h = some h' ∧ WriteAt m c wire i (j + 1) h' := by
  obtain ⟨holds, staged, seen, disk⟩ := at_
  have count := disk.count
  have left := disk.left
  obtain ⟨w', run, holds', front⟩ := stage_runs disk holds inside (by omega) piece staged
  have data := outEpDeal_data (udiskFun flashId) disk.down p 0x40
  have next := data.trans (downOnePack_inside flashId p (by rw [count]; exact more))
  have writer : Writer c i (j + 1)
      { h.disk with secPackCount := h.disk.secPackCount + 1, transferDataLen := h.disk.transferDataLen - 64 } := by
    refine ⟨disk.en, disk.up, disk.down, disk.good, disk.cursor, ?_, ?_⟩
    · show (h.disk.secPackCount + 1).toNat = j + 1
      bv_omega
    · show (h.disk.transferDataLen - 64).toNat + 64 * (64 * i + (j + 1)) = 4096 * c.sectors
      bv_omega
  rw [step, next]
  refine ⟨⟨_, w', h.wire⟩, ?_, holds', front, seen, writer⟩
  simp only [Host.deal, run, Option.bind_eq_bind, Option.bind_some]

/-- The last packet of a sector, and the sector is programmed. -/
theorem sector_runs {w : Env} (disk : Writer c i 63 d) (holds : w.Holds (stored m c i 63)) (write : ¬ c.IsRead)
    (inside : i < c.sectors) (piece : c.payload[64 * i + 63]? = some p)
    (staged : w.downBuffer.take (64 * 63) = (c.bytes.drop (4096 * i)).take (64 * 63)) :
    ∃ w', w.calls 1 [.stage (63 * packSize) p, .writeData d.secStartAddr 4096] = some w' ∧
      w'.Holds (stored m c (i + 1) 0) := by
  have fits : c.first + c.sectors ≤ 4096 := c.fits
  have count := disk.count
  obtain ⟨w₁, run, holds₁, front⟩ := stage_runs disk holds inside (by decide) piece staged
  have later : eraseFirst d = [] := if_neg (by intro zero; rw [zero] at count; cases count)
  rw [later, count, List.nil_append] at run
  have full : w₁.downBuffer = (c.bytes.drop (4096 * i)).take 4096 :=
    (List.take_of_length_le (Nat.le_of_eq holds₁.downBuffer)).symm.trans front
  have address : d.secStartAddr.toNat = (c.first + i) * 4096 := by
    rw [secStartAddr_toNat (by rw [disk.cursor]; omega), disk.cursor]
  obtain ⟨b, sent, program, size, ready⟩ := writeData_runs holds₁.bus holds₁.downBuffer address (by omega)
  have next : (stored m c i 64).program (4096 * (c.first + i)) w₁.downBuffer = stored m c (i + 1) 0 :=
    stored_next write inside full
  rw [next] at ready
  refine ⟨{ w₁ with bus := b, downBuffer := sent }, ?_, ready, size, holds₁.packBuffer⟩
  have both := calls_append 1 [.stage (63 * packSize) p] [.writeData d.secStartAddr 4096] w
  rw [List.singleton_append] at both
  rw [both, run, Option.bind_some]
  simp only [Env.calls, program, Option.bind_eq_bind, Option.bind_some]

/-- The last packet of a sector that is not the last. -/
theorem WriteAt.sector (at_ : WriteAt m c wire i 63 h) (write : ¬ c.IsRead) (inside : i + 1 < c.sectors)
    (piece : c.payload[64 * i + 63]? = some p) :
    ∃ h', step (udiskFun flashId) (.out p 0x40) h = some h' ∧ WriteAt m c wire (i + 1) 0 h' := by
  obtain ⟨holds, staged, seen, disk⟩ := at_
  have fits : c.first + c.sectors ≤ 4096 := c.fits
  have cursor := disk.cursor
  have packets : 64 * (64 * (i + 1) + 0) = 64 + 64 * (64 * i + 63) := by omega
  have left := disk.left
  obtain ⟨w', run, holds'⟩ := sector_runs disk holds write (by omega) piece staged
  have more : ¬ h.disk.transferDataLen - 64 = 0 := by bv_omega
  have data := outEpDeal_data (udiskFun flashId) disk.down p 0x40
  have next := data.trans (downOnePack_sector flashId p disk.count more)
  have writer : Writer c (i + 1) 0 { h.disk with
      secPackCount := 0, transferDataLen := h.disk.transferDataLen - 64, curSecLba := h.disk.curSecLba + 1 } := by
    refine ⟨disk.en, disk.up, disk.down, disk.good, ?_, rfl, ?_⟩
    · show (h.disk.curSecLba + 1).toNat = c.first + (i + 1)
      bv_omega
    · have rest : (h.disk.transferDataLen - 64).toNat + 64 = h.disk.transferDataLen.toNat := by bv_omega
      show (h.disk.transferDataLen - 64).toNat + 64 * (64 * (i + 1) + 0) = 4096 * c.sectors
      rw [packets, ← Nat.add_assoc, rest, left]
  have front : w'.downBuffer.take (64 * 0) = (c.bytes.drop (4096 * (i + 1))).take (64 * 0) := by
    rw [Nat.mul_zero, List.take_zero, List.take_zero]
  rw [step, next]
  refine ⟨⟨_, w', h.wire⟩, ?_, holds', front, seen, writer⟩
  simp only [Host.deal, run, Option.bind_eq_bind, Option.bind_some]

/-- The last packet of the transfer: the CSW follows. -/
theorem WriteAt.last (at_ : WriteAt m c wire i 63 h) (write : ¬ c.IsRead) (last : i + 1 = c.sectors)
    (piece : c.payload[64 * i + 63]? = some p) :
    ∃ h', step (udiskFun flashId) (.out p 0x40) h = some h' ∧ CswDue (stored m c c.sectors 0) c wire h' := by
  obtain ⟨holds, staged, seen, disk⟩ := at_
  have fits : c.first + c.sectors ≤ 4096 := c.fits
  have left := disk.left
  obtain ⟨w₁, run, holds₁⟩ := sector_runs disk holds write (by omega) piece staged
  rw [last] at holds₁
  have done : h.disk.transferDataLen - 64 = 0 := by bv_omega
  have data := outEpDeal_data (udiskFun flashId) disk.down p 0x40
  have next := data.trans (downOnePack_final flashId p disk.count done)
  obtain ⟨w', reply, holds', sending⟩ := upCsw_packet holds₁ h.disk.afterLast
  rw [show h.disk.afterLast.cswBytes = goodCsw c from disk.good] at sending
  let e := { (upCsw h.disk.afterLast).1 with secPackCount := 0, curSecLba := h.disk.curSecLba + 1 }
  have idle : Idle (stored m c c.sectors 0) wire ⟨e, w', h.wire⟩ := ⟨holds', disk.en, rfl, rfl, rfl, seen⟩
  rw [step, next]
  refine ⟨⟨e, w', h.wire⟩, ?_, idle, sending⟩
  simp only [Host.deal, calls_append, run, reply, Option.bind_eq_bind, Option.bind_some, e]

/-- The cells outside the extent of `c` are those of `m`. -/
def Spared (m : Mem) (c : Io) (g : Host) : Prop :=
  ∀ x, x < 4096 * c.first ∨ 4096 * (c.first + c.sectors) ≤ x → g.flash x = m x

/-- The cells after the whole write. -/
def written (m : Mem) (c : Io) : Mem := m.write (4096 * c.first) c.bytes

theorem stored_all (write : ¬ c.IsRead) : stored m c c.sectors 0 = written m c := by
  simp only [stored, if_true, written]
  rw [List.take_of_length_le (Nat.le_of_eq (Io.bytes_length write))]

theorem written_outside (write : ¬ c.IsRead) {x : Nat}
    (out : x < 4096 * c.first ∨ 4096 * (c.first + c.sectors) ≤ x) : written m c x = m x := by
  apply Mem.write_out
  rw [Io.bytes_length write]
  omega

/-- The write after `k` of its packets. -/
def WritePhase (m : Mem) (c : Io) (wire : List (List Byte)) (k : Nat) (h : Host) : Prop :=
  (k < 64 * c.sectors ∧ WriteAt m c wire (k / 64) (k % 64) h) ∨
  (k = 64 * c.sectors ∧ CswDue (written m c) c wire h)

theorem WritePhase.spared {k : Nat} (phase : WritePhase m c wire k h) (write : ¬ c.IsRead) : Spared m c h := by
  intro x out
  rcases phase with ⟨inside, at_⟩ | ⟨-, due⟩
  · rw [Host.flash, at_.holds.bus.stored]
    exact stored_outside write (by omega) out
  · rw [Host.flash, due.idle.holds.bus.stored]
    exact written_outside write out

/-- One packet: inside a sector, at its end, or at the end of the transfer. -/
theorem WritePhase.next {k : Nat} (phase : WritePhase m c wire k h) (write : ¬ c.IsRead)
    (piece : c.payload[k]? = some p) :
    ∃ h', step (udiskFun flashId) (.out p 0x40) h = some h' ∧ WritePhase m c wire (k + 1) h' := by
  have more : k < 64 * c.sectors := by
    rw [← Io.payload_length write]
    exact (List.getElem?_eq_some_iff.mp piece).1
  obtain ⟨-, at_⟩ := phase.resolve_right (by rintro ⟨all, -⟩; omega)
  have place : 64 * (k / 64) + k % 64 = k := Nat.div_add_mod k 64
  rw [← place] at piece
  by_cases inside : k % 64 + 1 < 64
  · obtain ⟨h', run, next⟩ := at_.inside flashId (by omega) inside piece
    rw [show k / 64 = (k + 1) / 64 by omega, show k % 64 + 1 = (k + 1) % 64 by omega] at next
    exact ⟨h', run, Or.inl ⟨by omega, next⟩⟩
  · have whole : k % 64 = 63 := by omega
    rw [whole] at at_ piece
    by_cases last : k / 64 + 1 = c.sectors
    · obtain ⟨h', run, due⟩ := at_.last flashId write last piece
      rw [stored_all write] at due
      exact ⟨h', run, Or.inr ⟨by omega, due⟩⟩
    · obtain ⟨h', run, next⟩ := at_.sector flashId write (by omega) piece
      rw [show k / 64 + 1 = (k + 1) / 64 by omega, show 0 = (k + 1) % 64 by omega] at next
      exact ⟨h', run, Or.inl ⟨by omega, next⟩⟩

/-- **A write runs to its end**, stores its payload, and spares the other cells. -/
theorem Idle.writes (idle : Idle m wire h) (write : ¬ c.IsRead) :
    Run.Throughout (step (udiskFun flashId)) (Spared m c) (Idle (written m c) (wire ++ [goodCsw c])) c.script h := by
  have some_ : 0 < c.sectors := c.nonempty
  obtain ⟨h₁, run, at_⟩ := idle.write flashId write
  have start : WritePhase m c wire 0 h₁ := Or.inl ⟨by omega, at_⟩
  have go : ∀ k e g, (c.payload.map fun p => HostEvent.out p 0x40)[k]? = some e → WritePhase m c wire k g →
      Spared m c g ∧ ∃ g', step (udiskFun flashId) e g = some g' ∧ WritePhase m c wire (k + 1) g' := by
    intro k e g found phase
    rw [List.getElem?_map] at found
    obtain ⟨p, piece, rfl⟩ := Option.map_eq_some_iff.mp found
    exact ⟨phase.spared write, phase.next flashId write piece⟩
  have packets := Run.throughout_indexed go start
  rw [List.length_map, Io.payload_length write] at packets
  have reply : ∀ g, WritePhase m c wire (64 * c.sectors) g → Run.Throughout (step (udiskFun flashId)) (Spared m c)
      (Idle (written m c) (wire ++ [goodCsw c])) [.readIn] g := by
    rintro g phase
    have spared := phase.spared write
    rcases phase with ⟨less, -⟩ | ⟨-, due⟩
    · omega
    · obtain ⟨g', next, last⟩ := due.readIn flashId
      exact Run.Throughout.next spared next (Run.Throughout.done last)
  have before : Spared m c h := by
    intro x _
    rw [Host.flash, idle.holds.bus.stored]
  rw [Io.script, if_neg write]
  exact Run.Throughout.next before run (Run.throughout_append packets reply)

end Writes

end OffLineProgrammer.UsbDisk
