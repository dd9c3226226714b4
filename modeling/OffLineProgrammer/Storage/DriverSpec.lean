import OffLineProgrammer.Storage.Flash25qxx

/-!
# What the driver functions do to a ready chip

One theorem per function, from a ready bus to a ready bus: the status register
is polled to the end, an erase clears the sector of its byte address, a read
returns the cells, a page write inside one page programs them, and
`flashWriteNoCheck` programs any range. Callers use these and never unfold a
transfer.
-/

namespace OffLineProgrammer.Storage
set_option autoImplicit false
open OffLineProgrammer.Lib

theorem writeEnable_ready {b : Bus} {m : Mem} (ready : b.Ready m) :
    (writeEnable b).Ready m ∧ (writeEnable b).chip.wel = true := by
  have run : writeEnable b = b.after [CMD_FLASH_WREN] := transaction ready.released [CMD_FLASH_WREN]
  have chip : b.chip.commit [CMD_FLASH_WREN] = { b.chip with wel := true } := by
    simp [Chip.commit, ready.idle, CMD_FLASH_WREN, CMD_FLASH_RDSR]
  rw [run, Bus.after, chip]
  exact ⟨⟨ready.released, ready.idle, ready.stored⟩, rfl⟩

/-- One poll answers the status register and lets time pass. -/
theorem readStatusReg_run {b : Bus} (released : b.selected = false) :
    (flashReadStatusReg b).2 = b.chip.status ∧ (flashReadStatusReg b).1.selected = false ∧
    (flashReadStatusReg b).1.chip = { b.chip with busy := b.chip.busy - 1 } := by
  simp [flashReadStatusReg, spiCs, spiRw, clockByte, released, Chip.commit, Chip.drive, CMD_FLASH_RDSR]

theorem status_busy (c : Chip) : c.status &&& 0x01#8 = 0x01#8 ↔ c.busy ≠ 0 := by
  unfold Chip.status
  by_cases idle : c.busy = 0 <;> cases c.wel <;> simp [idle]

/-- The poll goes on as long as the chip is busy. -/
theorem flashWaitSRPoll_run {b : Bus} (released : b.selected = false) :
    flashWaitSRPoll b =
      some (if b.chip.busy = 0 then .inr (flashReadStatusReg b).1 else .inl (flashReadStatusReg b).1) := by
  obtain ⟨answer, -, -⟩ := readStatusReg_run released
  have bit := status_busy b.chip
  by_cases busy : b.chip.busy = 0
  · have clear : ¬ (flashReadStatusReg b).2 &&& 0x01#8 = 0x01#8 := by
      rw [answer, bit]
      exact fun set => set busy
    simp [flashWaitSRPoll, clear, busy]
  · have set : (flashReadStatusReg b).2 &&& 0x01#8 = 0x01#8 := by
      rw [answer, bit]
      exact busy
    simp [flashWaitSRPoll, set, busy]

/-- **Status polling ends** with the chip ready and its cells untouched. -/
theorem flashWaitSR_ready {b : Bus} {m : Mem} (released : b.selected = false) (stored : b.chip.mem = m) :
    ∃ b', flashWaitSR b = some b' ∧ b'.Ready m := by
  refine Loop.exec_returns (fun s : Bus => s.selected = false ∧ s.chip.mem = m) (fun s : Bus => s.Ready m)
    (fun s => s.chip.busy) ?_ ⟨released, stored⟩ (Nat.lt_succ_self _)
  intro s inv
  obtain ⟨-, up, chip⟩ := readStatusReg_run inv.1
  rw [flashWaitSRPoll_run inv.1]
  by_cases busy : s.chip.busy = 0
  · right
    rw [if_pos busy]
    exact ⟨(flashReadStatusReg s).1, rfl, up, by simp [chip, busy], by rw [chip]; exact inv.2⟩
  · left
    rw [if_neg busy]
    refine ⟨(flashReadStatusReg s).1, rfl, ⟨up, by rw [chip]; exact inv.2⟩, ?_⟩
    rw [chip]
    simp only
    omega

/-- A sector erase is one transaction and the wait for its end. -/
theorem flashEraseSector_run {b : Bus} (enabled : (writeEnable b).selected = false) (address : Nat) :
    flashEraseSector address b = flashWaitSR ((writeEnable b).after (command CMD_FLASH_SECTOR_ERASE address)) :=
  congrArg flashWaitSR (transaction enabled (command CMD_FLASH_SECTOR_ERASE address))

/-- **An erase clears the sector that holds its byte address.** -/
theorem flashEraseSector_ready {b : Bus} {m : Mem} (ready : b.Ready m) (address : Nat) :
    ∃ b', flashEraseSector address b = some b' ∧
      b'.Ready (m.erase (address % chipSize / spiFlashSectorSize * spiFlashSectorSize) spiFlashSectorSize) := by
  obtain ⟨enabled, latch⟩ := writeEnable_ready ready
  have cells : ((writeEnable b).chip.commit (command CMD_FLASH_SECTOR_ERASE address)).mem =
      m.erase (address % chipSize / spiFlashSectorSize * spiFlashSectorSize) spiFlashSectorSize := by
    simp [command, Chip.commit, Chip.start, enabled.idle, enabled.stored, latch, addr24_bytes,
      CMD_FLASH_SECTOR_ERASE, CMD_FLASH_RDSR, CMD_FLASH_WREN]
  rw [flashEraseSector_run enabled.released]
  exact flashWaitSR_ready enabled.released cells

/-- A read command changes nothing when the select rises. -/
theorem commit_read {c : Chip} (idle : c.busy = 0) (args : List Byte) :
    (c.commit (CMD_FLASH_READ :: args)).mem = c.mem ∧ (c.commit (CMD_FLASH_READ :: args)).busy = 0 := by
  simp only [Chip.commit, idle, CMD_FLASH_READ, CMD_FLASH_RDSR, CMD_FLASH_WREN, CMD_FLASH_SECTOR_ERASE,
    CMD_FLASH_BYTE_PROG]
  rcases args with _ | ⟨hi, _ | ⟨mid, _ | ⟨lo, _ | ⟨d, ds⟩⟩⟩⟩ <;> cases c.wel <;> simp [idle]

/-- A read of any range leaves the chip as it is. -/
theorem flashReadData_keeps {b : Bus} {m : Mem} (ready : b.Ready m) (addr : Nat) (data : List Byte) :
    (flashReadData addr data b).1.Ready m := by
  have run : (flashReadData addr data b).1 = b.after (command CMD_FLASH_READ addr ++ data) :=
    transaction_data ready.released (command CMD_FLASH_READ addr) data
  have quiet := commit_read ready.idle ((command CMD_FLASH_READ addr).tail ++ data)
  rw [run]
  exact ⟨ready.released, quiet.2, quiet.1.trans ready.stored⟩

/-- **A read returns the cells** of a range that does not run off the part. -/
theorem flashReadData_ready {b : Bus} {m : Mem} (ready : b.Ready m) (addr : Nat) (data : List Byte)
    (fits : addr + data.length ≤ chipSize) (nonempty : 0 < data.length) :
    (flashReadData addr data b).1.Ready m ∧ (flashReadData addr data b).2 = m.read addr data.length := by
  have below : addr % chipSize = addr := Nat.mod_eq_of_lt (by omega)
  constructor
  · exact flashReadData_keeps ready addr data
  · have sel : (spiCs 0 b).selected = true := by simp [spiCs, ready.released]
    have sent := spiRw_bus (command CMD_FLASH_READ addr) sel
    have header : (spiRw (command CMD_FLASH_READ addr) (spiCs 0 b)).1.shifted = command CMD_FLASH_READ addr := by
      rw [sent]; simp [spiCs, ready.released]
    have chip : (spiRw (command CMD_FLASH_READ addr) (spiCs 0 b)).1.chip = b.chip := by
      rw [sent]; simp [spiCs, ready.released]
    have cells := spiRw_read data (by rw [sent]; exact sel) (by rw [chip]; exact ready.idle) header
    have run : (flashReadData addr data b).2 =
        (spiRw data (spiRw (command CMD_FLASH_READ addr) (spiCs 0 b)).1).2 := rfl
    rw [run, cells, chip, ready.stored, addr24_bytes, below]
    apply List.map_congr_left
    intro i hi
    have := List.mem_range.mp hi
    rw [List.length_nil, Nat.add_zero, Nat.mod_eq_of_lt (by omega)]

/-- Programming no bytes at all leaves the cells alone, whatever the latch. -/
theorem commit_program {c : Chip} (idle : c.busy = 0) (latch : c.wel = true) (addr : Nat) {data : List Byte}
    (page : addr % spiFlashPageSize + data.length ≤ spiFlashPageSize) :
    (c.commit (command CMD_FLASH_BYTE_PROG addr ++ data)).mem = c.mem.program (addr % chipSize) data := by
  cases data with
  | nil =>
    simp [command, Chip.commit, idle, latch, CMD_FLASH_RDSR, CMD_FLASH_WREN, CMD_FLASH_SECTOR_ERASE,
      CMD_FLASH_BYTE_PROG]
  | cons d ds =>
    have offset : addr % chipSize % spiFlashPageSize = addr % spiFlashPageSize := by
      simp only [chipSize, spiFlashPageSize]; omega
    have cells : (c.commit (command CMD_FLASH_BYTE_PROG addr ++ (d :: ds))).mem =
        programWrap c.mem (addr % chipSize / spiFlashPageSize * spiFlashPageSize)
          (addr % chipSize % spiFlashPageSize) (d :: ds) := by
      simp [command, Chip.commit, Chip.start, idle, latch, addr24_bytes, CMD_FLASH_RDSR, CMD_FLASH_WREN,
        CMD_FLASH_BYTE_PROG]
    rw [cells, programWrap_fits (d :: ds) (by rw [offset]; exact page)]
    congr 1
    simp only [chipSize, spiFlashPageSize]
    omega

/-- What comes back for the data of a page write. -/
def pageReply (b : Bus) (addr : Nat) (data : List Byte) : List Byte :=
  (spiRw data (spiRw (command CMD_FLASH_BYTE_PROG addr) (spiCs 0 (writeEnable b))).1).2

/-- A page write is one transaction and the wait for its end. -/
theorem flashWritePage_run {b : Bus} (enabled : (writeEnable b).selected = false) (addr : Nat) (data : List Byte) :
    flashWritePage addr data b =
      (flashWaitSR ((writeEnable b).after (command CMD_FLASH_BYTE_PROG addr ++ data))).map
        fun b' => (b', pageReply b addr data) := by
  have bus : spiCs 1 (spiRw data (spiRw (command CMD_FLASH_BYTE_PROG addr) (spiCs 0 (writeEnable b))).1).1 =
      (writeEnable b).after (command CMD_FLASH_BYTE_PROG addr ++ data) :=
    transaction_data enabled (command CMD_FLASH_BYTE_PROG addr) data
  simp only [flashWritePage, pageReply, bus]
  cases flashWaitSR ((writeEnable b).after (command CMD_FLASH_BYTE_PROG addr ++ data)) <;> rfl

theorem length_pageReply (b : Bus) (addr : Nat) (data : List Byte) : (pageReply b addr data).length = data.length :=
  spiRw_length data _

/-- **A page write inside one page** programs its bytes. -/
theorem flashWritePage_ready {b : Bus} {m : Mem} (ready : b.Ready m) (addr : Nat) (data : List Byte)
    (page : addr % spiFlashPageSize + data.length ≤ spiFlashPageSize) :
    ∃ b' sent, flashWritePage addr data b = some (b', sent) ∧ b'.Ready (m.program (addr % chipSize) data) ∧
      sent.length = data.length := by
  obtain ⟨enabled, latch⟩ := writeEnable_ready ready
  have cells := commit_program enabled.idle latch addr page
  rw [enabled.stored] at cells
  obtain ⟨b', wait, done⟩ := flashWaitSR_ready
    (b := (writeEnable b).after (command CMD_FLASH_BYTE_PROG addr ++ data)) enabled.released cells
  refine ⟨b', pageReply b addr data, ?_, done, length_pageReply b addr data⟩
  rw [flashWritePage_run enabled.released, wait, Option.map_some]

/-- A page write of any bytes ends. -/
theorem flashWritePage_returns {b : Bus} {m : Mem} (ready : b.Ready m) (addr : Nat) (data : List Byte) :
    ∃ b' sent m', flashWritePage addr data b = some (b', sent) ∧ b'.Ready m' ∧ sent.length = data.length := by
  obtain ⟨enabled, -⟩ := writeEnable_ready ready
  obtain ⟨b', wait, done⟩ := flashWaitSR_ready
    (b := (writeEnable b).after (command CMD_FLASH_BYTE_PROG addr ++ data)) enabled.released rfl
  refine ⟨b', pageReply b addr data, _, ?_, done, length_pageReply b addr data⟩
  rw [flashWritePage_run enabled.released, wait, Option.map_some]

/-- The variables of `flashWriteNoCheck` after a pass that goes on. -/
def NoCheck.next (s : NoCheck) (bus : Bus) (sent : List Byte) : NoCheck where
  bus := bus
  addr := u32 (s.addr + s.pageremain)
  past := s.past ++ sent
  data := s.data.drop s.pageremain
  len := s.len - s.pageremain
  pageremain := if s.len - s.pageremain > spiFlashPageSize then spiFlashPageSize else u16 (s.len - s.pageremain)

/-- **A pass writes one page**, and leaves the loop with the last. -/
theorem noCheckPass_run (s : NoCheck) :
    noCheckPass s = (flashWritePage s.addr (s.data.take s.pageremain) s.bus).map fun r =>
      if s.len = s.pageremain then .inr (r.1, s.past ++ r.2 ++ s.data.drop s.pageremain) else .inl (s.next r.1 r.2) := by
  unfold noCheckPass
  cases flashWritePage s.addr (s.data.take s.pageremain) s.bus with
  | none => rfl
  | some r =>
    by_cases last : s.len = s.pageremain
    · simp [last]
    · simp only [Option.bind_eq_bind, Option.bind_some, Option.map_some, if_neg last]
      rfl

/-- The size of the first piece: to the end of the block of `size`, or all. -/
theorem first_piece_min (addr len size : Nat) (small : size < 65536) :
    (if len ≤ u16 (size - addr % size) then u16 len else u16 (size - addr % size)) = min len (size - addr % size) := by
  have room : u16 (size - addr % size) = size - addr % size := u16_of_lt (by omega)
  rw [room]
  by_cases all : len ≤ size - addr % size
  · rw [if_pos all, u16_of_lt (by omega)]
    exact (Nat.min_eq_left all).symm
  · rw [if_neg all]
    exact (Nat.min_eq_right (Nat.le_of_not_le all)).symm

/-- The size of a further piece: a whole block, or all. -/
theorem next_piece_min (len size : Nat) (small : size < 65536) : (if len > size then size else u16 len) = min len size := by
  by_cases more : len > size
  · rw [if_pos more]
    exact (Nat.min_eq_right (Nat.le_of_lt more)).symm
  · rw [if_neg more, u16_of_lt (by omega)]
    exact (Nat.min_eq_left (Nat.le_of_not_lt more)).symm

/-- What keeps the passes of `flashWriteNoCheck` going whatever the address is. -/
structure NoCheck.Alive (s : NoCheck) : Prop where
  ready : ∃ m, s.bus.Ready m
  piece : s.pageremain ≤ s.len
  positive : 0 < s.len → 0 < s.pageremain

theorem NoCheck.Alive.pass {s : NoCheck} (alive : s.Alive) :
    (∃ s', noCheckPass s = some (.inl s') ∧ s'.Alive ∧ s'.len < s.len) ∨
    (∃ r : Bus × List Byte, noCheckPass s = some (.inr r) ∧ ∃ m, r.1.Ready m) := by
  obtain ⟨⟨m, ready⟩, piece, positive⟩ := alive
  obtain ⟨b', sent, m', run, done, -⟩ := flashWritePage_returns ready s.addr (s.data.take s.pageremain)
  rw [noCheckPass_run, run, Option.map_some]
  by_cases last : s.len = s.pageremain
  · right
    rw [if_pos last]
    exact ⟨(b', s.past ++ sent ++ s.data.drop s.pageremain), rfl, m', done⟩
  · left
    rw [if_neg last]
    have size := next_piece_min (s.len - s.pageremain) spiFlashPageSize (by decide)
    have page : 0 < spiFlashPageSize := by decide
    refine ⟨s.next b' sent, rfl, ⟨⟨m', done⟩, ?_, fun more => ?_⟩, ?_⟩
    all_goals simp only [NoCheck.next, size] at *
    all_goals omega

/-- **`flashWriteNoCheck` ends for every address and length.** -/
theorem flashWriteNoCheck_returns {b : Bus} {m : Mem} (ready : b.Ready m) (addr : Nat) (data : List Byte) :
    ∃ b' sent m', flashWriteNoCheck addr data b = some (b', sent) ∧ b'.Ready m' := by
  have start : NoCheck.Alive ⟨b, addr, [], data, data.length,
      if data.length ≤ u16 (spiFlashPageSize - addr % spiFlashPageSize) then u16 data.length
      else u16 (spiFlashPageSize - addr % spiFlashPageSize)⟩ := by
    rw [first_piece_min addr data.length spiFlashPageSize (by decide)]
    have room := Nat.mod_lt addr (show 0 < spiFlashPageSize by decide)
    exact ⟨⟨m, ready⟩, Nat.min_le_left .., fun nonempty => Nat.lt_min.mpr ⟨nonempty, Nat.sub_pos_of_lt room⟩⟩
  obtain ⟨r, run, m', done⟩ := Loop.exec_returns NoCheck.Alive (fun r : Bus × List Byte => ∃ m, r.1.Ready m)
    (fun s => s.len) (fun s alive => alive.pass) start (Nat.lt_succ_self data.length)
  exact ⟨r.1, r.2, m', run, done⟩

/-- What holds at the head of each pass of `flashWriteNoCheck`: the bytes moved
over are programmed, and the next piece ends at a page end or at the last byte. -/
structure NoCheck.At (m : Mem) (addr : Nat) (data : List Byte) (done : Nat) (s : NoCheck) : Prop where
  within : done < data.length
  bus : s.bus.Ready (m.program addr (data.take done))
  cursor : s.addr = addr + done
  rest : s.data = data.drop done
  length : s.len = data.length - done
  pastLength : s.past.length = done
  positive : 0 < s.pageremain
  piece : s.pageremain ≤ s.len
  page : s.addr % spiFlashPageSize + s.pageremain ≤ spiFlashPageSize
  full : s.pageremain < s.len → (s.addr + s.pageremain) % spiFlashPageSize = 0

/-- The piece a pass writes extends the programmed prefix. -/
theorem NoCheck.At.write {m : Mem} {addr done : Nat} {data : List Byte} {s : NoCheck}
    (at_ : s.At m addr data done) (fits : addr + data.length ≤ chipSize) :
    ∃ bus sent, flashWritePage s.addr (s.data.take s.pageremain) s.bus = some (bus, sent) ∧
      bus.Ready (m.program addr (data.take (done + s.pageremain))) ∧ sent.length = s.pageremain := by
  have within := at_.within
  have len := at_.length
  have piece := at_.piece
  have size : (s.data.take s.pageremain).length = s.pageremain := by
    rw [at_.rest, List.length_take, List.length_drop]; omega
  obtain ⟨bus, sent, run, ready, same⟩ := flashWritePage_ready at_.bus s.addr
    (s.data.take s.pageremain) (by rw [size]; exact at_.page)
  have front : (data.take done).length = done := by rw [List.length_take]; omega
  have whole : (m.program addr (data.take done)).program (s.addr % chipSize) (s.data.take s.pageremain) =
      m.program addr (data.take (done + s.pageremain)) := by
    rw [at_.cursor, Nat.mod_eq_of_lt (by omega), at_.rest, List.take_add, Mem.program_append, front]
  rw [whole] at ready
  exact ⟨bus, sent, run, ready, same.trans size⟩

/-- One pass: the last piece leaves the loop, another piece moves the cursors. -/
theorem noCheckPass_at {m : Mem} {addr done : Nat} {data : List Byte} {s : NoCheck}
    (at_ : s.At m addr data done) (fits : addr + data.length ≤ chipSize) :
    (∃ s', noCheckPass s = some (.inl s') ∧ s'.At m addr data (done + s.pageremain) ∧ s'.len < s.len) ∨
    (∃ bus sent, noCheckPass s = some (.inr (bus, sent)) ∧ bus.Ready (m.program addr data) ∧
      sent.length = data.length) := by
  obtain ⟨bus, sent, run, ready, size⟩ := at_.write fits
  have within := at_.within
  have len := at_.length
  have piece := at_.piece
  have positive := at_.positive
  have cursor := at_.cursor
  have page := at_.page
  simp only [chipSize, spiFlashPageSize] at *
  rw [noCheckPass_run, run, Option.map_some]
  by_cases last : s.len = s.pageremain
  · right
    have all : done + s.pageremain = data.length := by omega
    refine ⟨bus, s.past ++ sent ++ s.data.drop s.pageremain, by rw [if_pos last], ?_, ?_⟩
    · rw [all, List.take_length] at ready
      exact ready
    · rw [at_.rest]
      simp only [List.length_append, List.length_drop, at_.pastLength, size]
      omega
  · left
    have boundary := at_.full (by omega)
    simp only [spiFlashPageSize] at boundary
    have next := next_piece_min (s.len - s.pageremain) spiFlashPageSize (by decide)
    refine ⟨s.next bus sent, by rw [if_neg last], ?_, ?_⟩
    · constructor
      · omega
      · exact ready
      · simp only [NoCheck.next, cursor]
        rw [u32_of_lt (by omega)]; omega
      · simp only [NoCheck.next, at_.rest, List.drop_drop]
      · simp only [NoCheck.next]; omega
      · simp only [NoCheck.next, List.length_append, at_.pastLength, size]
      all_goals simp only [NoCheck.next, next, u32, spiFlashPageSize]
      all_goals omega
    · simp only [NoCheck.next]; omega

/-- The first piece is not empty, and ends with its block if any bytes are left. -/
theorem first_piece (addr len size : Nat) (small : size < 65536) (block : 0 < size) (nonempty : 0 < len) :
    ∃ piece, (if len ≤ u16 (size - addr % size) then u16 len else u16 (size - addr % size)) = piece ∧
      0 < piece ∧ piece ≤ len ∧ addr % size + piece ≤ size ∧ (piece < len → addr % size + piece = size) := by
  have offset := Nat.mod_lt addr block
  refine ⟨_, first_piece_min addr len size small, ?_⟩
  omega

/-- **`flashWriteNoCheck` programs the whole range**: the loop ends, no piece
crosses a page end, and cells outside the range keep their value. -/
theorem flashWriteNoCheck_ready {b : Bus} {m : Mem} (ready : b.Ready m) (addr : Nat) (data : List Byte)
    (fits : addr + data.length ≤ chipSize) (nonempty : 0 < data.length) :
    ∃ b' sent, flashWriteNoCheck addr data b = some (b', sent) ∧ b'.Ready (m.program addr data) ∧
      sent.length = data.length := by
  obtain ⟨piece, size, positive, within, page, full⟩ :=
    first_piece addr data.length spiFlashPageSize (by decide) (by decide) nonempty
  have start : NoCheck.At m addr data 0 ⟨b, addr, [], data, data.length, piece⟩ := by
    refine ⟨nonempty, ?_, rfl, rfl, rfl, rfl, positive, within, page, ?_⟩
    · rw [List.take_zero, Mem.program_nil]
      exact ready
    · intro more
      have edge := full more
      simp only [spiFlashPageSize] at edge ⊢
      omega
  obtain ⟨r, run, post⟩ := Loop.exec_returns (fun s => ∃ done, NoCheck.At m addr data done s)
    (fun r : Bus × List Byte => r.1.Ready (m.program addr data) ∧ r.2.length = data.length) (fun s => s.len)
    (fun s inv => by
      obtain ⟨done, at_⟩ := inv
      rcases noCheckPass_at at_ fits with ⟨s', pass, next, less⟩ | ⟨bus, sent, pass, post⟩
      · exact Or.inl ⟨s', pass, ⟨_, next⟩, less⟩
      · exact Or.inr ⟨(bus, sent), pass, post⟩) ⟨0, start⟩ (Nat.lt_succ_self data.length)
  refine ⟨r.1, r.2, ?_, post⟩
  simp only [flashWriteNoCheck, size]
  exact run

end OffLineProgrammer.Storage
