import OffLineProgrammer.Lib.Pieces
import OffLineProgrammer.Storage.WriteData

/-!
# What a write leaves in the caller's buffer

The transfer stores the byte it receives over the byte it sent. A page program
of the sector buffer spoils only that; one of the caller's memory spoils the
caller's. `Line` is what the part does besides its cells: what it returns while
nothing drives the line, and how long it is busy. With it the content and the
clock after each command are functions of those before, so the bytes that come
back over a directly written piece are known from the flash content, the range
and the data alone.
-/

namespace OffLineProgrammer.Storage
set_option autoImplicit false
open OffLineProgrammer.Lib

/-- The bytes read while nothing drives the line, and the busy polls of a command. -/
structure Line where
  noise : Nat → Byte
  latency : List Byte → Nat

/-- A ready bus at clock `t` of a line. -/
structure Bus.At (b : Bus) (w : Line) (m : Mem) (t : Nat) : Prop extends b.Ready m where
  noise : b.noise = w.noise
  latency : b.chip.latency = w.latency
  clock : b.clocks = t

namespace Line

variable (w : Line)

/-- The bytes that come back in `n` clocks from `t`. -/
def heard (t n : Nat) : List Byte := (List.range n).map fun i => w.noise (t + i)

@[simp] theorem length_heard (t n : Nat) : (w.heard t n).length = n := by
  simp [heard]

/-- Clocks of a command that is polled to its end, with the enable before it. -/
def spent (cmd : List Byte) : Nat := 1 + cmd.length + 2 * (w.latency cmd + 1)

/-- A page program: content and clock. -/
def page (s : Mem × Nat) (p : Nat × List Byte) : Mem × Nat :=
  (s.1.program (p.1 % chipSize) p.2, s.2 + w.spent (command CMD_FLASH_BYTE_PROG p.1 ++ p.2))

/-- The bytes that come back over the data of page programs. -/
def echo : Nat → List (Nat × List Byte) → List Byte
  | _, [] => []
  | t, p :: ps => w.heard (t + 5) p.2.length ++ echo (t + w.spent (command CMD_FLASH_BYTE_PROG p.1 ++ p.2)) ps

/-- Every byte of the piece reads as erased. -/
def Blank (m : Mem) (p : Nat × List Byte) : Prop := ∀ i < p.2.length, m (p.1 % chipSize + i) = 0xFF#8

instance (m : Mem) (p : Nat × List Byte) : Decidable (Blank m p) := by
  unfold Blank; infer_instance

/-- The clock when the sector of a piece has been read into the buffer. -/
def checked (t : Nat) : Nat := t + (4 + spiFlashSectorSize)

/-- A sector of a write: content and clock. -/
def sector (s : Mem × Nat) (p : Nat × List Byte) : Mem × Nat :=
  let secpos := p.1 / spiFlashSectorSize
  let base := secpos * spiFlashSectorSize
  if Blank s.1 p then (pieces spiFlashPageSize p.1 p.2).foldl w.page (s.1, checked s.2)
  else
    (pieces spiFlashPageSize base
      (mergeSector (s.1.read (base % chipSize) spiFlashSectorSize) (p.1 % spiFlashSectorSize) p.2)).foldl w.page
      (s.1.erase (secpos % chipSize / spiFlashSectorSize * spiFlashSectorSize) spiFlashSectorSize,
        checked s.2 + w.spent (command CMD_FLASH_SECTOR_ERASE secpos))

/-- What the caller's bytes of a piece are after it is written. -/
def left (s : Mem × Nat) (p : Nat × List Byte) : List Byte :=
  if Blank s.1 p then w.echo (checked s.2) (pieces spiFlashPageSize p.1 p.2) else p.2

/-- What the caller's bytes of a whole write are afterwards. -/
def buffer : Mem × Nat → List (Nat × List Byte) → List Byte
  | _, [] => []
  | s, p :: ps => w.left s p ++ buffer (w.sector s p) ps

/-- Each piece that is blank when its turn comes gets back the bytes it sends. -/
def Echoed : Mem × Nat → List (Nat × List Byte) → Prop
  | _, [] => True
  | s, p :: ps =>
    (Blank s.1 p → w.echo (checked s.2) (pieces spiFlashPageSize p.1 p.2) = p.2) ∧ Echoed (w.sector s p) ps

theorem length_echo : ∀ (t : Nat) (ps : List (Nat × List Byte)),
    (w.echo t ps).length = (ps.map Prod.snd).flatten.length
  | _, [] => rfl
  | t, p :: ps => by
    rw [echo, List.length_append, length_heard, length_echo _ ps, List.map_cons, List.flatten_cons, List.length_append]

@[simp] theorem length_left (s : Mem × Nat) (p : Nat × List Byte) : (w.left s p).length = p.2.length := by
  unfold left
  split
  · rw [length_echo, pieces_flatten (by decide) (Nat.le_refl _)]
  · rfl

theorem left_blank {s : Mem × Nat} {p : Nat × List Byte} (blank : Blank s.1 p) :
    w.left s p = w.echo (checked s.2) (pieces spiFlashPageSize p.1 p.2) := if_pos blank

theorem left_dirty {s : Mem × Nat} {p : Nat × List Byte} (dirty : ¬ Blank s.1 p) : w.left s p = p.2 := if_neg dirty

/-- **The buffer is kept** exactly when every directly written piece is echoed. -/
theorem buffer_kept : ∀ (s : Mem × Nat) (ps : List (Nat × List Byte)),
    w.buffer s ps = (ps.map Prod.snd).flatten ↔ w.Echoed s ps
  | _, [] => by simp [buffer, Echoed]
  | s, p :: ps => by
    have split : w.buffer s (p :: ps) = ((p :: ps).map Prod.snd).flatten ↔
        w.left s p = p.2 ∧ w.buffer (w.sector s p) ps = (ps.map Prod.snd).flatten := by
      rw [buffer, List.map_cons, List.flatten_cons]
      constructor
      · exact fun same => List.append_inj same (w.length_left s p)
      · rintro ⟨front, rest⟩
        rw [front, rest]
    rw [split, buffer_kept (w.sector s p) ps, Echoed]
    refine and_congr_left fun _ => ?_
    by_cases blank : Blank s.1 p
    · rw [w.left_blank blank]
      exact ⟨fun same _ => same, fun same => same blank⟩
    · exact iff_of_true (w.left_dirty blank) fun clean => absurd clean blank

end Line

/-! ## The commands on a line -/

/-- A command carries the address modulo the size of the part. -/
theorem command_mod (op : Byte) (addr : Nat) : command op (addr % chipSize) = command op addr := by
  have byte : ∀ k, k ≤ 16 → BitVec.ofNat 8 ((addr % chipSize) >>> k) = BitVec.ofNat 8 (addr >>> k) := by
    intro k small
    apply BitVec.eq_of_getLsbD_eq
    intro i hi
    simp only [BitVec.getLsbD_ofNat, Nat.testBit_shiftRight]
    have pow : chipSize = 2 ^ 24 := rfl
    rw [pow, Nat.testBit_mod_two_pow]
    have : k + i < 24 := by omega
    simp [this]
  have low := byte 0 (by omega)
  simp only [Nat.shiftRight_zero] at low
  rw [command, command, byte 16 (by omega), byte 8 (by omega), low]

theorem command_u32 (op : Byte) (addr : Nat) : command op (u32 addr) = command op addr := by
  have same : u32 addr % chipSize = addr % chipSize := by
    simp only [u32, chipSize]
    omega
  rw [← command_mod, same, command_mod]

/-- The line of a bus after a transaction. -/
theorem Bus.after_line (b : Bus) (cmd : List Byte) :
    (b.after cmd).noise = b.noise ∧ (b.after cmd).clocks = b.clocks + cmd.length ∧
      (b.after cmd).chip.latency = b.chip.latency := by
  refine ⟨rfl, rfl, ?_⟩
  simp only [Bus.after, Chip.commit, Chip.start]
  split
  · rfl
  · repeat' split
    all_goals rfl

section Commands

variable {b : Bus} {w : Line} {m : Mem} {t : Nat}

theorem writeEnable_at (at_ : b.At w m t) : (writeEnable b).At w m (t + 1) ∧ (writeEnable b).chip.wel = true := by
  obtain ⟨ready, latch⟩ := writeEnable_ready at_.toReady
  have run : writeEnable b = b.after [CMD_FLASH_WREN] := transaction at_.released [CMD_FLASH_WREN]
  obtain ⟨noise, clock, latency⟩ := b.after_line [CMD_FLASH_WREN]
  refine ⟨⟨ready, ?_, ?_, ?_⟩, latch⟩
  · rw [run, noise, at_.noise]
  · rw [run, latency, at_.latency]
  · rw [run, clock, at_.clock]
    rfl

/-- One poll takes two clocks. -/
theorem readStatusReg_line (released : b.selected = false) :
    (flashReadStatusReg b).1.noise = b.noise ∧ (flashReadStatusReg b).1.clocks = b.clocks + 2 ∧
      (flashReadStatusReg b).1.chip.latency = b.chip.latency := by
  have run : (flashReadStatusReg b).1 = b.after [CMD_FLASH_RDSR, 0xFF] := transaction released [CMD_FLASH_RDSR, 0xFF]
  rw [run]
  exact b.after_line _

/-- **Status polling** takes two clocks a poll, and one poll more than the chip is busy for. -/
theorem flashWaitSR_at (released : b.selected = false) (stored : b.chip.mem = m) (noise : b.noise = w.noise)
    (latency : b.chip.latency = w.latency) (clock : b.clocks + 2 * (b.chip.busy + 1) = t) :
    ∃ b', flashWaitSR b = some b' ∧ b'.At w m t := by
  refine Loop.exec_returns
    (fun s : Bus => s.selected = false ∧ s.chip.mem = m ∧ s.noise = w.noise ∧ s.chip.latency = w.latency ∧
      s.clocks + 2 * (s.chip.busy + 1) = t)
    (fun s : Bus => s.At w m t) (fun s => s.chip.busy) ?_ ⟨released, stored, noise, latency, clock⟩ (Nat.lt_succ_self _)
  rintro s ⟨released, stored, noise, latency, clock⟩
  obtain ⟨-, up, chip⟩ := readStatusReg_run released
  obtain ⟨sameNoise, later, sameLatency⟩ := readStatusReg_line released
  rw [flashWaitSRPoll_run released]
  by_cases busy : s.chip.busy = 0
  · right
    rw [if_pos busy]
    refine ⟨(flashReadStatusReg s).1, rfl,
      ⟨⟨up, by simp [chip, busy], by rw [chip]; exact stored⟩, sameNoise.trans noise, sameLatency.trans latency, ?_⟩⟩
    rw [later]
    omega
  · left
    rw [if_neg busy]
    have fewer : (flashReadStatusReg s).1.chip.busy = s.chip.busy - 1 := by rw [chip]
    refine ⟨(flashReadStatusReg s).1, rfl,
      ⟨up, by rw [chip]; exact stored, sameNoise.trans noise, sameLatency.trans latency, ?_⟩, ?_⟩
    · rw [later, fewer]
      omega
    · omega

/-- **A sector erase.** -/
theorem flashEraseSector_at (at_ : b.At w m t) (address : Nat) :
    ∃ b', flashEraseSector address b = some b' ∧
      b'.At w (m.erase (address % chipSize / spiFlashSectorSize * spiFlashSectorSize) spiFlashSectorSize)
        (t + w.spent (command CMD_FLASH_SECTOR_ERASE address)) := by
  obtain ⟨enabled, latch⟩ := writeEnable_at at_
  obtain ⟨noise, clock, latency⟩ := (writeEnable b).after_line (command CMD_FLASH_SECTOR_ERASE address)
  have chip : (writeEnable b).chip.commit (command CMD_FLASH_SECTOR_ERASE address) =
      (writeEnable b).chip.start (command CMD_FLASH_SECTOR_ERASE address)
        (m.erase (address % chipSize / spiFlashSectorSize * spiFlashSectorSize) spiFlashSectorSize) := by
    simp [command, Chip.commit, enabled.idle, enabled.stored, latch, addr24_bytes,
      CMD_FLASH_SECTOR_ERASE, CMD_FLASH_RDSR, CMD_FLASH_WREN]
  rw [flashEraseSector_run enabled.released]
  apply flashWaitSR_at
  · exact enabled.released
  · rw [Bus.after, chip]
    rfl
  · rw [noise, enabled.noise]
  · rw [latency, enabled.latency]
  · have busy : ((writeEnable b).after (command CMD_FLASH_SECTOR_ERASE address)).chip.busy =
        w.latency (command CMD_FLASH_SECTOR_ERASE address) := by
      rw [Bus.after, chip, ← enabled.latency]
      rfl
    rw [clock, busy, enabled.clock, Line.spent]
    omega

/-- While the part does not drive the line, each byte back is the noise of its clock. -/
theorem spiRw_noise : ∀ (ds : List Byte) {b : Bus}, b.selected = true →
    (∀ more, b.chip.drive (b.shifted ++ more) = none) →
    (spiRw ds b).2 = (List.range ds.length).map fun i => b.noise (b.clocks + i)
  | [], _, _, _ => rfl
  | d :: ds, b, sel, silent => by
    have here := silent []
    rw [List.append_nil] at here
    have rest := @spiRw_noise ds { b with shifted := b.shifted ++ [d], clocks := b.clocks + 1 } sel
      (fun more => by rw [List.append_assoc]; exact silent ([d] ++ more))
    simp only [spiRw, clockByte_selected sel, here, rest, Option.getD_none, List.length_cons,
      List.range_succ_eq_map, List.map_cons, List.map_map, Nat.add_zero, List.cons.injEq, true_and]
    apply List.map_congr_left
    intro i _
    simp only [Function.comp_apply]
    congr 1; omega

/-- **A page program** inside one page: the buffer is left with the noise of its clocks. -/
theorem flashWritePage_at (at_ : b.At w m t) (addr : Nat) (data : List Byte) (nonempty : 0 < data.length)
    (page : addr % spiFlashPageSize + data.length ≤ spiFlashPageSize) :
    ∃ b', flashWritePage addr data b = some (b', w.heard (t + 5) data.length) ∧
      b'.At w (w.page (m, t) (addr, data)).1 (w.page (m, t) (addr, data)).2 := by
  obtain ⟨enabled, latch⟩ := writeEnable_at at_
  have cells := commit_program enabled.idle latch addr page
  rw [enabled.stored] at cells
  obtain ⟨noise, clock, latency⟩ := (writeEnable b).after_line (command CMD_FLASH_BYTE_PROG addr ++ data)
  have busy : ((writeEnable b).after (command CMD_FLASH_BYTE_PROG addr ++ data)).chip.busy =
      w.latency (command CMD_FLASH_BYTE_PROG addr ++ data) := by
    obtain ⟨d, ds, rfl⟩ := List.exists_cons_of_length_pos nonempty
    simp [Bus.after, command, Chip.commit, Chip.start, enabled.idle, latch, enabled.latency, CMD_FLASH_RDSR,
      CMD_FLASH_WREN, CMD_FLASH_BYTE_PROG]
  obtain ⟨b', wait, done⟩ := flashWaitSR_at (w := w)
    (b := (writeEnable b).after (command CMD_FLASH_BYTE_PROG addr ++ data)) enabled.released cells
    (noise.trans enabled.noise) (latency.trans enabled.latency)
    (t := t + w.spent (command CMD_FLASH_BYTE_PROG addr ++ data))
    (by rw [clock, busy, enabled.clock, Line.spent]; omega)
  have sel : (spiCs 0 (writeEnable b)).selected = true := by simp [spiCs, enabled.released]
  have header := spiRw_bus (command CMD_FLASH_BYTE_PROG addr) sel
  have sent : pageReply b addr data = w.heard (t + 5) data.length := by
    rw [pageReply, header, spiRw_noise data (by exact sel)]
    · simp only [spiCs, enabled.released, Line.heard, enabled.noise, enabled.clock, command, List.length_cons,
        List.length_nil, if_true]
      apply List.map_congr_left
      intro i _
      rfl
    · intro more
      simp [spiCs, enabled.released, enabled.idle, command, Chip.drive, CMD_FLASH_BYTE_PROG, CMD_FLASH_RDSR,
        CMD_FLASH_READ]
  refine ⟨b', ?_, done⟩
  rw [flashWritePage_run enabled.released, wait, sent, Option.map_some]

/-! ## The page loop -/

/-- What holds at the head of each pass of `flashWriteNoCheck`, `a` being the
address before the wrap of the `uint32_t`. -/
structure NoCheck.On (w : Line) (m : Mem) (t a : Nat) (s : NoCheck) : Prop where
  bus : s.bus.At w m t
  cursor : s.addr = u32 a
  length : s.len = s.data.length
  nonempty : 0 < s.len
  piece : s.pageremain = min s.len (spiFlashPageSize - a % spiFlashPageSize)

theorem NoCheck.On.run : ∀ {fuel : Nat} {s : NoCheck} {m : Mem} {t a : Nat}, s.On w m t a → s.len < fuel →
    ∃ b' sent, Loop.exec noCheckPass fuel s = some (b', s.past ++ sent) ∧
      sent = w.echo t (pieces spiFlashPageSize a s.data) ∧
      b'.At w ((pieces spiFlashPageSize a s.data).foldl w.page (m, t)).1
        ((pieces spiFlashPageSize a s.data).foldl w.page (m, t)).2 := by
  intro fuel
  induction fuel with
  | zero => intro s m t a _ less; omega
  | succ fuel ih =>
    intro s m t a on less
    have length := on.length
    have nonempty := on.nonempty
    have piece := on.piece
    have room := Nat.mod_lt a (show 0 < spiFlashPageSize by decide)
    have size : (s.data.take s.pageremain).length = s.pageremain := by
      rw [List.length_take]; omega
    have offset : s.addr % spiFlashPageSize = a % spiFlashPageSize := by
      rw [on.cursor]
      simp only [u32, spiFlashPageSize]
      omega
    have step := pieces_step (show 0 < spiFlashPageSize by decide) a s.data (by omega)
      (k := s.pageremain) (by rw [piece, length])
    obtain ⟨b₁, run, done⟩ := flashWritePage_at on.bus s.addr (s.data.take s.pageremain) (by omega) (by omega)
    have moved : w.page (m, t) (s.addr, s.data.take s.pageremain) = w.page (m, t) (a, s.data.take s.pageremain) := by
      have part : u32 a % chipSize = a % chipSize := by
        simp only [u32, chipSize]
        omega
      simp only [Line.page, on.cursor, command_u32, part]
    rw [moved] at done
    rw [step, List.foldl_cons, Line.echo]
    by_cases last : s.len = s.pageremain
    · have none : s.data.drop s.pageremain = [] := List.drop_eq_nil_iff.mpr (by omega)
      refine ⟨b₁, w.heard (t + 5) s.pageremain, ?_, ?_, ?_⟩
      · apply Loop.exec_leave
        rw [noCheckPass_run, run, Option.map_some, if_pos last, none, List.append_nil, size]
      · rw [none, pieces_nil, Line.echo, List.append_nil, size]
      · rw [none, pieces_nil]
        exact done
    · have again : noCheckPass s = some (.inl (s.next b₁ (w.heard (t + 5) s.pageremain))) := by
        rw [noCheckPass_run, run, Option.map_some, if_neg last, size]
      rw [Loop.exec_again again]
      have next : (s.next b₁ (w.heard (t + 5) s.pageremain)).On w (w.page (m, t) (a, s.data.take s.pageremain)).1
          (w.page (m, t) (a, s.data.take s.pageremain)).2 (a + s.pageremain) := by
        have further := next_piece_min (s.len - s.pageremain) spiFlashPageSize (by decide)
        constructor
        · exact done
        · simp only [NoCheck.next, on.cursor, u32]
          omega
        · simp only [NoCheck.next, List.length_drop]
          omega
        · simp only [NoCheck.next]
          omega
        · simp only [NoCheck.next, further]
          simp only [spiFlashPageSize] at *
          omega
      obtain ⟨b', sent, rest, echo, at_⟩ := ih next (by simp only [NoCheck.next]; omega)
      refine ⟨b', w.heard (t + 5) s.pageremain ++ sent, ?_, ?_, at_⟩
      · rw [rest, ← List.append_assoc]
        rfl
      · rw [echo, size]
        rfl

/-- **A range programmed page by page**: the buffer is left with the echo. -/
theorem flashWriteNoCheck_at (at_ : b.At w m t) (a : Nat) (data : List Byte) (nonempty : 0 < data.length) :
    ∃ b', flashWriteNoCheck (u32 a) data b = some (b', w.echo t (pieces spiFlashPageSize a data)) ∧
      b'.At w ((pieces spiFlashPageSize a data).foldl w.page (m, t)).1
        ((pieces spiFlashPageSize a data).foldl w.page (m, t)).2 := by
  have offset : u32 a % spiFlashPageSize = a % spiFlashPageSize := by
    simp only [u32, spiFlashPageSize]
    omega
  have size := first_piece_min (u32 a) data.length spiFlashPageSize (by decide)
  rw [offset] at size
  have start : (NoCheck.mk b (u32 a) [] data data.length
      (min data.length (spiFlashPageSize - a % spiFlashPageSize))).On w m t a := ⟨at_, rfl, rfl, nonempty, rfl⟩
  obtain ⟨b', sent, run, echo, done⟩ := start.run (Nat.lt_succ_self data.length)
  refine ⟨b', ?_, done⟩
  rw [← echo]
  simp only [flashWriteNoCheck, offset, size]
  exact run

/-! ## The sector loop -/

/-- **A read** of cells that do not run off the part. -/
theorem flashReadData_at (at_ : b.At w m t) (addr : Nat) (data : List Byte) (nonempty : 0 < data.length)
    (fits : addr % chipSize + data.length ≤ chipSize) :
    (flashReadData addr data b).1.At w m (t + (4 + data.length)) ∧
      (flashReadData addr data b).2 = m.read (addr % chipSize) data.length := by
  have wrapped : flashReadData addr data b = flashReadData (addr % chipSize) data b := by
    simp only [flashReadData, command_mod]
  obtain ⟨ready, cells⟩ := flashReadData_ready at_.toReady (addr % chipSize) data fits nonempty
  have run : (flashReadData (addr % chipSize) data b).1 = b.after (command CMD_FLASH_READ (addr % chipSize) ++ data) :=
    transaction_data at_.released (command CMD_FLASH_READ (addr % chipSize)) data
  obtain ⟨noise, clock, latency⟩ := b.after_line (command CMD_FLASH_READ (addr % chipSize) ++ data)
  rw [wrapped]
  refine ⟨⟨ready, ?_, ?_, ?_⟩, cells⟩
  · rw [run, noise, at_.noise]
  · rw [run, latency, at_.latency]
  · rw [run, clock, at_.clock, List.length_append]
    rfl

/-- What holds at the head of each pass of `flashWriteData`, `a` being the
address before the wrap of the `uint32_t`. -/
structure WriteData.On (w : Line) (m : Mem) (t a : Nat) (s : WriteData) : Prop where
  bus : s.dev.bus.At w m t
  image : s.dev.buff.length = spiFlashSectorSize
  cursor : s.addr = u32 a
  sector : s.secpos = a / spiFlashSectorSize
  offset : s.secoff = a % spiFlashSectorSize
  length : s.len = s.data.length
  nonempty : 0 < s.len
  piece : s.secremain = min s.len (spiFlashSectorSize - a % spiFlashSectorSize)
  range : a + s.len < 2 ^ 33

/-- **The sector of one pass.** -/
theorem WriteData.On.writeSector {s : WriteData} {a : Nat} (on : s.On w m t a) :
    ∃ dev, writeSector s = some (dev, w.left (m, t) (a, s.data.take s.secremain)) ∧
      dev.bus.At w (w.sector (m, t) (a, s.data.take s.secremain)).1 (w.sector (m, t) (a, s.data.take s.secremain)).2 ∧
      dev.buff.length = spiFlashSectorSize := by
  have length := on.length
  have nonempty := on.nonempty
  have piece := on.piece
  have room := Nat.mod_lt a sectorSize_pos
  have size : (s.data.take s.secremain).length = s.secremain := by
    rw [List.length_take]; omega
  have page : a % spiFlashSectorSize + s.secremain ≤ spiFlashSectorSize := by omega
  have base : u32 (s.secpos * spiFlashSectorSize) % chipSize = a / spiFlashSectorSize * spiFlashSectorSize % chipSize := by
    rw [on.sector]
    simp only [u32, chipSize]
    omega
  have whole : a / spiFlashSectorSize * spiFlashSectorSize % chipSize + spiFlashSectorSize ≤ chipSize := by
    simp only [chipSize, spiFlashSectorSize]
    omega
  have here : a / spiFlashSectorSize * spiFlashSectorSize % chipSize + a % spiFlashSectorSize = a % chipSize := by
    simp only [chipSize, spiFlashSectorSize]
    omega
  obtain ⟨read, image⟩ := flashReadData_at on.bus (u32 (s.secpos * spiFlashSectorSize)) s.dev.buff
    (by rw [on.image]; exact sectorSize_pos) (by rw [on.image, base]; exact whole)
  rw [on.image] at read
  rw [on.image, base] at image
  have check := @check_dirty m (a / spiFlashSectorSize * spiFlashSectorSize % chipSize) (a % spiFlashSectorSize)
    s.secremain spiFlashSectorSize page
  rw [here] at check
  have blank : Line.Blank m (a, s.data.take s.secremain) ↔ ∀ i < s.secremain, m (a % chipSize + i) = 0xFF#8 := by
    rw [Line.Blank, size]
  unfold Storage.writeSector
  simp only [image, on.offset]
  by_cases clean : Line.Blank m (a, s.data.take s.secremain)
  · have skip : ¬ ((((m.read (a / spiFlashSectorSize * spiFlashSectorSize % chipSize) spiFlashSectorSize).drop
        (a % spiFlashSectorSize)).take s.secremain).findIdx (· != 0xFF#8) < s.secremain) := by
      rw [check]
      rintro ⟨i, hi, dirty⟩
      exact dirty (blank.mp clean i hi)
    obtain ⟨b', run, done⟩ := flashWriteNoCheck_at read a (s.data.take s.secremain) (by omega)
    refine ⟨⟨b', m.read (a / spiFlashSectorSize * spiFlashSectorSize % chipSize) spiFlashSectorSize⟩, ?_, ?_, ?_⟩
    case refine_1 =>
      rw [if_neg skip, w.left_blank clean, on.cursor]
      simp only [run, Option.bind_eq_bind, Option.bind_some, Line.checked]
    case refine_2 =>
      rw [Line.sector, if_pos clean]
      exact done
    case refine_3 => rw [Mem.length_read]
  · have break_ : ((((m.read (a / spiFlashSectorSize * spiFlashSectorSize % chipSize) spiFlashSectorSize).drop
        (a % spiFlashSectorSize)).take s.secremain).findIdx (· != 0xFF#8) < s.secremain) := by
      rw [check]
      by_contra none
      exact clean (blank.mpr fun i hi => by_contra fun dirty => none ⟨i, hi, dirty⟩)
    obtain ⟨merged, merge⟩ : ∃ merged, mergeSector (m.read (a / spiFlashSectorSize * spiFlashSectorSize % chipSize)
        spiFlashSectorSize) (a % spiFlashSectorSize) (s.data.take s.secremain) = merged := ⟨_, rfl⟩
    have full : merged.length = spiFlashSectorSize := by
      rw [← merge, mergeSector_read (by rw [size]; exact page), Mem.length_read]
    obtain ⟨b₁, erase, erased⟩ := flashEraseSector_at read s.secpos
    obtain ⟨b₂, program, done⟩ := flashWriteNoCheck_at erased (s.secpos * spiFlashSectorSize) merged
      (by rw [full]; exact sectorSize_pos)
    have same := w.length_echo (t + (4 + spiFlashSectorSize) + w.spent (command CMD_FLASH_SECTOR_ERASE s.secpos))
      (pieces spiFlashPageSize (s.secpos * spiFlashSectorSize) merged)
    rw [pieces_flatten (by decide) (Nat.le_refl _), full] at same
    refine ⟨⟨b₂, w.echo (t + (4 + spiFlashSectorSize) + w.spent (command CMD_FLASH_SECTOR_ERASE s.secpos))
      (pieces spiFlashPageSize (s.secpos * spiFlashSectorSize) merged)⟩, ?_, ?_, same⟩
    · rw [if_pos break_, w.left_dirty clean, merge]
      simp only [erase, program, Option.bind_eq_bind, Option.bind_some]
    · rw [Line.sector, if_neg clean]
      simp only [merge]
      rw [on.sector] at done
      exact done

theorem WriteData.On.run : ∀ {fuel : Nat} {s : WriteData} {m : Mem} {t a : Nat}, s.On w m t a → s.len < fuel →
    ∃ dev sent, Loop.exec writeDataPass fuel s = some (dev, s.past ++ sent) ∧
      sent = w.buffer (m, t) (pieces spiFlashSectorSize a s.data) ∧
      dev.bus.At w ((pieces spiFlashSectorSize a s.data).foldl w.sector (m, t)).1
        ((pieces spiFlashSectorSize a s.data).foldl w.sector (m, t)).2 ∧
      dev.buff.length = spiFlashSectorSize := by
  intro fuel
  induction fuel with
  | zero => intro s m t a _ less; omega
  | succ fuel ih =>
    intro s m t a on less
    have length := on.length
    have nonempty := on.nonempty
    have piece := on.piece
    have range := on.range
    have room := Nat.mod_lt a sectorSize_pos
    have step := pieces_step sectorSize_pos a s.data (by omega) (k := s.secremain) (by rw [piece, length])
    obtain ⟨dev, run, done, image⟩ := on.writeSector
    rw [step, List.foldl_cons, Line.buffer]
    by_cases last : s.len = s.secremain
    · have none : s.data.drop s.secremain = [] := List.drop_eq_nil_iff.mpr (by omega)
      refine ⟨dev, w.left (m, t) (a, s.data.take s.secremain), ?_, ?_, ?_, image⟩
      · apply Loop.exec_leave
        rw [writeDataPass_run, run, Option.map_some, if_pos last, none, List.append_nil]
      · rw [none, pieces_nil, Line.buffer, List.append_nil]
      · rw [none, pieces_nil]
        exact done
    · have again : writeDataPass s = some (.inl (s.next dev (w.left (m, t) (a, s.data.take s.secremain)))) := by
        rw [writeDataPass_run, run, Option.map_some, if_neg last]
      rw [Loop.exec_again again]
      have next : (s.next dev (w.left (m, t) (a, s.data.take s.secremain))).On w
          (w.sector (m, t) (a, s.data.take s.secremain)).1 (w.sector (m, t) (a, s.data.take s.secremain)).2
          (a + s.secremain) := by
        have further := next_piece_min (s.len - s.secremain) spiFlashSectorSize (by decide)
        have small : s.secremain ≤ spiFlashSectorSize := by omega
        have boundary : (a + s.secremain) % spiFlashSectorSize = 0 := by
          have reach : s.secremain = spiFlashSectorSize - a % spiFlashSectorSize := by omega
          simp only [spiFlashSectorSize] at *
          omega
        constructor
        · exact done
        · exact image
        · simp only [WriteData.next, on.cursor, u32]
          omega
        · simp only [WriteData.next, on.sector, u32, spiFlashSectorSize] at *
          omega
        · exact boundary.symm
        · simp only [WriteData.next, List.length_drop]
          omega
        · simp only [WriteData.next]
          omega
        · simp only [WriteData.next, further, boundary, Nat.sub_zero]
        · simp only [WriteData.next]
          omega
      obtain ⟨dev', sent, rest, left, at_, image'⟩ := ih next (by simp only [WriteData.next]; omega)
      refine ⟨dev', w.left (m, t) (a, s.data.take s.secremain) ++ sent, ?_, ?_, at_, image'⟩
      · rw [rest, ← List.append_assoc]
        rfl
      · rw [left]
        rfl

end Commands

/-- The line behind a bus. -/
def Bus.line (b : Bus) : Line := ⟨b.noise, b.chip.latency⟩

theorem Bus.Ready.on {b : Bus} {m : Mem} (ready : b.Ready m) : b.At b.line m b.clocks := ⟨ready, rfl, rfl, rfl⟩

section Writes

variable {dev : Device} {w : Line} {m : Mem} {t : Nat}

/-- **A write of some bytes** leaves `buffer` in the caller's memory. -/
theorem flashWriteData_at (at_ : dev.bus.At w m t) (image : dev.buff.length = spiFlashSectorSize) (addr : Nat)
    (data : List Byte) (nonempty : 0 < data.length) (addrRange : addr < 2 ^ 32) (lenRange : data.length < 2 ^ 32) :
    ∃ dev', flashWriteData addr data dev = some (dev', w.buffer (m, t) (pieces spiFlashSectorSize addr data)) ∧
      dev'.bus.At w ((pieces spiFlashSectorSize addr data).foldl w.sector (m, t)).1
        ((pieces spiFlashSectorSize addr data).foldl w.sector (m, t)).2 ∧
      dev'.buff.length = spiFlashSectorSize := by
  have offset : u16 (addr % spiFlashSectorSize) = addr % spiFlashSectorSize :=
    u16_of_lt (by simp only [spiFlashSectorSize]; omega)
  have piece := first_piece_min addr data.length spiFlashSectorSize (by decide)
  have start : WriteData.On w m t addr
      ⟨dev, addr / spiFlashSectorSize, addr % spiFlashSectorSize,
        min data.length (spiFlashSectorSize - addr % spiFlashSectorSize), addr, [], data, data.length⟩ :=
    ⟨at_, image, (u32_of_lt addrRange).symm, rfl, rfl, rfl, nonempty, rfl, by simp only; omega⟩
  obtain ⟨dev', sent, run, left, done, image'⟩ := start.run (Nat.lt_succ_self data.length)
  refine ⟨dev', ?_, done, image'⟩
  rw [← left]
  simp only [flashWriteData, offset, piece]
  exact run

/-- A write of no bytes ends and leaves none. -/
theorem flashWriteData_nil (ready : dev.bus.Ready m) (addr : Nat) :
    ∃ dev', flashWriteData addr [] dev = some (dev', []) := by
  have read := flashReadData_keeps ready (u32 (addr / spiFlashSectorSize * spiFlashSectorSize)) dev.buff
  obtain ⟨b', sent, m', run, -, size⟩ := flashWritePage_returns read addr []
  obtain rfl := List.eq_nil_of_length_eq_zero size
  exact ⟨⟨b', (flashReadData (u32 (addr / spiFlashSectorSize * spiFlashSectorSize)) dev.buff dev.bus).2⟩, by
    simp [flashWriteData, writeDataPass, writeSector, flashWriteNoCheck, noCheckPass, Loop.exec, u16, run]⟩

end Writes

/-! ## disk_write -/

/-- The loop body of `disk_write`: sector `i` of the buffer. -/
def diskWriteSector (sector : Nat) (r : Device × List Byte) (i : Nat) : Option (Device × List Byte) := do
  let (dev, sent) ← flashWriteData (u32 ((sector + i) * spiFlashSectorSize))
    ((r.2.drop (i * spiFlashSectorSize)).take spiFlashSectorSize) r.1
  some (dev, r.2.take (i * spiFlashSectorSize) ++ sent ++ r.2.drop ((i + 1) * spiFlashSectorSize))

/-- `disk_write` of diskio.c: `buff` is the caller's memory. -/
def diskWrite (buff : List Byte) (sector count : Nat) (dev : Device) : Option (Device × List Byte) :=
  (List.range count).foldlM (diskWriteSector sector) (dev, buff)

/-- The sectors `disk_write` writes and their bytes. -/
def diskPieces (buff : List Byte) (sector count : Nat) : List (Nat × List Byte) :=
  (List.range count).map fun i =>
    (u32 ((sector + i) * spiFlashSectorSize), (buff.drop (i * spiFlashSectorSize)).take spiFlashSectorSize)

theorem diskPieces_succ (buff : List Byte) (sector count : Nat) :
    diskPieces buff sector (count + 1) = diskPieces buff sector count ++
      [(u32 ((sector + count) * spiFlashSectorSize),
        (buff.drop (count * spiFlashSectorSize)).take spiFlashSectorSize)] := by
  rw [diskPieces, List.range_succ, List.map_append]
  rfl

theorem diskPieces_flatten {buff : List Byte} {sector count : Nat} (fits : count * spiFlashSectorSize ≤ buff.length) :
    ((diskPieces buff sector count).map Prod.snd).flatten = buff.take (count * spiFlashSectorSize) := by
  induction count with
  | zero => simp [diskPieces]
  | succ count ih =>
    have earlier : count * spiFlashSectorSize ≤ buff.length :=
      Nat.le_trans (Nat.mul_le_mul_right _ (Nat.le_succ count)) fits
    rw [diskPieces_succ, List.map_append, List.flatten_append, ih earlier, Nat.succ_mul, List.take_add]
    simp

theorem Line.buffer_append (w : Line) : ∀ (s : Mem × Nat) (ps qs : List (Nat × List Byte)),
    w.buffer s (ps ++ qs) = w.buffer s ps ++ w.buffer (ps.foldl w.sector s) qs
  | _, [], _ => rfl
  | s, p :: ps, qs => by
    rw [List.cons_append, Line.buffer, w.buffer_append _ ps qs, Line.buffer, List.foldl_cons, List.append_assoc]

theorem Line.length_buffer (w : Line) : ∀ (s : Mem × Nat) (ps : List (Nat × List Byte)),
    (w.buffer s ps).length = ((ps.map Prod.snd).flatten).length
  | _, [] => rfl
  | s, p :: ps => by
    rw [Line.buffer, List.length_append, w.length_left, w.length_buffer _ ps, List.map_cons, List.flatten_cons,
      List.length_append]

/-- **After `count` sectors** those of the buffer are as `buffer` says and the rest is untouched. -/
theorem diskWrite_at {dev : Device} {w : Line} {m : Mem} {t : Nat} (at_ : dev.bus.At w m t)
    (image : dev.buff.length = spiFlashSectorSize) (buff : List Byte) (sector : Nat) : ∀ {count : Nat},
    count * spiFlashSectorSize ≤ buff.length →
    ∃ dev', diskWrite buff sector count dev =
        some (dev', w.buffer (m, t) (diskPieces buff sector count) ++ buff.drop (count * spiFlashSectorSize)) ∧
      dev'.bus.At w ((diskPieces buff sector count).foldl w.sector (m, t)).1
        ((diskPieces buff sector count).foldl w.sector (m, t)).2 ∧
      dev'.buff.length = spiFlashSectorSize := by
  intro count
  induction count with
  | zero =>
    intro _
    refine ⟨dev, ?_, at_, image⟩
    simp [diskWrite, diskPieces, Line.buffer]
  | succ count ih =>
    intro fits
    have grown : (count + 1) * spiFlashSectorSize = count * spiFlashSectorSize + spiFlashSectorSize := Nat.succ_mul ..
    have earlier : count * spiFlashSectorSize ≤ buff.length :=
      Nat.le_trans (Nat.mul_le_mul_right _ (Nat.le_succ count)) fits
    obtain ⟨dev₁, run, done, image₁⟩ := ih earlier
    obtain ⟨past, before⟩ : ∃ past, w.buffer (m, t) (diskPieces buff sector count) = past := ⟨_, rfl⟩
    have length : past.length = count * spiFlashSectorSize := by
      rw [← before, w.length_buffer, diskPieces_flatten earlier, List.length_take, Nat.min_eq_left earlier]
    have chunk : ((past ++ buff.drop (count * spiFlashSectorSize)).drop (count * spiFlashSectorSize)).take
        spiFlashSectorSize = (buff.drop (count * spiFlashSectorSize)).take spiFlashSectorSize := by
      rw [List.drop_left' length]
    have size : ((buff.drop (count * spiFlashSectorSize)).take spiFlashSectorSize).length = spiFlashSectorSize := by
      rw [List.length_take, List.length_drop]
      omega
    have single : pieces spiFlashSectorSize (u32 ((sector + count) * spiFlashSectorSize))
        ((buff.drop (count * spiFlashSectorSize)).take spiFlashSectorSize) =
        [(u32 ((sector + count) * spiFlashSectorSize),
          (buff.drop (count * spiFlashSectorSize)).take spiFlashSectorSize)] :=
      pieces_single (by rw [size]; exact sectorSize_pos) (by
        rw [size]
        simp only [u32, spiFlashSectorSize]
        omega)
    obtain ⟨dev₂, write, at₂, image₂⟩ := flashWriteData_at done image₁
      (u32 ((sector + count) * spiFlashSectorSize)) ((buff.drop (count * spiFlashSectorSize)).take spiFlashSectorSize)
      (by rw [size]; exact sectorSize_pos) (by simp only [u32]; omega) (by rw [size]; decide)
    rw [single] at write at₂
    refine ⟨dev₂, ?_, ?_, image₂⟩
    · have front : (List.range count).foldlM (diskWriteSector sector) (dev, buff) =
          some (dev₁, past ++ buff.drop (count * spiFlashSectorSize)) := by
        rw [← before]
        exact run
      have rest : (past ++ buff.drop (count * spiFlashSectorSize)).drop ((count + 1) * spiFlashSectorSize) =
          buff.drop ((count + 1) * spiFlashSectorSize) := by
        rw [grown, ← List.drop_drop, List.drop_left' length, List.drop_drop]
      rw [diskWrite, List.range_succ, List.foldlM_append, front]
      simp only [Option.bind_eq_bind, Option.bind_some, List.foldlM_cons, List.foldlM_nil, diskWriteSector, chunk, write,
        rest, List.take_left' length]
      rw [diskPieces_succ, w.buffer_append, before]
      rfl
    · rw [diskPieces_succ, List.foldl_append]
      exact at₂

/-! ## When the buffer is kept -/

theorem flashWriteData_kept {dev : Device} {m : Mem} (ready : dev.bus.Ready m)
    (image : dev.buff.length = spiFlashSectorSize) (addr : Nat) (data : List Byte) (addrRange : addr < 2 ^ 32)
    (lenRange : data.length < 2 ^ 32) :
    (∃ dev', flashWriteData addr data dev = some (dev', data)) ↔
      dev.bus.line.Echoed (m, dev.bus.clocks) (pieces spiFlashSectorSize addr data) := by
  by_cases nonempty : 0 < data.length
  · obtain ⟨dev', run, -, -⟩ := flashWriteData_at ready.on image addr data nonempty addrRange lenRange
    rw [← Line.buffer_kept, pieces_flatten sectorSize_pos (Nat.le_refl _), run]
    constructor
    · rintro ⟨d, same⟩
      exact congrArg Prod.snd (Option.some.inj same)
    · intro same
      exact ⟨dev', by rw [same]⟩
  · obtain rfl := List.eq_nil_of_length_eq_zero (Nat.eq_zero_of_not_pos nonempty)
    exact iff_of_true (flashWriteData_nil ready addr) trivial

theorem diskWrite_kept {dev : Device} {m : Mem} (ready : dev.bus.Ready m)
    (image : dev.buff.length = spiFlashSectorSize) (buff : List Byte) (sector count : Nat)
    (fits : count * spiFlashSectorSize ≤ buff.length) :
    (∃ dev', diskWrite buff sector count dev = some (dev', buff)) ↔
      dev.bus.line.Echoed (m, dev.bus.clocks) (diskPieces buff sector count) := by
  obtain ⟨dev', run, -, -⟩ := diskWrite_at ready.on image buff sector fits
  rw [← Line.buffer_kept, diskPieces_flatten fits, run]
  have whole : buff.take (count * spiFlashSectorSize) ++ buff.drop (count * spiFlashSectorSize) = buff :=
    List.take_append_drop ..
  constructor
  · rintro ⟨d, same⟩
    have bytes := congrArg Prod.snd (Option.some.inj same)
    exact List.append_cancel_right (bytes.trans whole.symm)
  · intro same
    exact ⟨dev', by rw [same, whole]⟩

/-- **The caller's buffer**: a write, and so `disk_write`, returns it as it was
exactly when every piece that goes straight from it to a blank sector gets back
the bytes it sends. -/
theorem callerBuffer_kept_iff {dev : Device} {m : Mem} (ready : dev.bus.Ready m)
    (image : dev.buff.length = spiFlashSectorSize) :
    (∀ (addr : Nat) (data : List Byte), addr < 2 ^ 32 → data.length < 2 ^ 32 →
      ((∃ dev', flashWriteData addr data dev = some (dev', data)) ↔
        dev.bus.line.Echoed (m, dev.bus.clocks) (pieces spiFlashSectorSize addr data))) ∧
    ∀ (buff : List Byte) (sector count : Nat), count * spiFlashSectorSize ≤ buff.length →
      ((∃ dev', diskWrite buff sector count dev = some (dev', buff)) ↔
        dev.bus.line.Echoed (m, dev.bus.clocks) (diskPieces buff sector count)) :=
  ⟨flashWriteData_kept ready image, diskWrite_kept ready image⟩

/-- One byte to a part that holds a programmed byte there: the sector buffer is sent. -/
theorem callerBuffer_kept_programmed : ∃ dev', flashWriteData 0 [0x12#8] (restingDevice fun _ => 0x00#8) =
    some (dev', [0x12#8]) := by
  refine ((callerBuffer_kept_iff (restingDevice_ready fun _ => 0x00#8) (List.length_replicate ..)).1 0 [0x12#8]
    (by decide) (by decide)).mpr ?_
  rw [pieces_single (by decide) (by decide)]
  refine ⟨fun blank => ?_, trivial⟩
  have cell := blank 0 (by decide)
  revert cell
  decide

/-- One byte to a blank part whose line reads zero: the caller's byte is gone. -/
theorem callerBuffer_overwritten : ¬ ∃ dev', flashWriteData 0 [0x12#8] (restingDevice fun _ => 0xFF#8) =
    some (dev', [0x12#8]) := by
  rw [flashWriteData_kept (restingDevice_ready fun _ => 0xFF#8) (List.length_replicate ..) 0 [0x12#8] (by decide)
    (by decide), pieces_single (by decide) (by decide)]
  rintro ⟨echoed, -⟩
  have sent := echoed fun _ _ => rfl
  rw [pieces_single (by decide) (by decide)] at sent
  have byte : (0x00#8 : Byte) = 0x12#8 := (List.cons.inj sent).1
  revert byte
  decide

end OffLineProgrammer.Storage
