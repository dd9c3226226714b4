import OffLineProgrammer.Storage.DriverSpec

/-!
# What `_25qxx_Flash_Write_Data` leaves in the flash

The read-modify-write path gives `_25qxx_Flash_Erase_Sector` the sector number
where it expects a byte address, so on a part of 4096 sectors every such erase
hits sector 0. `written` is the content the routine leaves: a dirty sector is
programmed over without an erase, and sector 0 is blank if any sector above it
was dirty. The pass lemma keeps that shape sector by sector; the exact condition
under which the result is the one a write should have follows from it.
-/

namespace OffLineProgrammer.Storage
set_option autoImplicit false
open OffLineProgrammer.Lib

/-- Some byte of the range at or above sector 1 is not blank. -/
def dirtyAbove (m : Mem) (addr len : Nat) : Bool :=
  (List.range len).any fun k => decide (spiFlashSectorSize ≤ addr + k) && (m (addr + k) != 0xFF#8)

/-- The content after the routine has handled `data` at `addr`. -/
def written (m : Mem) (addr : Nat) (data : List Byte) : Mem :=
  fun x => if x < spiFlashSectorSize then
      (if dirtyAbove m addr data.length then 0xFF#8 else m.write addr data x)
    else m.program addr data x

theorem dirtyAbove_iff {m : Mem} {addr len : Nat} :
    dirtyAbove m addr len = true ↔ ∃ k, k < len ∧ spiFlashSectorSize ≤ addr + k ∧ m (addr + k) ≠ 0xFF#8 := by
  simp [dirtyAbove]

theorem dirtyAbove_add {m : Mem} {addr len more : Nat} :
    dirtyAbove m addr (len + more) = (dirtyAbove m addr len || dirtyAbove m (addr + len) more) := by
  rw [Bool.eq_iff_iff]
  simp only [Bool.or_eq_true, dirtyAbove_iff]
  constructor
  · rintro ⟨k, hk, above, dirty⟩
    by_cases front : k < len
    · exact Or.inl ⟨k, front, above, dirty⟩
    · have shift : addr + len + (k - len) = addr + k := by omega
      exact Or.inr ⟨k - len, by omega, by rw [shift]; exact above, by rw [shift]; exact dirty⟩
  · rintro (⟨k, hk, above, dirty⟩ | ⟨k, hk, above, dirty⟩)
    · exact ⟨k, by omega, above, dirty⟩
    · exact ⟨len + k, by omega, by rw [← Nat.add_assoc]; exact above, by rw [← Nat.add_assoc]; exact dirty⟩

/-- A range inside sector 0 has nothing above it. -/
theorem dirtyAbove_low {m : Mem} {addr len : Nat} (low : addr + len ≤ spiFlashSectorSize) :
    dirtyAbove m addr len = false := by
  rw [Bool.eq_false_iff, Ne, dirtyAbove_iff]
  rintro ⟨k, hk, above, -⟩
  omega

@[simp] theorem written_nil (m : Mem) (addr : Nat) : written m addr [] = m := by
  funext x
  simp [written, dirtyAbove]

/-! ## One sector -/

theorem sectorSize_pos : 0 < spiFlashSectorSize := by simp

/-- The merge loop stores the piece in the sector image. -/
theorem mergeSector_read {m : Mem} {base off n : Nat} {piece : List Byte} (fits : off + piece.length ≤ n) :
    mergeSector (m.read base n) off piece = (m.write (base + off) piece).read base n := by
  have front : (m.read base n).take off = (m.write (base + off) piece).read base off := by
    rw [Mem.read_take _ _ _ _ (by omega)]
    apply Mem.read_congr
    intro i hi
    rw [Mem.write_out (Or.inl (by omega))]
  have rest : (m.read base n).drop (off + piece.length) =
      (m.write (base + off) piece).read (base + (off + piece.length)) (n - (off + piece.length)) := by
    rw [Mem.read_drop _ _ _ _ fits]
    apply Mem.read_congr
    intro i hi
    rw [Mem.write_out (Or.inr (by omega))]
  have middle : piece = (m.write (base + off) piece).read (base + off) piece.length := by
    apply List.ext_getElem
    · simp
    · intro i hi hj
      rw [Mem.getElem_read, Mem.write_in i hi]
  have whole : n = off + piece.length + (n - (off + piece.length)) := by omega
  rw [mergeSector, front, rest, whole, Mem.read_add, Mem.read_add]
  simp only [List.append_assoc]
  congr 1
  rw [← Nat.add_assoc, ← middle]
  congr 2
  omega

/-- The check loop breaks exactly when the piece is not blank. -/
theorem check_dirty {m : Mem} {base off n len : Nat} (fits : off + n ≤ len) :
    (((m.read base len).drop off).take n).findIdx (· != 0xFF#8) < n ↔
      ∃ i, i < n ∧ m (base + off + i) ≠ 0xFF#8 := by
  rw [Mem.read_drop _ _ _ _ (by omega), Mem.read_take _ _ _ _ (by omega)]
  have found : (m.read (base + off) n).findIdx (· != 0xFF#8) < (m.read (base + off) n).length ↔
      ∃ b ∈ m.read (base + off) n, (b != 0xFF#8) = true := List.findIdx_lt_length
  rw [Mem.length_read] at found
  rw [found]
  constructor
  · rintro ⟨b, hb, dirty⟩
    obtain ⟨i, hi, rfl⟩ := List.mem_map.mp hb
    exact ⟨i, List.mem_range.mp hi, by simpa using dirty⟩
  · rintro ⟨i, hi, dirty⟩
    exact ⟨m (base + off + i), List.mem_map.mpr ⟨i, List.mem_range.mpr hi, rfl⟩, by simpa using dirty⟩

/-- Programming a merged image over the cells it was read from programs the piece. -/
theorem program_merged {m : Mem} {base off n : Nat} {piece : List Byte} (fits : off + piece.length ≤ n) (x : Nat) :
    m.program base ((m.write (base + off) piece).read base n) x = m.program (base + off) piece x := by
  by_cases sector : x < base ∨ base + n ≤ x
  · rw [Mem.program_out (by rw [Mem.length_read]; exact sector), Mem.program_out (by omega)]
  · obtain ⟨i, rfl⟩ : ∃ i, x = base + i := ⟨x - base, by omega⟩
    rw [Mem.program_in i (by rw [Mem.length_read]; omega), Mem.getElem_read]
    by_cases inside : off ≤ i ∧ i < off + piece.length
    · obtain ⟨j, rfl⟩ : ∃ j, i = off + j := ⟨i - off, by omega⟩
      have hj : j < piece.length := by omega
      rw [← Nat.add_assoc, Mem.write_in j hj, Mem.program_in j hj]
    · rw [Mem.write_out (by omega), Mem.program_out (by omega)]
      exact BitVec.and_self

/-- The cells after one sector is handled on the read-modify-write path: the
erase hits sector 0, the reprogramming the sector itself. -/
def reprogrammed (m : Mem) (secpos secoff : Nat) (piece : List Byte) : Mem :=
  (m.erase 0 spiFlashSectorSize).program (secpos * spiFlashSectorSize)
    (mergeSector (m.read (secpos * spiFlashSectorSize) spiFlashSectorSize) secoff piece)

/-- In sector 0 the erase hits the right sector and the piece is stored. -/
theorem reprogrammed_zero {m : Mem} {secoff : Nat} {piece : List Byte}
    (fits : secoff + piece.length ≤ spiFlashSectorSize) : reprogrammed m 0 secoff piece = m.write secoff piece := by
  funext x
  rw [reprogrammed, mergeSector_read fits]
  simp only [Nat.zero_mul, Nat.zero_add]
  by_cases low : x < spiFlashSectorSize
  · have erased : (m.erase 0 spiFlashSectorSize) x = 0xFF#8 := Mem.erase_in (by omega) (by omega)
    have cell := @Mem.program_in (m.erase 0 spiFlashSectorSize) 0 ((m.write secoff piece).read 0 spiFlashSectorSize) x
      (by rw [Mem.length_read]; exact low)
    simp only [Nat.zero_add, Mem.getElem_read] at cell
    rw [cell, erased, erased_and]
  · rw [Mem.program_out (by rw [Mem.length_read]; omega), Mem.erase_out (by omega), Mem.write_out (by omega)]

/-- Above sector 0 the sector is programmed without an erase and sector 0 is lost. -/
theorem reprogrammed_above {m : Mem} {secpos secoff : Nat} {piece : List Byte} (above : 0 < secpos)
    (fits : secoff + piece.length ≤ spiFlashSectorSize) (x : Nat) :
    reprogrammed m secpos secoff piece x =
      if x < spiFlashSectorSize then 0xFF#8 else m.program (secpos * spiFlashSectorSize + secoff) piece x := by
  have base : spiFlashSectorSize ≤ secpos * spiFlashSectorSize := Nat.le_mul_of_pos_left _ above
  rw [reprogrammed, mergeSector_read fits]
  by_cases low : x < spiFlashSectorSize
  · rw [if_pos low, Mem.program_out (by omega), Mem.erase_in (by omega) (by omega)]
  · rw [if_neg low, ← program_merged fits]
    by_cases out : x < secpos * spiFlashSectorSize
    · rw [Mem.program_out (Or.inl out), Mem.program_out (Or.inl out), Mem.erase_out (by omega)]
    · simp only [Mem.program, if_pos (Nat.le_of_not_lt out), Mem.erase_out (m := m) (a := 0)
        (n := spiFlashSectorSize) (x := x) (by omega)]

/-! ## One pass -/

/-- A pass that starts in sector 0 stores its piece. -/
theorem written_low {m : Mem} {addr : Nat} {front piece : List Byte}
    (low : addr + front.length + piece.length ≤ spiFlashSectorSize) :
    (written m addr front).write (addr + front.length) piece = written m addr (front ++ piece) := by
  have clean : dirtyAbove m addr front.length = false := dirtyAbove_low (by omega)
  have clean' : dirtyAbove m addr (front ++ piece).length = false :=
    dirtyAbove_low (by rw [List.length_append]; omega)
  funext x
  by_cases sector : x < spiFlashSectorSize
  · have here : written m addr front x = m.write addr front x := by simp [written, sector, clean]
    rw [Mem.write_at here, ← Mem.write_append]
    simp only [written, if_pos sector, clean', Bool.false_eq_true, if_false]
  · rw [Mem.write_out (by omega)]
    simp only [written, if_neg sector]
    rw [Mem.program_append, Mem.program_out (m := m.program addr front) (by omega)]

/-- A pass above sector 0 programs its piece, and blanks sector 0 if it was dirty. -/
theorem written_above {m : Mem} {addr : Nat} {front piece : List Byte} (above : spiFlashSectorSize ≤ addr + front.length)
    (x : Nat) :
    (if x < spiFlashSectorSize then
        (if dirtyAbove m (addr + front.length) piece.length then 0xFF#8 else written m addr front x)
      else (written m addr front).program (addr + front.length) piece x) = written m addr (front ++ piece) x := by
  have dirty : dirtyAbove m addr (front ++ piece).length =
      (dirtyAbove m addr front.length || dirtyAbove m (addr + front.length) piece.length) := by
    rw [List.length_append, dirtyAbove_add]
  by_cases sector : x < spiFlashSectorSize
  · have same : m.write addr (front ++ piece) x = m.write addr front x := by
      rw [Mem.write_append, Mem.write_out (by omega)]
    simp only [written, if_pos sector, dirty, same]
    cases dirtyAbove m addr front.length <;> cases dirtyAbove m (addr + front.length) piece.length <;> rfl
  · have here : written m addr front x = m.program addr front x := by simp [written, sector]
    rw [if_neg sector, Mem.program_at here, ← Mem.program_append]
    simp only [written, if_neg sector]

/-- What holds at the head of each pass of `flashWriteData`. -/
structure WriteData.At (m : Mem) (addr : Nat) (data : List Byte) (done : Nat) (s : WriteData) : Prop where
  within : done < data.length
  bus : s.dev.bus.Ready (written m addr (data.take done))
  image : s.dev.buff.length = spiFlashSectorSize
  cursor : s.addr = addr + done
  rest : s.data = data.drop done
  length : s.len = data.length - done
  pastLength : s.past.length = done
  sector : s.secpos * spiFlashSectorSize + s.secoff = s.addr
  positive : 0 < s.secremain
  piece : s.secremain ≤ s.len
  page : s.secoff + s.secremain ≤ spiFlashSectorSize
  full : s.secremain < s.len → s.secoff + s.secremain = spiFlashSectorSize

/-- The cells before a pass agree with the original ones on the piece. -/
theorem written_piece (m : Mem) (addr : Nat) (front : List Byte) (i : Nat) :
    written m addr front (addr + front.length + i) = m (addr + front.length + i) := by
  unfold written
  split
  · rename_i sector
    rw [dirtyAbove_low (by omega), if_neg (by decide), Mem.write_out (by omega)]
  · rw [Mem.program_out (by omega)]

/-- Either path takes the cells from the content for the bytes done to the
content for one piece more. -/
theorem written_sector {m : Mem} {addr secpos secoff : Nat} {front piece : List Byte}
    (sector : secpos * spiFlashSectorSize + secoff = addr + front.length)
    (fits : secoff + piece.length ≤ spiFlashSectorSize) :
    ((∃ i, i < piece.length ∧ written m addr front (addr + front.length + i) ≠ 0xFF#8) →
      reprogrammed (written m addr front) secpos secoff piece = written m addr (front ++ piece)) ∧
    ((∀ i, i < piece.length → written m addr front (addr + front.length + i) = 0xFF#8) →
      (written m addr front).program (addr + front.length) piece = written m addr (front ++ piece)) := by
  by_cases zero : secpos = 0
  · subst zero
    have start : secoff = addr + front.length := by omega
    constructor
    · intro _
      rw [reprogrammed_zero fits, start, written_low (by omega)]
    · intro blank
      rw [Mem.program_blank blank, written_low (by omega)]
  · have base : spiFlashSectorSize ≤ secpos * spiFlashSectorSize :=
      Nat.le_mul_of_pos_left _ (Nat.pos_of_ne_zero zero)
    simp only [written_piece]
    constructor
    · rintro ⟨i, hi, dirty⟩
      have above : dirtyAbove m (addr + front.length) piece.length = true :=
        dirtyAbove_iff.mpr ⟨i, hi, by omega, dirty⟩
      funext x
      rw [reprogrammed_above (Nat.pos_of_ne_zero zero) fits, sector, ← written_above (by omega) x, above, if_pos rfl]
    · intro blank
      have above : dirtyAbove m (addr + front.length) piece.length = false := by
        rw [Bool.eq_false_iff, Ne, dirtyAbove_iff]
        rintro ⟨i, hi, -, dirty⟩
        exact dirty (blank i hi)
      funext x
      rw [← written_above (by omega) x, above]
      by_cases low : x < spiFlashSectorSize
      · rw [if_pos low, Mem.program_out (by omega)]
        rfl
      · rw [if_neg low]

/-- **The sector of one pass** is handled on one path or the other. -/
theorem WriteData.At.writeSector {m : Mem} {addr done : Nat} {data : List Byte} {s : WriteData}
    (at_ : s.At m addr data done) (fits : addr + data.length ≤ chipSize) :
    ∃ dev sent, writeSector s = some (dev, sent) ∧ sent.length = s.secremain ∧
      dev.bus.Ready (written m addr (data.take (done + s.secremain))) ∧ dev.buff.length = spiFlashSectorSize := by
  have within := at_.within
  have len := at_.length
  have piece := at_.piece
  have sector := at_.sector
  have cursor := at_.cursor
  have page := at_.page
  have positive := at_.positive
  simp only [chipSize, spiFlashSectorSize] at fits sector page
  have small : s.secpos < 4096 := by omega
  have sectorZero : s.secpos % chipSize / spiFlashSectorSize * spiFlashSectorSize = 0 := by
    rw [Nat.mod_eq_of_lt (by simp only [chipSize]; omega), Nat.div_eq_of_lt small, Nat.zero_mul]
  have size : (s.data.take s.secremain).length = s.secremain := by
    rw [at_.rest, List.length_take, List.length_drop]; omega
  have front : (data.take done).length = done := by rw [List.length_take]; omega
  have whole : data.take (done + s.secremain) = data.take done ++ s.data.take s.secremain := by
    rw [at_.rest, List.take_add]
  have base : u32 (s.secpos * spiFlashSectorSize) = s.secpos * spiFlashSectorSize :=
    u32_of_lt (by simp only [spiFlashSectorSize]; omega)
  obtain ⟨ready, image⟩ := flashReadData_ready at_.bus (s.secpos * spiFlashSectorSize) s.dev.buff
    (by rw [at_.image]; simp only [chipSize, spiFlashSectorSize]; omega) (by rw [at_.image]; exact sectorSize_pos)
  obtain ⟨path, direct⟩ := @written_sector m addr s.secpos s.secoff (data.take done) (s.data.take s.secremain)
    (by rw [front, at_.sector, cursor]) (by rw [size]; exact at_.page)
  have check := @check_dirty (written m addr (data.take done)) (s.secpos * spiFlashSectorSize) s.secoff
    s.secremain spiFlashSectorSize at_.page
  have here : s.secpos * spiFlashSectorSize + s.secoff = addr + (data.take done).length := by
    rw [front, at_.sector, cursor]
  rw [size] at path direct
  rw [here] at check
  rw [whole]
  unfold Storage.writeSector
  simp only [base, image, at_.image]
  by_cases dirty : ∃ i, i < s.secremain ∧ written m addr (data.take done) (addr + (data.take done).length + i) ≠ 0xFF#8
  · rw [if_pos (check.mpr dirty), ← path dirty]
    obtain ⟨b₁, erase, erased⟩ := flashEraseSector_ready ready s.secpos
    rw [sectorZero] at erased
    have merged : (mergeSector ((written m addr (data.take done)).read (s.secpos * spiFlashSectorSize) spiFlashSectorSize)
        s.secoff (s.data.take s.secremain)).length = spiFlashSectorSize := by
      rw [mergeSector_read (by rw [size]; exact at_.page), Mem.length_read]
    obtain ⟨b₂, sent, program, programmed, same⟩ := flashWriteNoCheck_ready erased (s.secpos * spiFlashSectorSize) _
      (by rw [merged]; simp only [chipSize, spiFlashSectorSize]; omega) (by rw [merged]; exact sectorSize_pos)
    refine ⟨⟨b₂, sent⟩, s.data.take s.secremain, ?_, size, programmed, same.trans merged⟩
    simp only [erase, program, Option.bind_eq_bind, Option.bind_some]
  · rw [if_neg (mt check.mp dirty), ← direct (by simpa using dirty)]
    obtain ⟨b₁, sent, program, programmed, same⟩ := flashWriteNoCheck_ready ready s.addr (s.data.take s.secremain)
      (by rw [size]; simp only [chipSize]; omega) (by rw [size]; exact positive)
    rw [front, ← cursor]
    refine ⟨⟨b₁, (written m addr (data.take done)).read (s.secpos * spiFlashSectorSize) spiFlashSectorSize⟩, sent, ?_,
      same.trans size, programmed, ?_⟩
    case refine_2 => rw [Mem.length_read]
    simp only [program, Option.bind_eq_bind, Option.bind_some]

/-- The variables of `flashWriteData` after a pass that goes on. -/
def WriteData.next (s : WriteData) (dev : Device) (sent : List Byte) : WriteData where
  dev := dev
  secpos := u32 (s.secpos + 1)
  secoff := 0
  addr := u32 (s.addr + s.secremain)
  past := s.past ++ sent
  data := s.data.drop s.secremain
  len := s.len - s.secremain
  secremain := if s.len - s.secremain > spiFlashSectorSize then spiFlashSectorSize else u16 (s.len - s.secremain)

/-- **A pass writes one sector**, and leaves the loop with the last. -/
theorem writeDataPass_run (s : WriteData) :
    writeDataPass s = (writeSector s).map fun r =>
      if s.len = s.secremain then .inr (r.1, s.past ++ r.2 ++ s.data.drop s.secremain) else .inl (s.next r.1 r.2) := by
  unfold writeDataPass
  cases writeSector s with
  | none => rfl
  | some r =>
    by_cases last : s.len = s.secremain
    · simp [last]
    · simp only [Option.bind_eq_bind, Option.bind_some, Option.map_some, if_neg last]
      rfl

/-- One pass: the last sector leaves the loop, another moves the cursors. -/
theorem writeDataPass_at {m : Mem} {addr done : Nat} {data : List Byte} {s : WriteData}
    (at_ : s.At m addr data done) (fits : addr + data.length ≤ chipSize) :
    (∃ s', writeDataPass s = some (.inl s') ∧ s'.At m addr data (done + s.secremain) ∧ s'.len < s.len) ∨
    (∃ dev sent, writeDataPass s = some (.inr (dev, sent)) ∧ dev.bus.Ready (written m addr data) ∧
      sent.length = data.length) := by
  obtain ⟨dev, sent, run, size, ready, image⟩ := at_.writeSector fits
  have within := at_.within
  have len := at_.length
  have piece := at_.piece
  have cursor := at_.cursor
  have positive := at_.positive
  simp only [chipSize, spiFlashSectorSize] at fits image
  have bound : s.addr + s.secremain ≤ 16777216 := by omega
  have sector := at_.sector
  simp only [spiFlashSectorSize] at sector
  rw [writeDataPass_run, run, Option.map_some]
  by_cases last : s.len = s.secremain
  · right
    have all : done + s.secremain = data.length := by omega
    refine ⟨dev, s.past ++ sent ++ s.data.drop s.secremain, by rw [if_pos last], ?_, ?_⟩
    · rw [all, List.take_length] at ready
      exact ready
    · rw [at_.rest]
      simp only [List.length_append, List.length_drop, at_.pastLength, size]
      omega
  · left
    have boundary := at_.full (by omega)
    simp only [spiFlashSectorSize] at boundary
    have next : (s.secpos + 1) * 4096 = s.addr + s.secremain := by
      rw [Nat.add_mul, ← sector, Nat.add_assoc, boundary]
    have small : s.secpos + 1 ≤ (s.secpos + 1) * 4096 := Nat.le_mul_of_pos_right _ (Nat.lt_of_sub_eq_succ rfl)
    have here : u32 (s.secpos + 1) = s.secpos + 1 :=
      u32_of_lt (Nat.lt_of_le_of_lt (Nat.le_trans small (next ▸ bound)) (by decide))
    have there : u32 (s.addr + s.secremain) = s.addr + s.secremain :=
      u32_of_lt (Nat.lt_of_le_of_lt bound (by decide))
    have further := next_piece_min (s.len - s.secremain) spiFlashSectorSize (by decide)
    refine ⟨s.next dev sent, by rw [if_neg last], ?_, ?_⟩
    · constructor
      · omega
      · exact ready
      · exact image
      · simp only [WriteData.next, cursor]
        rw [u32_of_lt (by omega)]; omega
      · simp only [WriteData.next, at_.rest, List.drop_drop]
      · simp only [WriteData.next]; omega
      · simp only [WriteData.next, List.length_append, at_.pastLength, size]
      · show u32 (s.secpos + 1) * spiFlashSectorSize + 0 = u32 (s.addr + s.secremain)
        rw [here, there, Nat.add_zero]
        exact next
      all_goals simp only [WriteData.next, further, spiFlashSectorSize]
      all_goals omega
    · simp only [WriteData.next]; omega

/-- **The run of `flashWriteData`**: it returns, and leaves exactly `written`. -/
theorem flashWriteData_run {dev : Device} {m : Mem} (ready : dev.bus.Ready m)
    (image : dev.buff.length = spiFlashSectorSize) (addr : Nat) (data : List Byte)
    (fits : addr + data.length ≤ chipSize) (nonempty : 0 < data.length) :
    ∃ dev' sent, flashWriteData addr data dev = some (dev', sent) ∧ dev'.bus.Ready (written m addr data) := by
  have offset : u16 (addr % spiFlashSectorSize) = addr % spiFlashSectorSize :=
    u16_of_lt (by simp only [spiFlashSectorSize]; omega)
  obtain ⟨piece, size, positive, within, page, full⟩ :=
    first_piece addr data.length spiFlashSectorSize (Nat.lt_of_sub_eq_succ rfl) sectorSize_pos nonempty
  have start : WriteData.At m addr data 0
      ⟨dev, addr / spiFlashSectorSize, addr % spiFlashSectorSize, piece, addr, [], data, data.length⟩ := by
    refine ⟨nonempty, ?_, image, rfl, rfl, rfl, rfl, ?_, positive, within, page, full⟩
    · rw [List.take_zero, written_nil]
      exact ready
    · simp only [spiFlashSectorSize]
      omega
  obtain ⟨r, run, post⟩ := Loop.exec_returns (fun s => ∃ done, WriteData.At m addr data done s)
    (fun r : Device × List Byte => r.1.bus.Ready (written m addr data)) (fun s => s.len)
    (fun s inv => by
      obtain ⟨done, at_⟩ := inv
      rcases writeDataPass_at at_ fits with ⟨s', pass, next, less⟩ | ⟨dev, sent, pass, post, -⟩
      · exact Or.inl ⟨s', pass, ⟨_, next⟩, less⟩
      · exact Or.inr ⟨(dev, sent), pass, post⟩) ⟨0, start⟩ (Nat.lt_succ_self data.length)
  refine ⟨r.1, r.2, ?_, post⟩
  simp only [flashWriteData, offset, size]
  exact run

/-! ## When the write is exact -/

/-- The routine returned, the range holds `data` and every other cell of the
part is as before. -/
def WritesExactly (m : Mem) (addr : Nat) (data : List Byte) (r : Option (Device × List Byte)) : Prop :=
  ∃ dev sent, r = some (dev, sent) ∧
    (∀ k (hk : k < data.length), dev.bus.chip.mem (addr + k) = data[k]) ∧
    ∀ x, x < chipSize → x < addr ∨ addr + data.length ≤ x → dev.bus.chip.mem x = m x

/-- No byte of the range above sector 0 needs an erase, or none is there to be
erased for: the new bytes only clear bits, and sector 0 is to be blank anyway. -/
def EraseHarmless (m : Mem) (addr : Nat) (data : List Byte) : Prop :=
  (∀ k, k < data.length → spiFlashSectorSize ≤ addr + k → m (addr + k) = 0xFF#8) ∨
  ((∀ k (hk : k < data.length), spiFlashSectorSize ≤ addr + k → m (addr + k) &&& data[k] = data[k]) ∧
    (∀ k (hk : k < data.length), addr + k < spiFlashSectorSize → data[k] = 0xFF#8) ∧
    ∀ x, x < spiFlashSectorSize → x < addr ∨ addr + data.length ≤ x → m x = 0xFF#8)

theorem written_low_clean {m : Mem} {addr x : Nat} {data : List Byte} (low : x < spiFlashSectorSize)
    (clean : dirtyAbove m addr data.length = false) : written m addr data x = m.write addr data x := by
  simp [written, low, clean]

theorem written_low_dirty {m : Mem} {addr x : Nat} {data : List Byte} (low : x < spiFlashSectorSize)
    (dirty : dirtyAbove m addr data.length = true) : written m addr data x = 0xFF#8 := by
  simp [written, low, dirty]

theorem written_high {m : Mem} {addr x : Nat} {data : List Byte} (high : spiFlashSectorSize ≤ x) :
    written m addr data x = m.program addr data x := by
  simp only [written, if_neg (Nat.not_lt.mpr high)]

/-- **When `written` is the content asked for.** -/
theorem written_exact_iff (m : Mem) (addr : Nat) (data : List Byte) :
    ((∀ k (hk : k < data.length), written m addr data (addr + k) = data[k]) ∧
      ∀ x, x < chipSize → x < addr ∨ addr + data.length ≤ x → written m addr data x = m x) ↔
    EraseHarmless m addr data := by
  have sectors : spiFlashSectorSize ≤ chipSize := by decide
  cases dirty : dirtyAbove m addr data.length with
  | false =>
    have blank : ∀ k, k < data.length → spiFlashSectorSize ≤ addr + k → m (addr + k) = 0xFF#8 := by
      intro k hk above
      by_contra cell
      rw [dirtyAbove_iff.mpr ⟨k, hk, above, cell⟩] at dirty
      cases dirty
    refine iff_of_true ⟨?_, ?_⟩ (Or.inl blank)
    · intro k hk
      by_cases low : addr + k < spiFlashSectorSize
      · rw [written_low_clean low dirty, Mem.write_in k hk]
      · rw [written_high (by omega), Mem.program_in k hk, blank k hk (by omega), erased_and]
    · intro x _ out
      by_cases low : x < spiFlashSectorSize
      · rw [written_low_clean low dirty, Mem.write_out out]
      · rw [written_high (by omega), Mem.program_out out]
  | true =>
    obtain ⟨k₀, hk₀, above₀, cell₀⟩ := dirtyAbove_iff.mp dirty
    constructor
    · rintro ⟨inside, outside⟩
      refine Or.inr ⟨?_, ?_, ?_⟩
      · intro k hk above
        have cell := inside k hk
        rwa [written_high above, Mem.program_in k hk] at cell
      · intro k hk low
        have cell := inside k hk
        rw [written_low_dirty low dirty] at cell
        exact cell.symm
      · intro x low out
        have cell := outside x (by omega) out
        rw [written_low_dirty low dirty] at cell
        exact cell.symm
    · rintro (blank | ⟨clears, low, rest⟩)
      · exact absurd (blank k₀ hk₀ above₀) cell₀
      · refine ⟨?_, ?_⟩
        · intro k hk
          by_cases sector : addr + k < spiFlashSectorSize
          · rw [written_low_dirty sector dirty, low k hk sector]
          · rw [written_high (by omega), Mem.program_in k hk, clears k hk (by omega)]
        · intro x _ out
          by_cases sector : x < spiFlashSectorSize
          · rw [written_low_dirty sector dirty, rest x sector out]
          · rw [written_high (by omega), Mem.program_out out]

/-- **Read-modify-write of the storage path**: for every content, range and data
the routine returns, and it is the write asked for exactly when the erase of
sector 0 does no harm and none was needed above it. -/
theorem flashWriteData_exact_iff {dev : Device} {m : Mem} (ready : dev.bus.Ready m)
    (image : dev.buff.length = spiFlashSectorSize) (addr : Nat) (data : List Byte)
    (fits : addr + data.length ≤ chipSize) (nonempty : 0 < data.length) :
    WritesExactly m addr data (flashWriteData addr data dev) ↔ EraseHarmless m addr data := by
  obtain ⟨dev', sent, run, done⟩ := flashWriteData_run ready image addr data fits nonempty
  rw [← written_exact_iff, run]
  constructor
  · rintro ⟨d, s, same, inside, outside⟩
    cases same
    rw [done.stored] at inside outside
    exact ⟨inside, outside⟩
  · rintro ⟨inside, outside⟩
    refine ⟨dev', sent, rfl, ?_, ?_⟩ <;> rw [done.stored] <;> assumption

/-- A chip holding `m` with nothing in progress, and the driver's buffer. -/
def restingDevice (m : Mem) : Device :=
  ⟨⟨⟨m, false, 0, fun _ => 3⟩, false, [], fun _ => 0, 0⟩, List.replicate spiFlashSectorSize 0⟩

theorem restingDevice_ready (m : Mem) : (restingDevice m).bus.Ready m := ⟨rfl, rfl, rfl⟩

/-- A write to a blank chip across the end of sector 0. -/
theorem flashWriteData_exact_blank : WritesExactly (fun _ => 0xFF#8) 4095 [0x12#8, 0x34#8]
    (flashWriteData 4095 [0x12#8, 0x34#8] (restingDevice fun _ => 0xFF#8)) :=
  (flashWriteData_exact_iff (restingDevice_ready _) (List.length_replicate ..) 4095 _ (by decide) (by decide)).mpr
    (Or.inl fun _ _ _ => rfl)

/-- One byte to a programmed sector 1: it keeps its old value, and sector 0 is gone. -/
theorem flashWriteData_wrong_sector : ¬ WritesExactly (fun _ => 0x00#8) 4096 [0xFF#8]
    (flashWriteData 4096 [0xFF#8] (restingDevice fun _ => 0x00#8)) := by
  obtain ⟨dev', sent, run, done⟩ := flashWriteData_run (restingDevice_ready fun _ => 0x00#8)
    (List.length_replicate ..) 4096 [0xFF#8] (by decide) (by decide)
  rw [run]
  rintro ⟨d, s, same, inside, -⟩
  cases same
  have cell := inside 0 (by decide)
  rw [done.stored, written_high (by decide), Mem.program_in 0 (by decide)] at cell
  revert cell
  decide

end OffLineProgrammer.Storage
