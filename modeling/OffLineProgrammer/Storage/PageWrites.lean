import OffLineProgrammer.Lib.Pieces
import OffLineProgrammer.Storage.WriteData

/-!
# The page writes of a range

`flashWriteNoCheck` writes the pieces of its buffer page by page, and nothing else. The
pieces follow each other, none is empty, and none crosses the end of a page, so that the
chip programs each byte where it belongs.
-/

namespace OffLineProgrammer.Storage
set_option autoImplicit false
open OffLineProgrammer.Lib

/-- Page writes one after the other, and the buffer they leave. -/
def writePages : List (Nat × List Byte) → Bus → Option (Bus × List Byte)
  | [], b => some (b, [])
  | p :: ps, b => do
    let (b, sent) ← flashWritePage p.1 p.2 b
    let (b, rest) ← writePages ps b
    some (b, sent ++ rest)

/-- Pieces one after the other, none of them empty, each inside one page. -/
def Paged : Nat → List (Nat × List Byte) → Prop
  | _, [] => True
  | addr, p :: ps => p.1 = addr ∧ 0 < p.2.length ∧ addr % spiFlashPageSize + p.2.length ≤ spiFlashPageSize ∧
      Paged (addr + p.2.length) ps

theorem writePages_cons {p : Nat × List Byte} {ps : List (Nat × List Byte)} {b b' : Bus} {sent : List Byte}
    (run : flashWritePage p.1 p.2 b = some (b', sent)) :
    writePages (p :: ps) b = (writePages ps b').map fun r => (r.1, sent ++ r.2) := by
  simp only [writePages, run, Option.bind_eq_bind, Option.bind_some]
  cases writePages ps b' <;> rfl

/-- **The pieces of a buffer** are inside the pages. -/
theorem paged_pieces {n addr : Nat} {data : List Byte} (few : data.length ≤ n) :
    Paged addr (pieces spiFlashPageSize addr data) := by
  induction n generalizing addr data with
  | zero =>
    obtain rfl := List.eq_nil_of_length_eq_zero (Nat.le_zero.mp few)
    trivial
  | succ n ih =>
    have block : 0 < spiFlashPageSize := by decide
    have room := Nat.mod_lt addr block
    rcases Nat.eq_zero_or_pos data.length with none | nonempty
    · obtain rfl := List.eq_nil_of_length_eq_zero none
      trivial
    · obtain ⟨k, first⟩ : ∃ k, k = min data.length (spiFlashPageSize - addr % spiFlashPageSize) := ⟨_, rfl⟩
      have length : (data.take k).length = k := by
        rw [List.length_take]
        omega
      rw [pieces_step block addr data nonempty first]
      refine ⟨rfl, ?_, ?_, ?_⟩
      · rw [length]
        omega
      · rw [length]
        omega
      · rw [length]
        apply ih
        rw [List.length_drop]
        omega

/-! ## The loop -/

/-- What holds at the head of each pass, whatever the chip does. -/
structure NoCheck.Cut (s : NoCheck) : Prop where
  length : s.len = s.data.length
  nonempty : 0 < s.len
  piece : s.pageremain = min s.len (spiFlashPageSize - s.addr % spiFlashPageSize)
  fits : s.addr + s.len ≤ chipSize

/-- A pass that goes round again takes one piece off. -/
theorem NoCheck.Cut.next {s : NoCheck} (cut : s.Cut) (more : s.len ≠ s.pageremain) (bus : Bus) (sent : List Byte) :
    (s.next bus sent).Cut ∧ (s.next bus sent).addr = s.addr + s.pageremain := by
  obtain ⟨length, nonempty, piece, fits⟩ := cut
  have size := next_piece_min (s.len - s.pageremain) spiFlashPageSize (by decide)
  simp only [chipSize, spiFlashPageSize] at *
  have moved : u32 (s.addr + s.pageremain) = s.addr + s.pageremain := u32_of_lt (by omega)
  refine ⟨⟨?_, ?_, ?_, ?_⟩, moved⟩
  · simp only [NoCheck.next, List.length_drop]
    omega
  · simp only [NoCheck.next]
    omega
  · simp only [NoCheck.next, moved, spiFlashPageSize, size]
    omega
  · simp only [NoCheck.next, moved, chipSize]
    omega

/-- The loop writes the pieces. -/
theorem NoCheck.Cut.run {fuel : Nat} {s : NoCheck} (cut : s.Cut) (enough : s.len < fuel) :
    Loop.exec noCheckPass fuel s =
      (writePages (pieces spiFlashPageSize s.addr s.data) s.bus).map fun r => (r.1, s.past ++ r.2) := by
  induction fuel generalizing s with
  | zero => cases enough
  | succ fuel ih =>
    have length := cut.length
    have nonempty := cut.nonempty
    have piece := cut.piece
    have room := Nat.mod_lt s.addr (show 0 < spiFlashPageSize by decide)
    rw [pieces_step (show 0 < spiFlashPageSize by decide) s.addr s.data (by omega) (k := s.pageremain)
      (by rw [piece, length])]
    cases run : flashWritePage s.addr (s.data.take s.pageremain) s.bus with
    | none =>
      have pass : noCheckPass s = none := by rw [noCheckPass_run, run, Option.map_none]
      simp only [Loop.exec, pass, writePages, run, Option.bind_eq_bind, Option.bind_none, Option.map_none]
    | some r =>
      obtain ⟨bus, sent⟩ := r
      rw [@writePages_cons (s.addr, s.data.take s.pageremain) _ _ _ _ run]
      by_cases last : s.len = s.pageremain
      · have all : s.data.drop s.pageremain = [] := List.drop_eq_nil_iff.mpr (by omega)
        rw [Loop.exec_leave (by rw [noCheckPass_run, run, Option.map_some, if_pos last]), all, pieces_nil]
        simp only [writePages, Option.map_some, List.append_nil]
      · obtain ⟨cut', moved⟩ := cut.next last bus sent
        have less : (s.next bus sent).len < fuel := by
          simp only [NoCheck.next]
          omega
        rw [Loop.exec_again (by rw [noCheckPass_run, run, Option.map_some, if_neg last]), ih cut' less, moved]
        simp only [NoCheck.next, Option.map_map, Function.comp_def, List.append_assoc]

/-- **`flashWriteNoCheck` is its page writes.** -/
theorem flashWriteNoCheck_eq {addr : Nat} {data : List Byte} (nonempty : 0 < data.length)
    (fits : addr + data.length ≤ chipSize) (b : Bus) :
    flashWriteNoCheck addr data b = writePages (pieces spiFlashPageSize addr data) b := by
  have size := first_piece_min addr data.length spiFlashPageSize (by decide)
  have start : (NoCheck.mk b addr [] data data.length
      (min data.length (spiFlashPageSize - addr % spiFlashPageSize))).Cut := ⟨rfl, nonempty, rfl, fits⟩
  have run := start.run (Nat.lt_succ_self _)
  simp only [flashWriteNoCheck, size]
  rw [run]
  cases writePages (pieces spiFlashPageSize addr data) b <;> rfl

/-- **`_25qxx_Flash_Write_NoCheck` respects the pages**: it writes the buffer in consecutive
pieces, none of them empty, each inside one page; the loop ends, and each cell of the
range keeps a one only where the byte has one, and the other cells are as they were. -/
theorem flashWriteNoCheck_pages {b : Bus} {m : Mem} (ready : b.Ready m) {addr : Nat} {data : List Byte}
    (nonempty : 0 < data.length) (fits : addr + data.length ≤ chipSize) :
    (flashWriteNoCheck addr data b = writePages (pieces spiFlashPageSize addr data) b ∧
      Paged addr (pieces spiFlashPageSize addr data) ∧
      ((pieces spiFlashPageSize addr data).map Prod.snd).flatten = data) ∧
    ∃ b' sent m', flashWriteNoCheck addr data b = some (b', sent) ∧ b'.Ready m' ∧
      (∀ i (hi : i < data.length), m' (addr + i) = m (addr + i) &&& data[i]) ∧
      ∀ x, x < addr ∨ addr + data.length ≤ x → m' x = m x := by
  refine ⟨⟨flashWriteNoCheck_eq nonempty fits b, paged_pieces (Nat.le_refl _), ?_⟩, ?_⟩
  · exact pieces_flatten (by decide) (Nat.le_refl _)
  · obtain ⟨b', sent, run, done, -⟩ := flashWriteNoCheck_ready ready addr data fits nonempty
    exact ⟨b', sent, _, run, done, fun i hi => Mem.program_in i hi, fun x out => Mem.program_out out⟩

/-- Four bytes over the end of a page of cells that hold `0x0F`. -/
theorem flashWriteNoCheck_pages_two :
    pieces spiFlashPageSize 254 [0x11#8, 0x22#8, 0x33#8, 0x44#8] = [(254, [0x11#8, 0x22#8]), (256, [0x33#8, 0x44#8])] ∧
    ∃ b' sent m', flashWriteNoCheck 254 [0x11#8, 0x22#8, 0x33#8, 0x44#8] (restingDevice fun _ => 0x0F#8).bus =
        some (b', sent) ∧ b'.Ready m' ∧ m' 254 = 0x01#8 ∧ m' 257 = 0x04#8 ∧ m' 0 = 0x0F#8 := by
  refine ⟨by decide, ?_⟩
  obtain ⟨-, b', sent, m', run, done, inside, outside⟩ := @flashWriteNoCheck_pages _ _
    (restingDevice_ready fun _ => 0x0F#8) 254 [0x11#8, 0x22#8, 0x33#8, 0x44#8] (by decide) (by decide)
  refine ⟨b', sent, m', run, done, ?_, ?_, outside 0 (by decide)⟩
  · exact inside 0 (by decide)
  · exact inside 3 (by decide)

end OffLineProgrammer.Storage
