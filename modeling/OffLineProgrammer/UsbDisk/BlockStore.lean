import OffLineProgrammer.UsbDisk.ReadStage
import OffLineProgrammer.UsbDisk.WriteStage

/-!
# The disk is a block store

Every sequence of well-formed reads and writes runs to its end: each read is
answered with the current content of its sectors, the flash ends with the store
after the writes, and at no event in between has a sector outside the extents of
the writes changed.
-/

namespace OffLineProgrammer.UsbDisk
set_option autoImplicit false
open OffLineProgrammer.Lib OffLineProgrammer.Storage Udisk Host

/-! ## Cells and sectors -/

section Cells

variable {m : Mem} {c : Io}

/-- Consecutive pieces of a range, in order, are the range. -/
theorem read_pieces (m : Mem) (a p n : Nat) :
    ((List.range n).flatMap fun k => m.read (a + p * k) p) = m.read a (p * n) := by
  induction n with
  | zero => rfl
  | succ n ih =>
    rw [List.range_succ, List.flatMap_append, ih, Nat.mul_succ, Mem.read_add, List.flatMap_cons, List.flatMap_nil,
      List.append_nil]

/-- The cells after a command. -/
def effect (m : Mem) (c : Io) : Mem := if c.IsRead then m else written m c

/-- The packets that a command is answered with. -/
def reply (m : Mem) (c : Io) : List (List Byte) :=
  if c.IsRead then dataPackets m c ++ [goodCsw c] else [goodCsw c]

/-- A write replaces the sectors of its extent. -/
theorem sector_written (write : ¬ c.IsRead) (s : Nat) :
    sector (written m c) s = BlockStore.Write.apply ⟨c.first, sectorsOf c.bytes c.sectors⟩ (sector m) s := by
  have length := Io.bytes_length write
  by_cases covered : c.first ≤ s ∧ s < c.first + c.sectors
  · obtain ⟨i, rfl⟩ : ∃ i, s = c.first + i := ⟨s - c.first, by omega⟩
    have inside : i < c.sectors := by omega
    have block : (sectorsOf c.bytes c.sectors).getD i (sector m (c.first + i)) =
        (c.bytes.drop (4096 * i)).take 4096 := by
      simp [sectorsOf, List.getD_eq_getElem?_getD, inside]
    simp only [BlockStore.Write.apply, if_pos covered.1, Nat.add_sub_cancel_left, block]
    apply List.ext_getElem
    · rw [sector, Mem.length_read, List.length_take, List.length_drop, length]
      omega
    · intro j hj _
      rw [sector, Mem.length_read] at hj
      have fits : 4096 * i + j < c.bytes.length := by omega
      rw [List.getElem_take, List.getElem_drop]
      simp only [sector, Mem.getElem_read, written]
      rw [Nat.mul_add, Nat.add_assoc, Mem.write_in (4096 * i + j) fits]
  · have outside : ¬ BlockStore.Write.Covers ⟨c.first, sectorsOf c.bytes c.sectors⟩ s := by
      simpa only [BlockStore.Write.Covers, sectorsOf, List.length_map, List.length_range] using covered
    rw [BlockStore.Write.apply_uncovered outside]
    exact Mem.read_congr fun i hi => written_outside write (by omega)

/-- A command changes the sectors as its write does. -/
theorem sector_effect (m : Mem) (c : Io) : sector (effect m c) = BlockStore.after c.write?.toList (sector m) := by
  by_cases read : c.IsRead
  · simp only [effect, Io.write?, if_pos read, Option.toList_none, BlockStore.after_nil]
  · simp only [effect, Io.write?, if_neg read, Option.toList_some, BlockStore.after_cons, BlockStore.after_nil]
    exact funext (sector_written read)

/-- The packets of a read hold its sectors. -/
theorem dataPackets_flatten (m : Mem) (c : Io) :
    (dataPackets m c).flatten = (List.range c.sectors).flatMap fun i => sector m (c.first + i) := by
  have packets := read_pieces m (4096 * c.first) 64 (64 * c.sectors)
  have sectors := read_pieces m (4096 * c.first) 4096 c.sectors
  rw [← Nat.mul_assoc, ← sectors] at packets
  simp only [sector, Nat.mul_add]
  rw [← packets, List.flatMap_def]
  rfl

theorem reply_answers (m : Mem) (c : Io) : Answers (sector m) c (reply m c) := by
  have sizes : ∀ p ∈ dataPackets m c, p.length = 64 := by
    intro p mem
    obtain ⟨k, -, rfl⟩ := List.mem_map.mp mem
    exact Mem.length_read ..
  have count : (dataPackets m c).length = 64 * c.sectors := by rw [dataPackets, List.length_map, List.length_range]
  constructor
  · intro read
    have sent : reply m c = dataPackets m c ++ [goodCsw c] := if_pos read
    exact ⟨dataPackets m c, sent, count, sizes, dataPackets_flatten m c⟩
  · intro write
    exact if_neg write

end Cells

/-! ## One command -/

/-- The sectors no write of `ws` covers are those of `m`. -/
def Kept (m : Mem) (ws : List (BlockStore.Write (List Byte))) (g : Host) : Prop :=
  ∀ s, (∀ w ∈ ws, ¬ w.Covers s) → sector g.flash s = sector m s

section Run

variable (flashId : Byte) {m : Mem} {c : Io} {wire : List (List Byte)} {h : Host}

theorem Idle.runs (idle : Idle m wire h) (c : Io) :
    Run.Throughout (step (udiskFun flashId)) (Kept m c.write?.toList) (Idle (effect m c) (wire ++ reply m c))
      c.script h := by
  by_cases read : c.IsRead
  · have stays : ∀ g : Host, g.flash = m → Kept m c.write?.toList g := by
      intro g same s _
      rw [same]
    simp only [effect, reply, if_pos read]
    exact Run.throughout_mono stays (fun _ last => last) (idle.reads flashId read)
  · have spares : ∀ g : Host, Spared m c g → Kept m c.write?.toList g := by
      intro g spared s none
      have outside : ¬ (c.first ≤ s ∧ s < c.first + c.sectors) := by
        simpa [Io.write?, read, BlockStore.Write.Covers, sectorsOf] using none
      exact Mem.read_congr fun i hi => spared _ (by omega)
    simp only [effect, reply, if_neg read]
    exact Run.throughout_mono spares (fun _ last => last) (idle.writes flashId read)

/-! ## All commands -/

/-- The cells after the commands. -/
def effects (m : Mem) (cs : List Io) : Mem := cs.foldl effect m

/-- The answers to the commands, in order. -/
def replies : Mem → List Io → List (List (List Byte))
  | _, [] => []
  | m, c :: cs => reply m c :: replies (effect m c) cs

theorem writesOf_cons (c : Io) (cs : List Io) : writesOf (c :: cs) = c.write?.toList ++ writesOf cs := by
  unfold writesOf
  rw [List.filterMap_cons]
  cases c.write? <;> rfl

theorem sector_effects (cs : List Io) : ∀ m : Mem, sector (effects m cs) = BlockStore.after (writesOf cs) (sector m) := by
  induction cs with
  | nil => intro m; simp only [effects, List.foldl_nil, writesOf, List.filterMap_nil, BlockStore.after_nil]
  | cons c cs ih =>
    intro m
    rw [writesOf_cons, BlockStore.after_append, ← sector_effect, ← ih, effects, effects, List.foldl_cons]

theorem length_replies (cs : List Io) : ∀ m : Mem, (replies m cs).length = cs.length := by
  induction cs with
  | nil => intro m; rfl
  | cons c cs ih =>
    intro m
    simp only [replies, List.length_cons, ih]

/-- Each command is answered from the cells after those before it. -/
theorem replies_getElem? (cs : List Io) : ∀ (m : Mem) (i : Nat),
    (replies m cs)[i]? = (cs[i]?).map fun c => reply (effects m (cs.take i)) c := by
  induction cs with
  | nil => intro m i; rfl
  | cons c cs ih =>
    intro m i
    cases i with
    | zero => rfl
    | succ i => simpa [replies, effects] using ih (effect m c) i

/-- The commands run one after the other. -/
theorem Idle.runsAll (cs : List Io) : ∀ {m : Mem} {wire : List (List Byte)} {h : Host}, Idle m wire h →
    Run.Throughout (step (udiskFun flashId)) (Kept m (writesOf cs))
      (Idle (effects m cs) (wire ++ (replies m cs).flatten)) (cs.flatMap Io.script) h := by
  induction cs with
  | nil =>
    intro m wire h idle
    apply Run.Throughout.done
    simpa only [effects, List.foldl_nil, replies, List.flatten_nil, List.append_nil] using idle
  | cons c cs ih =>
    intro m wire h idle
    rw [writesOf_cons, List.flatMap_cons]
    have front : ∀ g : Host, Kept m c.write?.toList g → Kept m (c.write?.toList ++ writesOf cs) g :=
      fun g kept s none => kept s fun w mem => none w (List.mem_append_left _ mem)
    have rest : ∀ g : Host, Kept (effect m c) (writesOf cs) g → Kept m (c.write?.toList ++ writesOf cs) g := by
      intro g kept s none
      rw [kept s fun w mem => none w (List.mem_append_right _ mem), sector_effect]
      exact BlockStore.after_uncovered fun w mem => none w (List.mem_append_left _ mem)
    apply Run.throughout_append (Run.throughout_mono front (fun _ last => last) (idle.runs flashId c))
    intro g next
    have later := ih next
    rw [List.append_assoc, ← List.flatten_cons] at later
    rw [effects, List.foldl_cons, replies]
    exact Run.throughout_mono rest (fun _ last => last) later

/-- The state after `Udisk_Init` is one between two commands. -/
theorem Host.Initial.idle {start : Host} (initial : Initial m start) : Idle m start.wire start := by
  obtain ⟨disk, bus, downBuffer, packBuffer⟩ := initial
  refine ⟨⟨bus, downBuffer, packBuffer⟩, ?_, ?_, ?_, ?_, rfl⟩ <;> rw [disk] <;> rfl

/-- **The disk refines a block store.** From `Udisk_Init` every list of commands
runs to its end; each read is answered with the current content of its sectors,
the flash ends with the content after all writes, and no event in between
changes a sector outside the extents of the writes. -/
theorem blockStore_refined (flashId : Byte) {m : Mem} {start : Host} (initial : Initial m start) (cs : List Io) :
    ∃ (h : Host) (answers : List (List (List Byte))), Run.run (step (udiskFun flashId)) (cs.flatMap Io.script) start = some h ∧
      h.wire = start.wire ++ answers.flatten ∧ answers.length = cs.length ∧
      (∀ i c answer, cs[i]? = some c → answers[i]? = some answer →
        Answers (BlockStore.current (writesOf (cs.take i)) (sector m)) c answer) ∧
      (∀ s, sector h.flash s = BlockStore.current (writesOf cs) (sector m) s) ∧
      ∀ front rest, cs.flatMap Io.script = front ++ rest →
        ∃ g, Run.run (step (udiskFun flashId)) front start = some g ∧
          ∀ s, (∀ w ∈ writesOf cs, ¬ w.Covers s) → sector g.flash s = sector m s := by
  have whole := initial.idle.runsAll flashId cs
  obtain ⟨h, run, last⟩ := Run.throughout_run whole
  have stored : ∀ (cs : List Io), sector (effects m cs) = BlockStore.current (writesOf cs) (sector m) := by
    intro cs
    rw [sector_effects]
    exact funext (BlockStore.after_eq_current _ _)
  refine ⟨h, replies m cs, run, last.wire, length_replies cs m, ?_, ?_, ?_⟩
  · intro i c answer command answered
    rw [replies_getElem?, command, Option.map_some] at answered
    rw [← Option.some.inj answered, ← stored]
    exact reply_answers (effects m (cs.take i)) c
  · intro s
    rw [Host.flash, last.holds.bus.stored, stored]
  · intro front rest script
    rw [script] at whole
    have final : ∀ g : Host, Idle (effects m cs) (start.wire ++ (replies m cs).flatten) g → Kept m (writesOf cs) g := by
      intro g idle s none
      rw [Host.flash, idle.holds.bus.stored, sector_effects]
      exact BlockStore.after_uncovered none
    exact Run.throughout_prefix final whole

end Run

/-- Sector 8 is written with zeros. -/
def writeEight : Io where
  cbw := writeSector8
  payload := List.replicate 64 (packet [])
  signed := by decide
  nonempty := by decide
  fits := by decide
  length := by decide
  direction := Or.inr ⟨by decide, by decide, by decide⟩

/-- Sectors 8 and 9 are read. -/
def readEight : Io where
  cbw := packet [0x55, 0x53, 0x42, 0x43, 0x02, 0x00, 0x00, 0x00, 0x00, 0x20, 0x00, 0x00, 0x80, 0x00, 0x0A,
    0x28, 0x00, 0x00, 0x00, 0x00, 0x08, 0x00, 0x00, 0x02, 0x00]
  payload := []
  signed := by decide
  nonempty := by decide
  fits := by decide
  length := by decide
  direction := Or.inl ⟨by decide, by decide, rfl⟩

/-- A write and a read on a blank chip. -/
theorem blockStore_refined_eight : ∃ h : Host,
    Run.run (step (udiskFun 0)) ([writeEight, readEight].flatMap Io.script) ⟨udiskInit, restingEnv, []⟩ = some h ∧
    ∀ s, sector h.flash s = BlockStore.current (writesOf [writeEight, readEight]) (sector fun _ => 0xFF#8) s := by
  have initial : Initial (fun _ => 0xFF#8) ⟨udiskInit, restingEnv, []⟩ :=
    ⟨rfl, restingEnv_ready, List.length_replicate .., List.length_replicate ..⟩
  obtain ⟨h, _, run, -, -, -, content, -⟩ := blockStore_refined 0 initial [writeEight, readEight]
  exact ⟨h, run, content⟩

end OffLineProgrammer.UsbDisk
