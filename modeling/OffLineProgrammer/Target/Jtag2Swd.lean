import OffLineProgrammer.Target.WireRefines

/-!
# Switching to SWD, from swd_host.c

`JTAG2SWD` resets the line, sends the switching sequence, resets the line once more
and reads IDCODE. Wherever the port stands outside of a request and its answer, that
read is the read of a port at rest (`jtag2swd_rests`).
-/

namespace OffLineProgrammer.Target
set_option autoImplicit false
open OffLineProgrammer.Lib Serial

/-! ## The sequences -/

section Sequences

variable {τ : Type} (P : Peer τ)

/-- `swd_reset` -/
def swdReset (p : Pins τ) : Pins τ := swjSequence P 51 (List.replicate 8 0xFF) p

/-- `swd_switch` -/
def swdSwitch (val : BitVec 16) (p : Pins τ) : Pins τ := swjSequence P 16 [val.extractLsb' 0 8, val.extractLsb' 8 8] p

/-- `swd_read_dp` over the lines: whether it is answered with OK, and what is in `tmp_out` then. -/
def swdReadDpLines (c : DapData) (adr cell : Word) (p : Pins τ) : Bool × Word × Pins τ :=
  let read := swdTransferRetryLines P c (Request.word (.dpRead (adr &&& 0x0C))) cell p
  (read.1 = DAP_TRANSFER_OK, read.2)

/-- `swd_read_idcode` -/
def swdReadIdcode (c : DapData) (cell : Word) (p : Pins τ) : Bool × Word × Pins τ :=
  swdReadDpLines P c 0 cell (swjSequence P 8 [0] p)

/-- `JTAG2SWD`; the sequences do not fail. -/
def jtag2swd (c : DapData) (cell : Word) (p : Pins τ) : Bool × Word × Pins τ :=
  swdReadIdcode P c cell (swdReset P (swdSwitch P 0xE79E (swdReset P p)))

/-! ## The bits of a sequence -/

/-- The bits one after the other. -/
def driveBits (bits : List Bool) (p : Pins τ) : Pins τ := bits.foldl (fun p b => swClockCycle P { p with out := b }) p

/-- The loop of `SWJ_Sequence` sends what is left of a byte and then the others. -/
theorem swjBits_eq (count : Nat) (data : List Byte) (val : Byte) (n : Nat) (p : Pins τ) (eight : n ≤ 8)
    (enough : count ≤ n + 8 * data.length) :
    swjBits P count data val n p = driveBits P (((List.range n).map val.getLsbD ++ data.flatMap bitsOf).take count) p := by
  induction count generalizing data val n p with
  | zero => rfl
  | succ count ih =>
    have shifted : ∀ (v : Byte) (k : Nat), (List.range (k + 1)).map v.getLsbD = v.getLsbD 0 :: (List.range k).map (v >>> 1).getLsbD := by
      intro v k
      rw [List.range_succ_eq_map, List.map_cons, List.map_map]
      congr 1
      apply List.map_congr_left
      intro i _
      rw [BitVec.getLsbD_ushiftRight, Function.comp_apply, Nat.add_comm 1 i]
    have sent : ∀ (v : Byte) (p : Pins τ), swWriteBit P (v.setWidth 32) p = swClockCycle P { p with out := v.getLsbD 0 } := by
      intro v p
      rw [swWriteBit, pinSwdioOut, BitVec.getLsbD_setWidth]
      rfl
    cases n with
    | zero =>
      cases data with
      | nil => simp at enough
      | cons v data =>
        rw [List.length_cons] at enough
        rw [swjBits, List.headD_cons, List.tail_cons, ih data (v >>> 1) 7 _ (by decide) (by omega), sent]
        have first : bitsOf v = v.getLsbD 0 :: (List.range 7).map (v >>> 1).getLsbD := shifted v 7
        rw [List.range_zero, List.map_nil, List.nil_append, List.flatMap_cons, first, List.cons_append, List.take_succ_cons]
        rfl
    | succ n =>
      rw [swjBits, ih data (val >>> 1) n _ (by omega) (by omega), sent, shifted, List.cons_append, List.take_succ_cons]
      rfl

/-- **`SWJ_Sequence`** sends the first bits of its bytes, each with the low bit first. -/
theorem swjSequence_eq (count : Nat) (data : List Byte) (p : Pins τ) (enough : count ≤ 8 * data.length) :
    swjSequence P count data p = driveBits P ((data.flatMap bitsOf).take count) p := by
  rw [swjSequence, swjBits_eq P count data 0 0 p (by decide) (by omega)]
  rfl

theorem reset_bits (p : Pins τ) : swdReset P p = driveBits P (List.replicate 51 true) p := by
  rw [swdReset, swjSequence_eq P 51 _ p (by decide)]
  congr 1

theorem switch_bits (val : BitVec 16) (p : Pins τ) : swdSwitch P val p = driveBits P (bitsOf val) p := by
  have halves : bitsOf (val.extractLsb' 0 8) ++ bitsOf (val.extractLsb' 8 8) = bitsOf val := by
    have low : ∀ i ∈ List.range 8, (val.extractLsb' 0 8).getLsbD i = val.getLsbD i := by
      intro i below
      rw [BitVec.getLsbD_extractLsb', decide_eq_true (List.mem_range.mp below), Bool.true_and, Nat.zero_add]
    have high : ∀ i ∈ List.range 8, (val.extractLsb' 8 8).getLsbD i = val.getLsbD (8 + i) := by
      intro i below
      rw [BitVec.getLsbD_extractLsb', decide_eq_true (List.mem_range.mp below), Bool.true_and]
    have both : List.range 16 = List.range 8 ++ (List.range 8).map (8 + ·) := List.range_add (n := 8) (m := 8)
    rw [bitsOf, bitsOf, bitsOf, List.map_congr_left low, List.map_congr_left high, both, List.map_append, List.map_map]
    rfl
  rw [swdSwitch, swjSequence_eq P 16 [val.extractLsb' 0 8, val.extractLsb' 8 8] p (Nat.le_refl 16), List.flatMap_cons, List.flatMap_cons, List.flatMap_nil, List.append_nil,
    halves, List.take_of_length_le (by rw [length_bitsOf])]

theorem idle_bits (p : Pins τ) : swjSequence P 8 [0] p = driveBits P (List.replicate 8 false) p := by
  rw [swjSequence_eq P 8 _ p (by decide)]
  congr 1

end Sequences

/-! ## The port during the sequences -/

section Port

variable {δ : Type} {q : Port δ} {c : DapData} {d : δ}

/-- The port says nothing while the bits are driven. -/
inductive Quiet (q : Port δ) (c : DapData) : List Bool → Device δ → Prop where
  | nil (x : Device δ) : Quiet q c [] x
  | cons {b : Bool} {bits : List Bool} {x : Device δ} (first : x.drives = none) (rest : Quiet q c bits (x.edge q c b)) :
    Quiet q c (b :: bits) x

theorem Quiet.of_prefixes {bits : List Bool} {x : Device δ} (quiet : ∀ n < bits.length, (run q c (bits.take n) x).drives = none) :
    Quiet q c bits x := by
  induction bits generalizing x with
  | nil => exact .nil x
  | cons b bits ih => exact .cons (quiet 0 (Nat.succ_pos _)) (ih fun n less => quiet (n + 1) (Nat.succ_lt_succ less))

theorem Quiet.append {bits more : List Bool} {x : Device δ} (first : Quiet q c bits x) (rest : Quiet q c more (run q c bits x)) :
    Quiet q c (bits ++ more) x := by
  induction first with
  | nil x => exact rest
  | cons first _ ih => exact .cons first (ih rest)

theorem run_append (bits more : List Bool) (x : Device δ) : run q c (bits ++ more) x = run q c more (run q c bits x) :=
  List.foldl_append

theorem driveBits_run {bits : List Bool} {x : Device δ} (quiet : Quiet q c bits x) (out : Bool) :
    driveBits (wire q c) bits ⟨out, true, x, false⟩ = ⟨bits.getLastD out, true, run q c bits x, false⟩ := by
  induction quiet generalizing out with
  | nil x => rfl
  | @cons b bits x first rest ih =>
    have step : swClockCycle (wire q c) ⟨b, true, x, false⟩ = ⟨b, true, x.edge q c b, false⟩ := by
      simp [swClockCycle, pinSwdioIn, wire, first]
    rw [driveBits, List.foldl_cons, step]
    refine (ih b).trans ?_
    rw [List.getLastD_cons]
    rfl

/-- The port is neither in an answer nor in a request, save one that began with the
high bits of a line reset; `ones` counts as a port counts. -/
inductive Counting (d : δ) : Device δ → Prop where
  | idle (ones : Nat) (few : ones < 50) : Counting d ⟨d, .idle, ones⟩
  | header (k ones : Nat) (short : k ≤ 6) (few : ones < 50) : Counting d ⟨d, .header (List.replicate k true), ones⟩
  | deaf (ones : Nat) (few : ones < 50) : Counting d ⟨d, .deaf, ones⟩
  | reset (ones : Nat) : Counting d ⟨d, .reset, ones⟩
  | jtag (ones : Nat) : Counting d ⟨d, .jtag, ones⟩
  | select (bits : List Bool) (ones : Nat) (short : bits.length ≤ 15) (few : ones ≤ bits.length) :
    Counting d ⟨d, .select bits, ones⟩

theorem Counting.quiet {x : Device δ} (counting : Counting d x) : x.drives = none := by
  cases counting <;> rfl

theorem edge_reset {x : Device δ} (speaks : x.hasLine = true) (last : 50 ≤ x.ones + 1) :
    x.edge q c true = ⟨x.port, .reset, x.ones + 1⟩ := by
  unfold Device.edge
  split
  · next phase =>
    rw [Device.hasLine, phase] at speaks
    cases speaks
  · rw [if_pos rfl]
    exact if_pos ⟨speaks, last⟩

/-- One more high bit is counted, and a port that speaks SWD goes on doing so. -/
theorem Counting.high {x : Device δ} (counting : Counting d x) :
    Counting d (x.edge q c true) ∧ (x.edge q c true).ones = x.ones + 1 ∧
      (x.hasLine = true → (x.edge q c true).hasLine = true) := by
  by_cases last : x.hasLine = true ∧ 50 ≤ x.ones + 1
  · rw [edge_reset last.1 last.2]
    have here : x.port = d := by
      cases counting <;> rfl
    rw [here]
    exact ⟨.reset _, rfl, fun _ => rfl⟩
  · cases counting with
    | idle ones few =>
      have more : ones + 1 < 50 := Nat.lt_of_not_le fun fifty => last ⟨rfl, fifty⟩
      rw [edge_listen (by simp) more]
      exact ⟨.header 0 _ (by decide) more, rfl, fun _ => rfl⟩
    | header k ones short few =>
      have more : ones + 1 < 50 := Nat.lt_of_not_le fun fifty => last ⟨rfl, fifty⟩
      rw [edge_listen (by simp) more, listen]
      rcases Nat.lt_or_ge k 6 with shorter | six
      · simp only [List.length_replicate, if_pos shorter, ← List.replicate_succ']
        exact ⟨.header (k + 1) _ (by omega) more, rfl, fun _ => rfl⟩
      · obtain rfl : k = 6 := Nat.le_antisymm short six
        exact ⟨.deaf _ more, rfl, fun _ => rfl⟩
    | deaf ones few =>
      have more : ones + 1 < 50 := Nat.lt_of_not_le fun fifty => last ⟨rfl, fifty⟩
      rw [edge_listen (by simp) more]
      exact ⟨.deaf _ more, rfl, fun _ => rfl⟩
    | reset ones =>
      have more : ones + 1 < 50 := Nat.lt_of_not_le fun fifty => last ⟨rfl, fifty⟩
      rw [edge_listen (by simp) more]
      exact ⟨.reset _, rfl, fun _ => rfl⟩
    | jtag ones => exact ⟨.jtag _, rfl, fun speaks => by cases speaks⟩
    | select bits ones short few =>
      rw [edge_listen (by simp) (by dsimp only; omega), listen]
      rcases Nat.lt_or_ge bits.length 15 with shorter | full
      · simp only [if_pos shorter]
        refine ⟨.select _ _ ?_ ?_, rfl, fun speaks => by cases speaks⟩
        · rw [List.length_append, List.length_singleton]
          exact shorter
        · rw [List.length_append, List.length_singleton]
          exact Nat.succ_le_succ few
      · simp only [if_neg (Nat.not_lt.mpr full)]
        refine ⟨?_, rfl, fun speaks => by cases speaks⟩
        split
        · exact .deaf _ (by simp only [if_true]; omega)
        · exact .jtag _

/-- High bits leave the port in a line reset, or waiting for the switching sequence. -/
theorem Counting.run_high {x : Device δ} (counting : Counting d x) (n : Nat) :
    Counting d (run q c (List.replicate n true) x) ∧ (run q c (List.replicate n true) x).ones = x.ones + n ∧
      (x.hasLine = true → (run q c (List.replicate n true) x).hasLine = true) := by
  induction n with
  | zero => exact ⟨counting, rfl, id⟩
  | succ n ih =>
    obtain ⟨here, ones, speaks⟩ := ih
    obtain ⟨next, more, goesOn⟩ := here.high (q := q) (c := c)
    rw [List.replicate_succ', run_snoc]
    exact ⟨next, by rw [more, ones, Nat.add_assoc], fun first => goesOn (speaks first)⟩

theorem Counting.quiet_high {x : Device δ} (counting : Counting d x) (n : Nat) : Quiet q c (List.replicate n true) x := by
  induction n generalizing x with
  | zero => exact .nil x
  | succ n ih =>
    rw [List.replicate_succ]
    exact .cons counting.quiet (ih counting.high.1)

/-- The port is in a line reset, or still speaks JTAG. -/
inductive Woken (d : δ) : Device δ → Prop where
  | reset (ones : Nat) : Woken d ⟨d, .reset, ones⟩
  | jtag (ones : Nat) (many : 50 ≤ ones) : Woken d ⟨d, .jtag, ones⟩

theorem Counting.woken {x : Device δ} (counting : Counting d x) (many : 50 ≤ x.ones) : Woken d x := by
  cases counting with
  | idle ones few => exact absurd few (Nat.not_lt.mpr many)
  | header k ones short few => exact absurd few (Nat.not_lt.mpr many)
  | deaf ones few => exact absurd few (Nat.not_lt.mpr many)
  | reset ones => exact .reset ones
  | jtag ones => exact .jtag ones many
  | select bits ones short few =>
    have : ones ≤ 15 := Nat.le_trans few short
    exact absurd many (by dsimp only; omega)

/-- **A line reset** of a port wherever it stands. -/
theorem reset_wakes {x : Device δ} (counting : Counting d x) (out : Bool) :
    ∃ y, Woken d y ∧ (x.hasLine = true → y.hasLine = true) ∧ swdReset (wire q c) ⟨out, true, x, false⟩ = ⟨true, true, y, false⟩ := by
  obtain ⟨here, ones, speaks⟩ := counting.run_high (q := q) (c := c) 51
  refine ⟨_, here.woken (by omega), speaks, ?_⟩
  rw [reset_bits, driveBits_run (counting.quiet_high 51)]
  rfl

/-- `0xE79E`, bit by bit. -/
theorem switchBits_eq : switchBits = [false, true, true, true, true, false, false, true, true, true, true, false, false, true, true,
    true] := by
  decide

/-- A deaf port says nothing. -/
theorem quiet_deaf {bits : List Bool} {ones : Nat} (few : ones + bits.length < 50) : Quiet q c bits ⟨d, .deaf, ones⟩ := by
  apply Quiet.of_prefixes
  intro n less
  obtain ⟨_, _, here⟩ := run_deaf (q := q) (c := c) (d := d) (bits.take n) ones (by rw [List.length_take]; omega)
  rw [here]
  rfl

/-- To a port that speaks SWD the switching sequence begins with a request it cannot make sense of. -/
theorem switch_heard : Quiet q c switchBits.tail ⟨d, .idle, 0⟩ ∧
    ∃ ones ≤ 15, run q c switchBits.tail ⟨d, .idle, 0⟩ = ⟨d, .deaf, ones⟩ := by
  have split : switchBits.tail = (true :: [true, true, true, false, false, true]) ++ true ::
      [true, true, false, false, true, true, true] := by
    rw [switchBits_eq]
    rfl
  obtain ⟨ones, few, header⟩ := run_header (q := q) (c := c) (d := d) [true, true, true, false, false, true] (by decide)
  have seven : ones ≤ 7 := few
  have misread : (⟨d, .header [true, true, true, false, false, true], ones⟩ : Device δ).edge q c true = ⟨d, .deaf, ones + 1⟩ := by
    rw [edge_listen (by simp) (by dsimp only; omega)]
    rfl
  have quietHeader : Quiet q c (true :: [true, true, true, false, false, true]) ⟨d, .idle, 0⟩ := by
    apply Quiet.of_prefixes
    intro n less
    cases n with
    | zero => rfl
    | succ n =>
      obtain ⟨_, _, here⟩ := run_header (q := q) (c := c) (d := d) ([true, true, true, false, false, true].take n)
        (by rw [List.length_take]; exact Nat.min_le_right _ _)
      rw [List.take_succ_cons, here]
      rfl
  obtain ⟨more, short, rest⟩ := run_deaf (q := q) (c := c) (d := d) [true, true, false, false, true, true, true] (ones + 1)
    (by simp only [List.length_cons, List.length_nil]; omega)
  simp only [List.length_cons, List.length_nil] at short
  rw [split, run_append, header]
  refine ⟨quietHeader.append ?_, more, by omega, ?_⟩
  · rw [header]
    refine .cons rfl ?_
    rw [misread]
    exact quiet_deaf (by simp only [List.length_cons, List.length_nil]; omega)
  · rw [run, List.foldl_cons, misread]
    exact rest

/-- The port collects the bits of the switching sequence. -/
theorem run_select (more : List Bool) (short : more.length ≤ 14) :
    ∃ ones ≤ more.length, run q c more ⟨d, .select [false], 0⟩ = ⟨d, .select (false :: more), ones⟩ := by
  induction more using List.reverseRecOn with
  | nil => exact ⟨0, Nat.le_refl _, rfl⟩
  | append_singleton more l ih =>
    rw [List.length_append, List.length_singleton] at short ⊢
    obtain ⟨ones, few, here⟩ := ih (by omega)
    refine ⟨if l then ones + 1 else 0, by split <;> omega, ?_⟩
    rw [run_snoc, here, edge_listen (by simp) (by dsimp only; omega)]
    simp only [listen, List.length_cons]
    rw [if_pos (by omega), List.cons_append]

/-- A port that speaks JTAG takes the switching sequence in. -/
theorem switch_taken : Quiet q c switchBits.tail ⟨d, .select [false], 0⟩ ∧
    ∃ ones ≤ 15, run q c switchBits.tail ⟨d, .select [false], 0⟩ = ⟨d, .deaf, ones⟩ := by
  have split : switchBits.tail = switchBits.tail.take 14 ++ [true] := by
    rw [switchBits_eq]
    rfl
  have fourteen : (switchBits.tail.take 14).length = 14 := by
    rw [switchBits_eq]
    rfl
  constructor
  · apply Quiet.of_prefixes
    intro n less
    have fifteen : switchBits.tail.length = 15 := by
      rw [switchBits_eq]
      rfl
    obtain ⟨_, _, here⟩ := run_select (q := q) (c := c) (d := d) (switchBits.tail.take n) (by rw [List.length_take]; omega)
    rw [here]
    rfl
  · obtain ⟨ones, few, select⟩ := run_select (q := q) (c := c) (d := d) (switchBits.tail.take 14) (Nat.le_of_eq fourteen)
    refine ⟨ones + 1, by omega, ?_⟩
    rw [split, run_snoc, select, edge_listen (by simp) (by dsimp only; omega)]
    have whole : false :: switchBits.tail.take 14 ++ [true] = switchBits := by
      rw [switchBits_eq]
      rfl
    simp only [listen, List.length_cons, fourteen, whole, if_true]
    rw [if_neg (by decide)]

/-- The switching sequence after a line reset leaves the port deaf. -/
theorem switch_deafens {x : Device δ} (woken : Woken d x) (out : Bool) :
    ∃ ones ≤ 15, swdSwitch (wire q c) 0xE79E ⟨out, true, x, false⟩ = ⟨true, true, ⟨d, .deaf, ones⟩, false⟩ := by
  have bits : bitsOf 0xE79E#16 = false :: switchBits.tail := switchBits_eq.trans (by rw [switchBits_eq]; rfl)
  have last : (false :: switchBits.tail).getLastD out = true := by
    rw [switchBits_eq]
    rfl
  rw [switch_bits, show (0xE79E : BitVec 16) = 0xE79E#16 from rfl, bits]
  cases woken with
  | reset ones =>
    have low : (⟨d, .reset, ones⟩ : Device δ).edge q c false = ⟨d, .idle, 0⟩ := by
      rw [edge_low (by simp)]
      rfl
    obtain ⟨quiet, more, few, after⟩ := switch_heard (q := q) (c := c) (d := d)
    refine ⟨more, few, ?_⟩
    rw [driveBits_run (.cons rfl (low ▸ quiet)), last, run, List.foldl_cons, low, ← after]
    rfl
  | jtag ones many =>
    have low : (⟨d, .jtag, ones⟩ : Device δ).edge q c false = ⟨d, .select [false], 0⟩ := by
      rw [edge_low (by simp)]
      simp only [listen, many, and_self, if_true]
    obtain ⟨quiet, more, few, after⟩ := switch_taken (q := q) (c := c) (d := d)
    refine ⟨more, few, ?_⟩
    rw [driveBits_run (.cons rfl (low ▸ quiet)), last, run, List.foldl_cons, low, ← after]
    rfl

/-- Low bits end a line reset. -/
theorem idle_rests (ones : Nat) (out : Bool) :
    swjSequence (wire q c) 8 [0] ⟨out, true, ⟨d, .reset, ones⟩, false⟩ = atRest false d := by
  have first : (⟨d, .reset, ones⟩ : Device δ).edge q c false = ⟨d, .idle, 0⟩ := by
    rw [edge_low (by simp)]
    rfl
  have still : (⟨d, .idle, 0⟩ : Device δ).edge q c false = ⟨d, .idle, 0⟩ := by
    rw [edge_low (by simp)]
    rfl
  have low : ∀ n, Quiet q c (List.replicate n false) ⟨d, .idle, 0⟩ ∧ run q c (List.replicate n false) ⟨d, .idle, 0⟩ = ⟨d, .idle, 0⟩ := by
    intro n
    induction n with
    | zero => exact ⟨.nil _, rfl⟩
    | succ n ih =>
      rw [List.replicate_succ]
      refine ⟨.cons rfl (still ▸ ih.1), ?_⟩
      rw [run, List.foldl_cons, still]
      exact ih.2
  rw [idle_bits, List.replicate_succ, driveBits_run (.cons rfl (first ▸ (low 7).1)), run, List.foldl_cons, first]
  exact congrArg (fun x => (⟨false, true, x, false⟩ : Pins (Device δ))) (low 7).2

end Port

/-! ## The whole of it -/

section Whole

variable {δ : Type} (q : Port δ) (c : DapData) (cell : Word) {d : δ} {x : Device δ} (out : Bool)

/-- **`JTAG2SWD`** finds a port in any state outside of a request and its answer, also
deaf, half way through a line reset or a switching sequence, or speaking JTAG still, and
its read of IDCODE is that of a port at rest with the target as it was. -/
theorem jtag2swd_rests (counting : Counting d x) :
    jtag2swd (wire q c) c cell ⟨out, true, x, false⟩ = swdReadDpLines (wire q c) c 0 cell (atRest false d) := by
  obtain ⟨y, woken, _, reset⟩ := reset_wakes (q := q) (c := c) counting out
  obtain ⟨ones, few, switch⟩ := switch_deafens (q := q) (c := c) woken true
  have deaf : Counting d ⟨d, .deaf, ones⟩ := .deaf ones (by omega)
  obtain ⟨z, again, speaks, resetAgain⟩ := reset_wakes (q := q) (c := c) deaf true
  rw [jtag2swd, swdReadIdcode, reset, switch, resetAgain]
  cases again with
  | reset ones => rw [idle_rests]
  | jtag ones many => cases speaks rfl

end Whole

section Session

variable {w : Wire} {c : DapData} {next : List (Option Word) → Request} {p : Probe}

/-- **A session** over the lines, from a port in any state outside of a request and its
answer: `JTAG2SWD` succeeds when the read of IDCODE does, and whatever is asked for after
it is answered as `Target.SwdHost` says. -/
theorem session_refined (lasting : w.Lasting) (turn : c.turnaround.toNat ≤ 3) (proper : ∀ had, (next had).Proper)
    {x : Device (MemAp × Nat)} (counting : Counting (p.ap, p.transfers) x) (cell : Word) (cells : List (Option Word) → Word) (n : Nat)
    (out : Bool) :
    let identified := jtag2swd (wire w.port c) c cell ⟨out, true, x, false⟩
    let here := caller w next n (swdReadDp w 0 p).2
    let there := callerLines c (wire w.port c) next cells n identified.2.2
    (identified.1 = true ↔ ∃ id, (swdReadDp w 0 p).1 = .ok id) ∧
      there.1 = here.1 ∧ there.2.peer.port.1 = here.2.ap ∧ there.2.clash = false := by
  have first : (Request.dpRead (0 &&& 0x0C)).Proper := rfl
  obtain ⟨same, goesOn⟩ := swdTransferRetry_lines cell lasting turn first (Carries.rest (w := w) (p := p) false)
  have read : jtag2swd (wire w.port c) c cell ⟨out, true, x, false⟩ =
      swdReadDpLines (wire w.port c) c 0 cell (atRest false (p.ap, p.transfers)) := jtag2swd_rests w.port c cell out counting
  have rest := caller_lines lasting turn proper cells n goesOn
  dsimp only
  rw [read]
  exact ⟨decide_eq_true_iff.trans (Request.seen_iff same), rest.1, rest.2.quiet.1, rest.2.quiet.2.2⟩

theorem session_refined_jtag :
    let p : Probe := ⟨⟨0, 0⟩, ⟨0, 0, 0, .nothing, fun _ => 0⟩, 0, []⟩
    let next := fun had : List (Option Word) => if had = [] then Request.apWrite AP_CSW 0x23000052 else .apRead AP_CSW
    let speaksJtag : Pins (Device (MemAp × Nat)) := ⟨false, true, ⟨(p.ap, p.transfers), .jtag, 0⟩, false⟩
    (callerLines dapSetup (wire Wire.waitsOnce.port dapSetup) next (fun _ => 0) 2
      (jtag2swd (wire Wire.waitsOnce.port dapSetup) dapSetup 0 speaksJtag).2.2).1 = [some 0, some 0x23000052] := by
  intro p next speaksJtag
  have lasting : Wire.waitsOnce.Lasting := fun n silent => by
    by_cases first : n = 0 <;> simp [Wire.waitsOnce, first] at silent
  have proper : ∀ had, (next had).Proper := fun had => by
    by_cases first : had = [] <;> simp [next, first, Request.Proper, Request.adr]
  have session := session_refined (c := dapSetup) lasting (by decide) proper (Counting.jtag (d := (p.ap, p.transfers)) 0) 0
    (fun _ => 0) 2 false
  have asked : (caller .waitsOnce next 2 (swdReadDp .waitsOnce 0 p).2).1 = [some 0, some 0x23000052] := by
    rfl
  exact session.2.1.trans asked

end Session

end OffLineProgrammer.Target
