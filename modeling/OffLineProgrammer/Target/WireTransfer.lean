import OffLineProgrammer.Target.WireDevice
import Mathlib.Data.List.Induction

/-!
# A transfer is one exchange with the port

In whatever way turnaround, data phase and idle cycles are set, `SWD_Transfer` over
the two lines is one exchange with the port behind them (`swdTransfer_exchange`), and
the probe never drives the line against the port. Data of which an odd number of bits
arrives inverted is not taken for good by either side.
-/

namespace OffLineProgrammer.Target
set_option autoImplicit false
open OffLineProgrammer.Lib Serial

section Wire

variable {δ : Type} {q : Port δ} {c : DapData} {d : δ}

/-! ## Slots -/

section Slots

variable {heard : List Bool} {after : List Bool → δ} {rest : List Slot} {out enabled clash : Bool}

@[simp] theorem drives_over : (answering d heard after []).drives = none := rfl

/-- The line is free for as long as the port says nothing. -/
theorem cycles_free (n : Nat) : swClockCycles (wire q c) n ⟨out, enabled, answering d heard after (free n ++ rest), clash⟩ =
    ⟨out, enabled, answering d heard after rest, clash⟩ := by
  induction n with
  | zero => rfl
  | succ n ih =>
    have step : swClockCycle (wire q c) ⟨out, enabled, answering d heard after (free (n + 1) ++ rest), clash⟩ =
        ⟨out, enabled, answering d heard after (free n ++ rest), clash⟩ := by
      simp [swClockCycle, wire, free, List.replicate_succ, answering, Device.edge, Device.drives]
    rw [swClockCycles, step, ih]

/-- A bit the port says is read. -/
theorem readBit_say (b : Bool) : swReadBit (wire q c) ⟨out, false, answering d heard after (.say b :: rest), clash⟩ =
    ((BitVec.ofBool b).setWidth 32, ⟨out, false, answering d heard after rest, clash⟩) := by
  simp [swReadBit, swClockCycle, pinSwdioIn, wire, answering, Device.edge, Device.drives]

theorem readAck_say (a : Ack) : readAck (wire q c) ⟨out, false, answering d heard after (a.bits.map .say ++ rest), clash⟩ =
    (a.word, ⟨out, false, answering d heard after rest, clash⟩) := by
  cases a <;> simp [readAck, Ack.bits, Ack.word, readBit_say]

theorem readWord_say (bs : List Bool) (val parity : Word) :
    readWord (wire q c) bs.length val parity ⟨out, false, answering d heard after (bs.map .say ++ rest), clash⟩ =
      ((bs.foldl shiftIn val, (bs.map fun b => (BitVec.ofBool b).setWidth 32).foldl (· + ·) parity),
        ⟨out, false, answering d heard after rest, clash⟩) := by
  induction bs generalizing val parity with
  | nil => rfl
  | cons b bs ih =>
    rw [List.length_cons, List.map_cons, List.cons_append, readWord, readBit_say]
    exact ih (shiftIn val b) (parity + (BitVec.ofBool b).setWidth 32)

end Slots

/-! ## Bits from the probe -/

/-- The port after some bits. -/
def run (q : Port δ) (c : DapData) (bits : List Bool) (x : Device δ) : Device δ := bits.foldl (fun x l => x.edge q c l) x

theorem run_snoc (bits : List Bool) (l : Bool) (x : Device δ) : run q c (bits ++ [l]) x = (run q c bits x).edge q c l := by
  rw [run, List.foldl_append]
  rfl

/-- The bits are written to a port that says nothing until the last of them. -/
theorem writeBits_run (words : List Word) (x : Device δ) (out clash : Bool)
    (quiet : ∀ n < words.length, (run q c ((words.map (·.getLsbD 0)).take n) x).drives = none) :
    writeBits (wire q c) words ⟨out, true, x, clash⟩ =
      ⟨(words.map (·.getLsbD 0)).getLastD out, true, run q c (words.map (·.getLsbD 0)) x, clash⟩ := by
  induction words generalizing x out with
  | nil => rfl
  | cons v words ih =>
    have first : x.drives = none := quiet 0 (Nat.succ_pos _)
    have step : swWriteBit (wire q c) v ⟨out, true, x, clash⟩ = ⟨v.getLsbD 0, true, x.edge q c (v.getLsbD 0), clash⟩ := by
      simp [swWriteBit, swClockCycle, pinSwdioOut, pinSwdioIn, wire, first]
    rw [writeBits, List.foldl_cons, step]
    refine (ih _ _ fun n less => quiet (n + 1) (Nat.succ_lt_succ less)).trans ?_
    rw [List.map_cons, List.getLastD_cons]
    rfl

theorem edge_listen {x : Device δ} {l : Bool} (quiet : ∀ s ss hd af, x.phase ≠ .reply s ss hd af) (few : x.ones + 1 < 50) :
    x.edge q c l = listen q c x l (if l then x.ones + 1 else 0) := by
  have below : ¬ 50 ≤ (if l then x.ones + 1 else 0) := by
    split <;> omega
  unfold Device.edge
  split
  · next phase => exact absurd phase (quiet _ _ _ _)
  · rw [if_neg fun both => below both.2]

theorem edge_low {x : Device δ} (quiet : ∀ s ss hd af, x.phase ≠ .reply s ss hd af) : x.edge q c false = listen q c x false 0 := by
  unfold Device.edge
  split
  · next phase => exact absurd phase (quiet _ _ _ _)
  · simp

/-- The port collects the bits of a request. -/
theorem run_header (more : List Bool) (short : more.length ≤ 6) :
    ∃ ones ≤ more.length + 1, run q c (true :: more) ⟨d, .idle, 0⟩ = ⟨d, .header more, ones⟩ := by
  induction more using List.reverseRecOn with
  | nil => exact ⟨1, Nat.le_refl _, rfl⟩
  | append_singleton more l ih =>
    rw [List.length_append, List.length_singleton] at short ⊢
    obtain ⟨ones, few, here⟩ := ih (by omega)
    refine ⟨if l then ones + 1 else 0, by split <;> omega, ?_⟩
    rw [← List.cons_append, run_snoc, here, edge_listen (by simp) (show ones + 1 < 50 by omega)]
    simp only [listen]
    rw [if_pos (by omega)]

/-- The request is complete with its seventh bit, the park bit. -/
theorem run_request (bits : List Bool) (five : bits.length = 5) :
    run q c (true :: (bits ++ [false, true])) ⟨d, .idle, 0⟩ = respond q c d 1 (bits ++ [false, true]) := by
  obtain ⟨ones, few, here⟩ := run_header (q := q) (c := c) (d := d) bits (by omega)
  have split : true :: (bits ++ [false, true]) = (true :: bits ++ [false]) ++ [true] := by simp
  have stop : (⟨d, .header bits, ones⟩ : Device δ).edge q c false = ⟨d, .header (bits ++ [false]), 0⟩ := by
    rw [edge_listen (by simp) (by dsimp only; omega)]
    simp [listen, five]
  have park : (⟨d, .header (bits ++ [false]), 0⟩ : Device δ).edge q c true = respond q c d 1 (bits ++ [false, true]) := by
    rw [edge_listen (by simp) (by dsimp only; omega)]
    simp [listen, five]
  rw [split, run_snoc, run_snoc, here, stop, park]

/-- A deaf port stays deaf as long as fewer than 50 high bits follow each other. -/
theorem run_deaf (bits : List Bool) (ones : Nat) (few : ones + bits.length < 50) :
    ∃ ones' ≤ ones + bits.length, run q c bits ⟨d, .deaf, ones⟩ = ⟨d, .deaf, ones'⟩ := by
  induction bits using List.reverseRecOn with
  | nil => exact ⟨ones, Nat.le_refl _, rfl⟩
  | append_singleton bits l ih =>
    rw [List.length_append, List.length_singleton] at few ⊢
    obtain ⟨ones', below, here⟩ := ih (by omega)
    refine ⟨if l then ones' + 1 else 0, by split <;> omega, ?_⟩
    rw [run_snoc, here, edge_listen (by simp) (by dsimp only; omega)]
    rfl

/-! ## The packet request -/

/-- The bits of a request, with their parity. -/
def requestBits (request : Word) : List Bool :=
  let bits := [request.getLsbD 0, request.getLsbD 1, request.getLsbD 2, request.getLsbD 3]
  bits ++ [parity bits]

theorem packetRequest_bits (request : Word) :
    (packetRequest request).map (·.getLsbD 0) = true :: (requestBits request ++ [false, true]) := by
  have sum := sum_low [request >>> 0, request >>> 1, request >>> 2, request >>> 3] 0#32 (by decide)
  simp only [List.foldl_cons, List.foldl_nil, List.map_cons, List.map_nil, BitVec.getLsbD_ushiftRight] at sum
  simp only [packetRequest, requestBits, List.map_cons, List.map_nil, sum, BitVec.getLsbD_ushiftRight]
  simp

/-- What the port makes of a request. -/
theorem respond_request (request : Word) (ones : Nat) :
    respond q c d ones (requestBits request ++ [false, true]) =
      answerWith q c d (request.setWidth 4) ones (q.answer d (request.setWidth 4)) := by
  have header : (BitVec.ofBoolListLE [request.getLsbD 0, request.getLsbD 1, request.getLsbD 2, request.getLsbD 3] : Header) =
      request.setWidth 4 := by
    apply BitVec.eq_of_getLsbD_eq
    intro i low
    have cases : i = 0 ∨ i = 1 ∨ i = 2 ∨ i = 3 := by
      have : i < 4 := low
      omega
    rw [BitVec.getLsbD_ofBoolListLE]
    refine Eq.trans ?_ (BitVec.getLsbD_setWidth 4 request i).symm
    rcases cases with rfl | rfl | rfl | rfl <;> rfl
  simp only [requestBits, List.cons_append, List.nil_append, respond, header, and_self, if_true]

theorem isRead_iff (request : Word) : request &&& DAP_TRANSFER_RnW ≠ 0 ↔ Header.isRead (request.setWidth 4) = true := by
  have bit : request &&& DAP_TRANSFER_RnW = if request.getLsbD 1 then DAP_TRANSFER_RnW else 0 := by
    apply BitVec.eq_of_getLsbD_eq
    intro i low
    have two : (DAP_TRANSFER_RnW).getLsbD i = decide (i = 1) := by
      have all : ∀ i < 32, (DAP_TRANSFER_RnW).getLsbD i = decide (i = 1) := by decide
      exact all i low
    rw [BitVec.getLsbD_and, two]
    by_cases one : i = 1
    · subst one
      cases request.getLsbD 1 <;> simp
    · rw [decide_eq_false one, Bool.and_false]
      split
      · rw [two, decide_eq_false one]
      · simp
  rw [bit, Header.isRead, BitVec.getLsbD_setWidth]
  cases request.getLsbD 1 <;> simp

/-- The packet request is sent to a port at rest. -/
theorem request_sent (request : Word) (out : Bool) :
    writeBits (wire q c) (packetRequest request) (atRest out d) =
      ⟨true, true, respond q c d 1 (requestBits request ++ [false, true]), false⟩ := by
  have bits := packetRequest_bits request
  have five : (requestBits request).length = 5 := rfl
  rw [atRest, writeBits_run]
  · rw [bits, run_request _ five]
    rfl
  · intro n less
    rw [bits]
    cases n with
    | zero => rfl
    | succ n =>
      have short : ((requestBits request ++ [false, true]).take n).length ≤ 6 := by
        rw [List.length_take]
        have : n ≤ 6 := Nat.le_of_lt_succ (Nat.lt_of_succ_lt_succ less)
        omega
      obtain ⟨ones, _, here⟩ := run_header (q := q) (c := c) (d := d) _ short
      rw [List.take_succ_cons, here]
      rfl

/-! ## The data -/

section Data

theorem low_iff (x : Word) : x &&& 1 ≠ 0 ↔ x.getLsbD 0 = true := by
  have one : x &&& 1 = (BitVec.ofBool (x.getLsbD 0)).setWidth 32 := BitVec.and_one_eq_setWidth_ofBool_getLsbD
  rw [one]
  cases x.getLsbD 0 <;> simp

/-- A word and its parity as they arrive. -/
theorem noisy_word (n : Word × Bool) (v : Word) (p : Bool) :
    noisy n (bitsOf v ++ [p]) = bitsOf (n.1 ^^^ v) ++ [n.2 ^^ p] := by
  rw [noisy, invert, List.zipWith_append (by simp), ← bitsOf_invert]
  rfl

/-- The parity of what arrives is that of the noise. -/
theorem parity_noisy (n : Word × Bool) (v : Word) :
    (parity (bitsOf (n.1 ^^^ v)) ^^ (n.2 ^^ parity (bitsOf v))) = Odd n := by
  rw [← bitsOf_invert, parity_invert (by simp), Odd]
  cases parity (bitsOf n.1) <;> cases parity (bitsOf v) <;> cases n.2 <;> rfl

/-- A word read bit by bit, and the low bit of the sum of its bits. -/
theorem readWord_bits (v : Word) : (bitsOf v).foldl shiftIn 0 = v ∧
    (((bitsOf v).map fun b => (BitVec.ofBool b).setWidth 32).foldl (· + ·) (0 : Word)).getLsbD 0 = parity (bitsOf v) := by
  refine ⟨collect_bitsOf v, ?_⟩
  have low : ∀ b : Bool, ((BitVec.ofBool b).setWidth 32).getLsbD 0 = b := by decide
  rw [sum_low _ _ (by decide), List.map_map]
  have same : ((fun x : Word => x.getLsbD 0) ∘ fun b => (BitVec.ofBool b).setWidth 32) = id := by
    funext b
    exact low b
  rw [same, List.map_id]
  simp

/-- The words whose low bits are the bits of `v`. -/
def shifts : Nat → Word → List Word
  | 0, _ => []
  | n + 1, v => v :: shifts n (v >>> 1)

theorem length_shifts (n : Nat) (v : Word) : (shifts n v).length = n := by
  induction n generalizing v with
  | zero => rfl
  | succ n ih => rw [shifts, List.length_cons, ih]

theorem shifts_low (n : Nat) (v : Word) : (shifts n v).map (·.getLsbD 0) = (List.range n).map v.getLsbD := by
  induction n generalizing v with
  | zero => rfl
  | succ n ih =>
    rw [shifts, List.map_cons, ih, List.range_succ_eq_map, List.map_cons, List.map_map]
    congr 1
    apply List.map_congr_left
    intro i _
    rw [BitVec.getLsbD_ushiftRight, Function.comp_apply, Nat.add_comm 1 i]

/-- The loop of `Write data` writes the bits of a word and adds them up. -/
theorem writeWord_eq {τ : Type} (P : Peer τ) (n : Nat) (v sum : Word) (p : Pins τ) :
    writeWord P n v sum p = ((shifts n v).foldl (· + ·) sum, writeBits P (shifts n v) p) := by
  induction n generalizing v sum p with
  | zero => rfl
  | succ n ih =>
    rw [writeWord, ih]
    rfl

/-- The port hears what the probe writes. -/
theorem run_hear (bits heard : List Bool) (after : List Bool → δ) (rest : List Slot) :
    run q c bits (answering d heard after (hear bits.length ++ rest)) = answering d (heard ++ bits) after rest := by
  induction bits generalizing heard with
  | nil => rw [List.append_nil]; rfl
  | cons l bits ih =>
    have step : (answering d heard after (hear (l :: bits).length ++ rest)).edge q c l =
        answering d (heard ++ [l]) after (hear bits.length ++ rest) := by
      simp [hear, List.replicate_succ, answering, Device.edge]
    rw [run, List.foldl_cons, step]
    refine (ih (heard ++ [l])).trans ?_
    rw [List.append_assoc]
    rfl

theorem writeBits_hear (words : List Word) (heard : List Bool) (after : List Bool → δ) (out clash : Bool) :
    writeBits (wire q c) words ⟨out, true, answering d heard after (hear words.length), clash⟩ =
      ⟨(words.map (·.getLsbD 0)).getLastD out, true, answering d (heard ++ words.map (·.getLsbD 0)) after [], clash⟩ := by
  have whole := run_hear (q := q) (c := c) (d := d) (words.map (·.getLsbD 0)) heard after []
  rw [List.append_nil, List.length_map] at whole
  rw [writeBits_run, whole]
  intro n less
  have part := run_hear (q := q) (c := c) (d := d) ((words.map (·.getLsbD 0)).take n) heard after (hear (words.length - n))
  have length : ((words.map (·.getLsbD 0)).take n).length = n := by
    rw [List.length_take, List.length_map, Nat.min_eq_left (Nat.le_of_lt less)]
  have slots : hear n ++ hear (words.length - n) = hear words.length := by
    rw [hear, hear, List.replicate_append_replicate, Nat.add_sub_cancel' (Nat.le_of_lt less)]
    rfl
  rw [length, slots] at part
  rw [part]
  obtain ⟨k, left⟩ : ∃ k, words.length - n = k + 1 := ⟨words.length - n - 1, by omega⟩
  rw [left]
  rfl

/-- The port pays no attention to the line while the probe clocks out a dummy word. -/
theorem cycles_hear (n : Nat) (heard : List Bool) (after : List Bool → δ) (out clash : Bool) :
    ∃ heard', swClockCycles (wire q c) n ⟨out, true, answering d heard after (hear n), clash⟩ =
      ⟨out, true, answering d heard' after [], clash⟩ := by
  induction n generalizing heard with
  | zero => exact ⟨heard, rfl⟩
  | succ n ih =>
    have step : swClockCycle (wire q c) ⟨out, true, answering d heard after (hear (n + 1)), clash⟩ =
        ⟨out, true, answering d (heard ++ [out]) after (hear n), clash⟩ := by
      simp [swClockCycle, pinSwdioIn, wire, hear, List.replicate_succ, answering, Device.edge, Device.drives]
    rw [swClockCycles, step]
    exact ih _

/-- Idle cycles leave the port at rest. -/
theorem idleCycles_rest (out : Bool) : idleCycles (wire q c) c (atRest out d) = atRest true d := by
  have still : ∀ n, swClockCycles (wire q c) n (pinSwdioOut 0 (atRest out d)) = pinSwdioOut 0 (atRest out d) := by
    intro n
    induction n with
    | zero => rfl
    | succ n ih =>
      have step : swClockCycle (wire q c) (pinSwdioOut 0 (atRest out d)) = pinSwdioOut 0 (atRest out d) := by
        simp [swClockCycle, pinSwdioOut, pinSwdioIn, atRest, wire, Device.edge, Device.drives, Device.hasLine, listen]
      rw [swClockCycles, step, ih]
  unfold idleCycles
  split
  · rw [still]
    rfl
  · rfl

end Data

/-! ## The exchange -/

section Exchange

variable {out : Bool} {request data : Word} {h : Header} {heard : List Bool} {after : List Bool → δ}

/-- The port answers a request. -/
theorem request_answered {a : Ack} (header : request.setWidth 4 = h) (answer : q.answer d h = a) (some_ : a ≠ .none) :
    writeBits (wire q c) (packetRequest request) (atRest out d) =
      ⟨true, true, answering d [] (replyAfter q d h a) (replySlots q c d h a), false⟩ := by
  rw [request_sent, respond_request, header, answer]
  cases a with
  | none => exact absurd rfl some_
  | ok => rfl
  | wait => rfl
  | fault => rfl

/-- The probe reads a word with its parity. -/
theorem word_read (n : Word × Bool) (v : Word) (rest : List Slot) :
    ∃ sum, readWord (wire q c) 32 0 0 ⟨out, false, answering d heard after
          ((noisy n (bitsOf v ++ [parity (bitsOf v)])).map .say ++ rest), false⟩ =
        ((n.1 ^^^ v, sum), ⟨out, false, answering d heard after (.say (n.2 ^^ parity (bitsOf v)) :: rest), false⟩) ∧
      ((sum ^^^ (BitVec.ofBool (n.2 ^^ parity (bitsOf v))).setWidth 32) &&& 1 ≠ 0 ↔ Odd n = true) := by
  obtain ⟨word, sum⟩ := readWord_bits (n.1 ^^^ v)
  have bits := @readWord_say δ q c d heard after (.say (n.2 ^^ parity (bitsOf v)) :: rest) out false (bitsOf (n.1 ^^^ v)) 0 0
  rw [length_bitsOf, word] at bits
  generalize ((bitsOf (n.1 ^^^ v)).map fun b => (BitVec.ofBool b).setWidth 32).foldl (· + ·) (0 : Word) = s at bits sum
  refine ⟨s, ?_, (low_iff _).trans ?_⟩
  · rw [noisy_word, List.map_append, List.append_assoc]
    exact bits
  · have low : ∀ b : Bool, ((BitVec.ofBool b).setWidth 32).getLsbD 0 = b := by decide
    rw [BitVec.getLsbD_xor, sum, low, parity_noisy]

/-- The probe writes a word with its parity. -/
theorem word_written :
    swWriteBit (wire q c) (writeWord (wire q c) 32 data 0 ⟨out, true, answering d [] after (hear 33), false⟩).1
        (writeWord (wire q c) 32 data 0 ⟨out, true, answering d [] after (hear 33), false⟩).2 =
      ⟨parity (bitsOf data), true, answering d (bitsOf data ++ [parity (bitsOf data)]) after [], false⟩ := by
  have sum : ((shifts 32 data).foldl (· + ·) (0 : Word)).getLsbD 0 = parity (bitsOf data) := by
    rw [sum_low _ _ (by decide), shifts_low]
    simp [bitsOf]
  have bits := writeBits_hear (q := q) (c := c) (d := d)
    (shifts 32 data ++ [(shifts 32 data).foldl (· + ·) 0]) [] after out false
  rw [List.length_append, length_shifts, List.map_append, List.map_singleton, sum, shifts_low] at bits
  rw [writeWord_eq]
  unfold writeBits at bits ⊢
  rw [List.foldl_append] at bits
  simpa [bitsOf] using bits

theorem swdTransfer_read (header : request.setWidth 4 = h) (answer : q.answer d h = .ok) (reads : h.isRead = true) :
    swdTransfer (wire q c) c request data (atRest out d) =
      (if Odd (q.noise d h) then DAP_TRANSFER_ERROR else DAP_TRANSFER_OK, (q.noise d h).1 ^^^ q.fetch d h,
        atRest true (q.taken d h)) := by
  have slots : replySlots q c d h .ok = free c.turnaround.toNat ++ (Ack.ok.bits.map Slot.say ++
      ((noisy (q.noise d h) (bitsOf (q.fetch d h) ++ [parity (bitsOf (q.fetch d h))])).map Slot.say ++
        (free c.turnaround.toNat ++ []))) := by
    simp only [replySlots, reads, List.append_assoc, List.append_nil]
  have after_ : replyAfter q d h .ok = fun _ => q.taken d h := by
    funext heard
    simp only [replyAfter, reads]
  obtain ⟨sum, read, check⟩ := @word_read δ q c d true [] (fun _ => q.taken d h) (q.noise d h) (q.fetch d h) (free c.turnaround.toNat ++ [])
  have isRead := (isRead_iff request).mpr (header ▸ reads)
  unfold swdTransfer
  simp only [request_answered header answer (by decide), slots, after_, pinSwdioOutDisable, cycles_free, readAck_say, Ack.word,
    if_pos isRead, read, readBit_say, check, if_true]
  exact congrArg (fun p => (_, _, p)) (idleCycles_rest (q := q) (c := c) false)

theorem swdTransfer_write (header : request.setWidth 4 = h) (answer : q.answer d h = .ok) (writes : h.isRead = false) :
    swdTransfer (wire q c) c request data (atRest out d) =
      (DAP_TRANSFER_OK, data,
        atRest true (if Odd (q.noise d h) then q.spoiled d h else q.store d h ((q.noise d h).1 ^^^ data))) := by
  have slots : replySlots q c d h .ok = free c.turnaround.toNat ++ (Ack.ok.bits.map Slot.say ++
      (free c.turnaround.toNat ++ hear 33)) := by
    simp only [replySlots, writes, List.append_assoc]
  have after_ : replyAfter q d h .ok (bitsOf data ++ [parity (bitsOf data)]) =
      if Odd (q.noise d h) then q.spoiled d h else q.store d h ((q.noise d h).1 ^^^ data) := by
    simp only [replyAfter, writes, noisy_word, parity_append, parity_cons, parity_nil, Bool.xor_false, parity_noisy]
    rw [List.take_left' (length_bitsOf _), collect_bitsOf]
  have isWrite : ¬ request &&& DAP_TRANSFER_RnW ≠ 0 := fun reads =>
    absurd ((isRead_iff request).mp reads) (by rw [header, writes]; decide)
  have written := @word_written δ q c d false data (replyAfter q d h .ok)
  unfold swdTransfer
  simp only [request_answered header answer (by decide), slots, pinSwdioOutDisable, cycles_free, readAck_say, Ack.word,
    if_neg isWrite, if_true]
  have enable : pinSwdioOutEnable (wire q c) ⟨true, false, answering d [] (replyAfter q d h .ok) (hear 33), false⟩ =
      ⟨false, true, answering d [] (replyAfter q d h .ok) (hear 33), false⟩ := rfl
  rw [enable]
  have rest := idleCycles_rest (q := q) (c := c) (d := replyAfter q d h .ok (bitsOf data ++ [parity (bitsOf data)]))
    (parity (bitsOf data))
  rw [← after_, ← rest, written]
  rfl

theorem swdTransfer_refused {a : Ack} (header : request.setWidth 4 = h) (answer : q.answer d h = a)
    (again : a = .wait ∨ a = .fault) :
    swdTransfer (wire q c) c request data (atRest out d) = (a.word, data, atRest true (q.refused d h)) := by
  have answered := @request_answered δ q c d out request h a header answer (by rintro rfl; simp at again)
  have after_ : replyAfter q d h a = fun _ => q.refused d h := by
    funext heard
    rcases again with rfl | rfl <;> cases h.isRead <;> rfl
  have words : a.word ≠ DAP_TRANSFER_OK ∧ (a.word = DAP_TRANSFER_WAIT ∨ a.word = DAP_TRANSFER_FAULT) := by
    rcases again with rfl | rfl <;> decide
  cases reads : h.isRead with
  | true =>
    have slots : replySlots q c d h a = free c.turnaround.toNat ++ (a.bits.map Slot.say ++
        (free (if c.dataPhase then 33 else 0) ++ (free c.turnaround.toNat ++ []))) := by
      rcases again with rfl | rfl <;> simp only [replySlots, reads, List.append_assoc, List.append_nil]
    have isRead : request &&& DAP_TRANSFER_RnW ≠ 0 := (isRead_iff request).mpr (header ▸ reads)
    unfold swdTransfer
    simp only [answered, slots, after_, pinSwdioOutDisable, cycles_free, readAck_say, if_neg words.1, if_pos words.2]
    cases c.dataPhase with
    | true =>
      simp only [isRead, if_true, ne_eq, not_false_eq_true, and_self, and_false, if_false, cycles_free]
      rfl
    | false =>
      simp only [Bool.false_eq_true, if_false, false_and]
      exact congrArg (fun p : Pins (Device δ) => (a.word, data, pinSwdioOut 1 (pinSwdioOutEnable (wire q c) p)))
        (@cycles_free δ q c d [] (fun _ => q.refused d h) [] _ _ _ c.turnaround.toNat)
  | false =>
    have slots : replySlots q c d h a = free c.turnaround.toNat ++ (a.bits.map Slot.say ++
        (free c.turnaround.toNat ++ hear (if c.dataPhase then 33 else 0))) := by
      rcases again with rfl | rfl <;> simp only [replySlots, reads, List.append_assoc]
    have isWrite : request &&& DAP_TRANSFER_RnW = 0 := by
      apply not_not.mp
      intro other
      exact absurd ((isRead_iff request).mp other) (by rw [header, reads]; decide)
    unfold swdTransfer
    simp only [answered, slots, after_, pinSwdioOutDisable, cycles_free, readAck_say, if_neg words.1, if_pos words.2]
    cases c.dataPhase with
    | true =>
      obtain ⟨heard', dummy⟩ := cycles_hear (q := q) (c := c) (d := d) 33 [] (fun _ => q.refused d h) false false
      simp only [isWrite, ne_eq, not_true_eq_false, and_false, if_false, and_self, if_true, cycles_free]
      have enable : pinSwdioOut 0 (pinSwdioOutEnable (wire q c)
          ⟨true, false, answering d [] (fun _ => q.refused d h) (hear 33), false⟩) =
          ⟨false, true, answering d [] (fun _ => q.refused d h) (hear 33), false⟩ := rfl
      rw [enable, dummy]
      rfl
    | false =>
      simp only [Bool.false_eq_true, if_false, false_and, cycles_free]
      rfl

/-- A deaf port leaves the line to its pull-up. -/
theorem cycles_deaf (n ones : Nat) (few : ones + n < 50) :
    swClockCycles (wire q c) n ⟨true, false, ⟨d, .deaf, ones⟩, false⟩ = ⟨true, false, ⟨d, .deaf, ones + n⟩, false⟩ := by
  induction n generalizing ones with
  | zero => rfl
  | succ n ih =>
    have step : swClockCycle (wire q c) ⟨true, false, ⟨d, .deaf, ones⟩, false⟩ = ⟨true, false, ⟨d, .deaf, ones + 1⟩, false⟩ := by
      have listened := edge_listen (q := q) (c := c) (x := ⟨d, .deaf, ones⟩) (l := true) (by simp) (by dsimp only; omega)
      simp only [swClockCycle, pinSwdioIn, wire, Device.drives, Option.getD_none, Bool.false_eq_true, if_false, listened, listen]
      rfl
    rw [swClockCycles, step, ih (ones + 1) (by omega), Nat.add_right_comm, Nat.add_assoc]

theorem readAck_deaf (ones : Nat) (few : ones + 3 < 50) :
    readAck (wire q c) ⟨true, false, ⟨d, .deaf, ones⟩, false⟩ = (7, ⟨true, false, ⟨d, .deaf, ones + 3⟩, false⟩) := by
  have bit : ∀ ones, ones + 1 < 50 → swReadBit (wire q c) ⟨true, false, ⟨d, .deaf, ones⟩, false⟩ =
      (1, ⟨true, false, ⟨d, .deaf, ones + 1⟩, false⟩) := by
    intro ones few
    have cycle := cycles_deaf (q := q) (c := c) (d := d) 1 ones few
    simp only [swClockCycles] at cycle
    rw [swReadBit, cycle]
    rfl
  simp only [readAck, bit ones (by omega), bit (ones + 1) (by omega), bit (ones + 1 + 1) (by omega)]
  rfl

/-- A port that does not answer is deaf from then on. -/
theorem swdTransfer_silent (turn : c.turnaround.toNat ≤ 6) {p : Pins (Device δ)}
    (sent : writeBits (wire q c) (packetRequest request) p = ⟨true, true, ⟨d, .deaf, 1⟩, false⟩) :
    swdTransfer (wire q c) c request data p = (Ack.word .none, data, deafened true (2 * c.turnaround.toNat + 37) d) := by
  have turned := cycles_deaf (q := q) (c := c) (d := d) c.turnaround.toNat 1 (by omega)
  have read := readAck_deaf (q := q) (c := c) (d := d) (1 + c.turnaround.toNat) (by omega)
  have backOff := cycles_deaf (q := q) (c := c) (d := d) (c.turnaround.toNat + 33) (1 + c.turnaround.toNat + 3) (by omega)
  have ones : 1 + c.turnaround.toNat + 3 + (c.turnaround.toNat + 33) = 2 * c.turnaround.toNat + 37 := by omega
  rw [ones] at backOff
  have words : (7 : Word) ≠ DAP_TRANSFER_OK ∧ ¬ ((7 : Word) = DAP_TRANSFER_WAIT ∨ (7 : Word) = DAP_TRANSFER_FAULT) := by decide
  unfold swdTransfer
  simp only [sent, pinSwdioOutDisable, turned, read, if_neg words.1, if_neg words.2, backOff]
  rfl

/-- A deaf port lets a request pass. -/
theorem request_unheard {ones : Nat} (few : ones ≤ 43) :
    writeBits (wire q c) (packetRequest request) (deafened out ones d) = ⟨true, true, ⟨d, .deaf, 1⟩, false⟩ := by
  have split : (packetRequest request).map (·.getLsbD 0) = (true :: requestBits request) ++ [false] ++ [true] := by
    rw [packetRequest_bits]
    simp
  have length : (true :: requestBits request).length = 6 := rfl
  generalize true :: requestBits request = bits at split length
  obtain ⟨ones', _, first⟩ := run_deaf (q := q) (c := c) (d := d) bits ones (by omega)
  have stop : run q c (bits ++ [false]) ⟨d, .deaf, ones⟩ = ⟨d, .deaf, 0⟩ := by
    rw [run_snoc, first, edge_low (by simp)]
    rfl
  have park : run q c (bits ++ [false] ++ [true]) ⟨d, .deaf, ones⟩ = ⟨d, .deaf, 1⟩ := by
    rw [run_snoc, stop, edge_listen (by simp) (by dsimp only; omega)]
    rfl
  rw [deafened, writeBits_run, split, park]
  · simp
  · intro n less
    have eight : n < 8 := less
    rw [split]
    rcases Nat.lt_or_ge n 7 with short | last
    · have front : (bits ++ [false] ++ [true]).take n = bits.take n := by
        rw [List.append_assoc, List.take_append_of_le_length (by omega)]
      obtain ⟨k, _, here⟩ := run_deaf (q := q) (c := c) (d := d) (bits.take n) ones (by rw [List.length_take]; omega)
      rw [front, here]
      rfl
    · have front : (bits ++ [false] ++ [true]).take n = bits ++ [false] := by
        apply List.take_left'
        rw [List.length_append, List.length_singleton]
        omega
      rw [front, stop]
      rfl

end Exchange

end Wire

/-! ## A transfer as a whole -/

section Transfer

variable {δ : Type} (q : Port δ) (c : DapData) (request data : Word) (d : δ) (out : Bool)

/-- **A transfer** over the two lines is one exchange with the port, whatever the
turnaround, the data phase and the idle cycles are; the probe leaves the line high and
never drives it against the port. -/
theorem swdTransfer_exchange (turn : c.turnaround.toNat ≤ 6) :
    swdTransfer (wire q c) c request data (atRest out d) = q.exchange c request data d := by
  unfold Port.exchange
  cases answer : q.answer d (request.setWidth 4) with
  | ok =>
    cases reads : Header.isRead (request.setWidth 4) with
    | true =>
      rw [swdTransfer_read rfl answer reads]
      simp only [Port.transfer, answer, reads, reduceCtorEq, if_false]
    | false =>
      rw [swdTransfer_write rfl answer reads]
      simp only [Port.transfer, answer, reads, reduceCtorEq, if_false]
  | wait =>
    rw [swdTransfer_refused rfl answer (Or.inl rfl)]
    simp only [Port.transfer, answer, reduceCtorEq, if_false]
  | fault =>
    rw [swdTransfer_refused rfl answer (Or.inr rfl)]
    simp only [Port.transfer, answer, reduceCtorEq, if_false]
  | none =>
    have sent : writeBits (wire q c) (packetRequest request) (atRest out d) = ⟨true, true, ⟨d, .deaf, 1⟩, false⟩ := by
      rw [request_sent, respond_request, answer]
      rfl
    rw [swdTransfer_silent turn sent]
    simp only [Port.transfer, answer, if_true]

/-- A port of one register that answers every request with OK. -/
def Port.register : Port Word where
  answer _ _ := .ok
  fetch d _ := d
  taken d _ := d
  store _ _ val := val
  spoiled d _ := d
  refused d _ := d
  noise _ _ := (0, false)

theorem swdTransfer_exchange_register :
    swdTransfer (wire .register dapSetup) dapSetup 0 0xE79E (atRest false 5) = (DAP_TRANSFER_OK, 0xE79E, atRest true 0xE79E) := by
  have exchange := swdTransfer_exchange .register dapSetup 0 0xE79E 5 false (by decide)
  exact exchange

/-- A deaf port gets nothing of a transfer. -/
theorem swdTransfer_deaf (turn : c.turnaround.toNat ≤ 6) {ones : Nat} (few : ones ≤ 43) :
    swdTransfer (wire q c) c request data (deafened out ones d) =
      (Ack.word .none, data, deafened true (2 * c.turnaround.toNat + 37) d) :=
  swdTransfer_silent turn (request_unheard few)

end Transfer

end OffLineProgrammer.Target
