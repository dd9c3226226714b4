import OffLineProgrammer.Target.FlashSwd

/-!
# What is programmed past the end of the file

Every pass of `FLASH_SWD` programs the whole block buffer, and every pass of
`target_flash_program_page` a whole page of target RAM. A cell past the end of
the file stays erased exactly where every stale byte that lands on it is `0xFF`.
-/

namespace OffLineProgrammer.Target
set_option autoImplicit false
open OffLineProgrammer.Lib

/-! ## One buffer -/

/-- Byte `i` of the page buffer when page `c` of a buffer of `n` bytes is
programmed: a byte of the buffer, else what the page before it left, else what
the RAM held at first. -/
def pageByte (t : ProgramTarget) (data : Mem) (n : Nat) (ram : WordMem) (c i : Nat) : Byte :=
  if c * t.pageSize + i < n then data (c * t.pageSize + i)
  else if 0 < c then data ((c - 1) * t.pageSize + i)
  else ram (t.programBuffer + BitVec.ofNat 32 i)

/-- The page before a later one ends where it begins. -/
theorem page_before {c : Nat} (later : 0 < c) (n : Nat) : (c - 1) * n + n = c * n := by
  rw [← Nat.succ_mul, Nat.succ_eq_add_one, Nat.sub_add_cancel later]

section Buffer

variable {W : World} {t : ProgramTarget} {data : Mem} {n : Nat} {start : Word} {s s' : ProgramPage}

/-- After `c` pages. -/
structure TailAt (t : ProgramTarget) (data : Mem) (n : Nat) (start : Word) (before : Chip) (c : Nat) (s : ProgramPage) :
    Prop where
  buf : s.buf = min (c * t.pageSize) n
  begun : ∀ c' < c, c' * t.pageSize < n
  size : s.buf + s.size.toNat = n
  addr : s.addr = start + BitVec.ofNat 32 s.buf
  ram : ∀ i < t.pageSize, s.rig.chip.ram (t.programBuffer + BitVec.ofNat 32 i) =
    if 0 < c then pageByte t data n before.ram (c - 1) i else before.ram (t.programBuffer + BitVec.ofNat 32 i)
  flash : ∀ x, s.rig.chip.flash x = 0xFF#8 ↔ before.flash x = 0xFF#8 ∧
    ∀ c' < c, ∀ i < t.pageSize, x = start + BitVec.ofNat 32 (c' * t.pageSize + i) →
      pageByte t data n before.ram c' i = 0xFF#8
  calls : ∀ c' < c, Call.syscallExec t.sysCallS t.programPage (start + BitVec.ofNat 32 (c' * t.pageSize))
    t.programBufferSize t.programBuffer 0 ∈ s.rig.calls

/-- What the page buffer holds when the next page is programmed. -/
theorem TailAt.loaded {before : Chip} {c : Nat} (at_ : TailAt t data n start before c s) (more : 0 < s.size.toNat)
    (i : Nat) (inside : i < t.pageSize) :
    (s.loaded t data).ram (t.programBuffer + BitVec.ofNat 32 i) = pageByte t data n before.ram c i := by
  have cursor : s.buf = c * t.pageSize := by
    have size := at_.size
    have buf := at_.buf
    omega
  have rest : s.size.toNat = n - c * t.pageSize := by
    have size := at_.size
    omega
  have length : (s.piece t data).length = min t.pageSize (n - c * t.pageSize) := by
    rw [ProgramPage.piece, Mem.length_read, writeSize_toNat, rest]
  have page : t.pageSize < 2 ^ 32 := t.programBufferSize.isLt
  have near : (t.programBuffer + BitVec.ofNat 32 i - t.programBuffer).toNat = i := distance _ (by omega)
  simp only [ProgramPage.loaded, WordMem.store, near]
  unfold pageByte
  split
  · rename_i fresh
    have here : i < (s.piece t data).length := by omega
    rw [List.getD_eq_getElem _ _ here]
    simp only [ProgramPage.piece, Mem.getElem_read, cursor]
  · rename_i stale
    rw [List.getD_eq_default _ _ (by omega), at_.ram i inside]
    split
    · rename_i later
      -- The page before this one was a full one.
      have full := page_before later t.pageSize
      rw [pageByte, if_pos (by omega)]
    · rfl

/-- The page that a pass programs. -/
theorem TailAt.programmed {Q : Byte → Prop} (masks : Masks Q) {before : Chip} {c : Nat}
    (at_ : TailAt t data n start before c s) (programs : W.Programs t) (pass : programPagePass W t data s = some (.inl s'))
    (x : Word) : Q (s'.rig.chip.flash x) ↔ Q (s.rig.chip.flash x) ∧
      ∀ i < t.pageSize, x = start + BitVec.ofNat 32 (c * t.pageSize + i) → Q (pageByte t data n before.ram c i) := by
  have passed := programPagePass_again pass
  have loaded := at_.loaded passed.more
  have place : s.addr = start + BitVec.ofNat 32 (c * t.pageSize) := by
    have more := passed.more
    have buf := at_.buf
    have size := at_.size
    have cursor : s.buf = c * t.pageSize := by omega
    rw [at_.addr, cursor]
  have page : t.programBufferSize.toNat ≤ 2 ^ 32 := Nat.le_of_lt t.programBufferSize.isLt
  have same : (s.loaded t data).flash x = s.rig.chip.flash x := rfl
  rw [passed.chip, programs, WordMem.program_masks masks (by rw [WordMem.length_read]; exact page), same]
  apply and_congr_right
  intro _
  constructor
  · intro here i inside land
    rw [← loaded i inside]
    have byte := here i (by rwa [WordMem.length_read]) (by rw [land, place, BitVec.ofNat_add, BitVec.add_assoc])
    rwa [WordMem.getElem_read] at byte
  · intro all i inside land
    rw [WordMem.length_read] at inside
    rw [WordMem.getElem_read, loaded i inside]
    exact all i inside (by rw [land, place, BitVec.ofNat_add, BitVec.add_assoc])

/-- One page more. -/
theorem TailAt.again {before : Chip} {c : Nat} (at_ : TailAt t data n start before c s) (programs : W.Programs t)
    (keeps : W.KeepsBuffer t) (pass : programPagePass W t data s = some (.inl s')) :
    TailAt t data n start before (c + 1) s' := by
  have passed := programPagePass_again pass
  have loaded := at_.loaded passed.more
  have programmed := at_.programmed masks_erased programs pass
  obtain ⟨buf, begun, size, addr, ram, flash, calls⟩ := at_
  have cursor : s.buf = c * t.pageSize := by
    have more := passed.more
    omega
  have step : (writeSize t s.size).toNat = min t.pageSize s.size.toNat := writeSize_toNat t s.size
  have next : (c + 1) * t.pageSize = c * t.pageSize + t.pageSize := Nat.succ_mul ..
  have further : s'.buf = min ((c + 1) * t.pageSize) n := by
    rw [passed.buf, step]
    omega
  refine ⟨further, ?_, ?_, ?_, ?_, ?_, ?_⟩
  · intro c' less
    rcases Nat.lt_succ_iff_lt_or_eq.mp less with earlier | rfl
    · exact begun c' earlier
    · have more := passed.more
      omega
  · have left : s'.size.toNat = s.size.toNat - min t.pageSize s.size.toNat := by
      rw [passed.size, BitVec.toNat_sub_of_le, step]
      rw [BitVec.le_def, step]
      exact Nat.min_le_right ..
    rw [left, passed.buf, step]
    omega
  · rw [passed.addr, passed.buf, addr, BitVec.ofNat_add, BitVec.ofNat_toNat, BitVec.setWidth_eq, BitVec.add_assoc]
  · intro i inside
    rw [passed.chip, keeps _ _ _ _ _ _ i inside, loaded i inside, if_pos (Nat.succ_pos c), Nat.add_sub_cancel]
  · intro x
    rw [programmed x, flash x, and_assoc]
    exact and_congr_right fun _ => Nat.forall_lt_succ_right.symm
  · intro c' less
    rw [passed.calls]
    rcases Nat.lt_succ_iff_lt_or_eq.mp less with earlier | rfl
    · exact List.mem_append_left _ (calls c' earlier)
    · rw [← cursor, ← addr]
      exact List.mem_append_right _ (by simp)

/-- What a buffer leaves: the pages that begin inside it are programmed, and the
RAM behind the reach of the buffer is as it was. -/
structure Buffered (t : ProgramTarget) (data : Mem) (n : Nat) (start : Word) (g g' : Rig) : Prop where
  page : 0 < n → 0 < t.pageSize
  flash : ∀ x, g'.chip.flash x = 0xFF#8 ↔ g.chip.flash x = 0xFF#8 ∧
    ∀ c, c * t.pageSize < n → ∀ i < t.pageSize, x = start + BitVec.ofNat 32 (c * t.pageSize + i) →
      pageByte t data n g.chip.ram c i = 0xFF#8
  ram : ∀ i < t.pageSize, n ≤ i →
    g'.chip.ram (t.programBuffer + BitVec.ofNat 32 i) = g.chip.ram (t.programBuffer + BitVec.ofNat 32 i)
  calls : ∀ c, c * t.pageSize < n → Call.syscallExec t.sysCallS t.programPage
    (start + BitVec.ofNat 32 (c * t.pageSize)) t.programBufferSize t.programBuffer 0 ∈ g'.calls

theorem TailAt.leave {g : Rig} {c : Nat} (at_ : TailAt t data n start g.chip c s) (used : s.size = 0) :
    Buffered t data n start g s.rig := by
  obtain ⟨buf, begun, size, addr, ram, flash, calls⟩ := at_
  rw [used] at size
  have all : n ≤ c * t.pageSize := by
    simp only [BitVec.ofNat_eq_ofNat, BitVec.toNat_ofNat, Nat.zero_mod, Nat.add_zero] at size
    omega
  have done : ∀ c', c' * t.pageSize < n → c' < c := fun c' less =>
    Nat.lt_of_mul_lt_mul_right (Nat.lt_of_lt_of_le less all)
  refine ⟨?_, ?_, ?_, fun c' less => calls c' (done c' less)⟩
  · intro some_
    exact Nat.pos_of_mul_pos_left (Nat.lt_of_lt_of_le some_ all)
  · intro x
    rw [flash x]
    apply and_congr_right
    intro _
    exact ⟨fun h c' less => h c' (done c' less), fun h c' less => h c' (begun c' less)⟩
  · intro i inside far
    rw [ram i inside]
    split
    · rename_i some_
      -- A page longer than the buffer is the only one.
      have one : c - 1 = 0 := by
        by_contra other
        have first := begun 1 (by omega)
        omega
      rw [one, pageByte, if_neg (by omega), if_neg (Nat.lt_irrefl 0)]
    · rfl

/-- **Every page of a buffer is programmed whole.** -/
theorem targetFlashProgramPage_buffered {fuel : Nat} {size : Word} {g g' : Rig} (programs : W.Programs t)
    (keeps : W.KeepsBuffer t) (run : targetFlashProgramPage W t fuel start data size g = some (.success, g')) :
    Buffered t data size.toNat start g g' := by
  have first : TailAt t data size.toNat start g.chip 0 ⟨start, 0, size, g⟩ := by
    refine ⟨by simp, by simp, by simp, ?_, by simp, by simp, by simp⟩
    exact (BitVec.add_zero start).symm
  refine Loop.exec_post (fun s => ∃ c, TailAt t data size.toNat start g.chip c s)
    (fun r : ErrorT × Rig => r.1 = .success → Buffered t data size.toNat start g r.2)
    ?_ ?_ ⟨0, first⟩ run rfl
  · rintro s s' ⟨c, at_⟩ pass
    exact ⟨c + 1, at_.again programs keeps pass⟩
  · rintro s ⟨e, h⟩ ⟨c, at_⟩ pass rfl
    obtain ⟨used, rfl⟩ := programPagePass_leave pass
    exact at_.leave used

end Buffer

/-! ## All blocks -/

/-- What `bin_buff` holds before block `k` is read. -/
def heldByte (file : List Byte) (heap : Mem) : Nat → Mem
  | 0 => heap
  | k + 1 => fun j => file.getD (dlSize * k + j) 0

/-- What `bin_buff` holds when block `k` is programmed. -/
def blockByte (file : List Byte) (heap : Mem) (k : Nat) : Mem :=
  fun j => if dlSize * k + j < file.length then file.getD (dlSize * k + j) 0 else heldByte file heap k j

/-- Byte `i` of page `c` of block `k`. -/
def stagedByte (t : ProgramTarget) (file : List Byte) (heap : Mem) (ram : WordMem) (k c i : Nat) : Byte :=
  pageByte t (blockByte file heap k) dlSize ram c i

/-- Every byte that is programmed at or past the end of the file is `0xFF`. -/
def TailErased (t : ProgramTarget) (file : List Byte) (heap : Mem) (ram : WordMem) : Prop :=
  ∀ k c i, dlSize * k ≤ file.length → c * t.pageSize < dlSize → i < t.pageSize →
    0x8000000 + file.length ≤ (flashBase + BitVec.ofNat 32 (dlSize * k + (c * t.pageSize + i))).toNat →
    stagedByte t file heap ram k c i = 0xFF#8

section Blocks

variable {W : World} {t : ProgramTarget} {file : List Byte} {heap : Mem} {fuel : Nat}

/-- A page depends on the buffer inside the block, and on the RAM behind it. -/
theorem pageByte_congr {data data' : Mem} {n c i : Nat} {ram ram' : WordMem} (begun : c * t.pageSize < n)
    (inside : i < t.pageSize) (bytes : ∀ j < n, data j = data' j)
    (rest : n ≤ i → ram (t.programBuffer + BitVec.ofNat 32 i) = ram' (t.programBuffer + BitVec.ofNat 32 i)) :
    pageByte t data n ram c i = pageByte t data' n ram' c i := by
  unfold pageByte
  split
  · rename_i fresh
    exact bytes _ fresh
  · split
    · rename_i later
      have full := page_before later t.pageSize
      exact bytes _ (by omega)
    · rename_i first
      have zero : c = 0 := by omega
      subst zero
      exact rest (by omega)

/-- After `k` full blocks. -/
structure BlockTailAt (t : ProgramTarget) (file : List Byte) (heap : Mem) (ram₀ : WordMem) (s : FlashSwd) : Prop where
  addr : s.addr = BitVec.ofNat 32 (dlSize * s.reads)
  inside : dlSize * s.reads ≤ file.length
  held : ∀ j < dlSize, s.binBuff j = heldByte file heap s.reads j
  ram : ∀ i < t.pageSize, dlSize ≤ i →
    s.rig.chip.ram (t.programBuffer + BitVec.ofNat 32 i) = ram₀ (t.programBuffer + BitVec.ofNat 32 i)
  flash : ∀ x, s.rig.chip.flash x = 0xFF#8 ↔ ∀ k < s.reads, ∀ c, c * t.pageSize < dlSize → ∀ i < t.pageSize,
    x = flashBase + BitVec.ofNat 32 (dlSize * k + (c * t.pageSize + i)) → stagedByte t file heap ram₀ k c i = 0xFF#8

/-- The buffer after the read. -/
theorem BlockTailAt.block {s : FlashSwd} {ram : WordMem} (at_ : BlockTailAt t file heap ram s)
    (delivers : W.Delivers file) (j : Nat) (inside : j < dlSize) : s.block W j = blockByte file heap s.reads j := by
  have data : (W.reads s.reads).data = (file.drop (dlSize * s.reads)).take dlSize := by rw [delivers]
  rw [FlashSwd.block, data, blockByte]
  split
  · rename_i present
    have length : j < ((file.drop (dlSize * s.reads)).take dlSize).length := by
      rw [List.length_take, List.length_drop]
      omega
    have byte := Mem.write_in (m := s.binBuff) (a := 0) j length
    rw [Nat.zero_add, List.getElem_take, List.getElem_drop] at byte
    rw [byte, List.getD_eq_getElem _ _ present]
  · rename_i past
    rw [Mem.write_out, at_.held j inside]
    rw [List.length_take, List.length_drop]
    omega

/-- A block is programmed. -/
theorem BlockTailAt.programmed {s : FlashSwd} {ram : WordMem} {g : Rig} (at_ : BlockTailAt t file heap ram s)
    (delivers : W.Delivers file) (programs : W.Programs t) (keeps : W.KeepsBuffer t)
    (run : s.Programmed W t fuel g) : 0 < t.pageSize ∧
    (∀ x, g.chip.flash x = 0xFF#8 ↔ ∀ k < s.reads + 1, ∀ c, c * t.pageSize < dlSize → ∀ i < t.pageSize,
      x = flashBase + BitVec.ofNat 32 (dlSize * k + (c * t.pageSize + i)) →
        stagedByte t file heap ram k c i = 0xFF#8) ∧
    (∀ i < t.pageSize, dlSize ≤ i →
      g.chip.ram (t.programBuffer + BitVec.ofNat 32 i) = ram (t.programBuffer + BitVec.ofNat 32 i)) ∧
    (∀ c, c * t.pageSize < dlSize → Call.syscallExec t.sysCallS t.programPage
      (flashBase + BitVec.ofNat 32 (dlSize * s.reads + c * t.pageSize)) t.programBufferSize t.programBuffer 0 ∈
        g.calls) := by
  obtain ⟨rig, same, page⟩ := run
  have size : (BitVec.ofNat 32 dlSize).toNat = dlSize := rfl
  obtain ⟨some_, flash, behind, calls⟩ := targetFlashProgramPage_buffered programs keeps page
  rw [size] at some_ behind calls
  simp only [size] at flash
  rw [same] at flash behind
  have place : ∀ j, flashBase + s.addr + BitVec.ofNat 32 j = flashBase + BitVec.ofNat 32 (dlSize * s.reads + j) := by
    intro j
    rw [at_.addr, BitVec.ofNat_add, BitVec.add_assoc]
  have staged : ∀ c, c * t.pageSize < dlSize → ∀ i < t.pageSize,
      pageByte t (s.block W) dlSize s.rig.chip.ram c i = stagedByte t file heap ram s.reads c i :=
    fun c begun i inside => pageByte_congr begun inside (at_.block delivers) (at_.ram i inside)
  refine ⟨some_ (by decide), ?_, fun i inside far => (behind i inside far).trans (at_.ram i inside far), ?_⟩
  · intro x
    rw [flash x, at_.flash x, Nat.forall_lt_succ_right]
    apply and_congr_right
    intro _
    constructor
    · intro here c begun i inside land
      rw [← staged c begun i inside]
      exact here c begun i inside (by rw [place]; exact land)
    · intro all c begun i inside land
      rw [staged c begun i inside]
      exact all c begun i inside (by rw [land, place])
  · intro c begun
    rw [← place]
    exact calls c begun

/-- A full block. -/
theorem BlockTailAt.again {s s' : FlashSwd} {ram : WordMem} (at_ : BlockTailAt t file heap ram s)
    (delivers : W.Delivers file) (programs : W.Programs t) (keeps : W.KeepsBuffer t)
    (pass : flashSwdPass W t fuel s = some (.inl s')) : BlockTailAt t file heap ram s' := by
  obtain ⟨full, run, addr, buff, reads⟩ := flashSwdPass_again pass
  obtain ⟨-, flash, behind, -⟩ := at_.programmed delivers programs keeps run
  rw [delivers, List.length_take, List.length_drop] at full
  have inside := at_.inside
  have further : dlSize * s'.reads = dlSize * s.reads + dlSize := by rw [reads, Nat.mul_succ]
  refine ⟨?_, ?_, ?_, behind, ?_⟩
  · rw [addr, at_.addr, further, BitVec.ofNat_add]
  · rw [further]
    omega
  · intro j less
    rw [buff, at_.block delivers j less, reads, heldByte, blockByte, if_pos (by omega)]
  · rw [reads]
    exact flash

/-- What the run leaves in the flash. -/
structure Finished (t : ProgramTarget) (file : List Byte) (heap : Mem) (ram₀ : WordMem) (g : Rig) : Prop where
  page : 0 < t.pageSize
  flash : ∀ x, g.chip.flash x = 0xFF#8 ↔ ∀ k, dlSize * k ≤ file.length → ∀ c, c * t.pageSize < dlSize →
    ∀ i < t.pageSize, x = flashBase + BitVec.ofNat 32 (dlSize * k + (c * t.pageSize + i)) →
      stagedByte t file heap ram₀ k c i = 0xFF#8
  /-- The page that covers the end of the file. -/
  call : ∃ adr, .syscallExec t.sysCallS t.programPage adr t.programBufferSize t.programBuffer 0 ∈ g.calls ∧
    (flashBase + BitVec.ofNat 32 file.length - adr).toNat < t.pageSize

/-- The last block: the whole buffer is programmed, with the end of the file in it. -/
theorem BlockTailAt.leave {s : FlashSwd} {ram : WordMem} {g : Rig} (at_ : BlockTailAt t file heap ram s)
    (delivers : W.Delivers file) (programs : W.Programs t) (keeps : W.KeepsBuffer t)
    (pass : flashSwdPass W t fuel s = some (.inr (true, g))) : Finished t file heap ram g := by
  obtain ⟨short, run⟩ := flashSwdPass_leave pass
  obtain ⟨page, flash, -, calls⟩ := at_.programmed delivers programs keeps run
  have inside := at_.inside
  rw [delivers, List.length_take, List.length_drop] at short
  have last : ∀ k, k < s.reads + 1 ↔ dlSize * k ≤ file.length := by
    intro k
    unfold dlSize at *
    omega
  refine ⟨page, fun x => (flash x).trans (forall_congr' fun k => imp_congr (last k) Iff.rfl), ?_⟩
  have rest : file.length - dlSize * s.reads < dlSize := by
    unfold dlSize at *
    omega
  have place := Nat.div_add_mod' (file.length - dlSize * s.reads) t.pageSize
  have near := Nat.mod_lt (file.length - dlSize * s.reads) page
  have begun : (file.length - dlSize * s.reads) / t.pageSize * t.pageSize < dlSize :=
    Nat.lt_of_le_of_lt (Nat.div_mul_le_self ..) rest
  refine ⟨_, calls _ begun, ?_⟩
  have split : file.length = dlSize * s.reads + (file.length - dlSize * s.reads) / t.pageSize * t.pageSize +
      (file.length - dlSize * s.reads) % t.pageSize := by omega
  have bound := t.programBufferSize.isLt
  have apart := distance (flashBase + BitVec.ofNat 32 (dlSize * s.reads +
    (file.length - dlSize * s.reads) / t.pageSize * t.pageSize))
    (show (file.length - dlSize * s.reads) % t.pageSize < 2 ^ 32 from Nat.lt_trans near bound)
  rw [BitVec.add_assoc, ← BitVec.ofNat_add, ← split] at apart
  rw [apart]
  exact near

/-- A run that returns 1. -/
theorem flashSwd_finished {g g' : Rig} (delivers : W.Delivers file) (erases : W.Erases t) (programs : W.Programs t)
    (keeps : W.KeepsBuffer t) (returned : flashSwd W t fuel heap g = some (1, g')) :
    Finished t file heap (downloaded t g.chip).ram g' := by
  obtain ⟨rig, ended, start, final, made, loop⟩ := flashSwd_one returned
  have first : BlockTailAt t file heap (downloaded t g.chip).ram ⟨0, heap, 0, rig⟩ := by
    refine ⟨rfl, Nat.zero_le _, fun j _ => rfl, ?_, ?_⟩
    · intro i inside _
      show rig.chip.ram _ = _
      rw [start, prepared, keeps _ _ _ _ _ _ i inside, keeps _ _ _ _ _ _ i inside]
    · intro x
      have blank : rig.chip.flash x = 0xFF#8 := by rw [start, prepared, erases]; rfl
      exact iff_of_true blank fun k none => absurd none (Nat.not_lt_zero k)
  have finished := Loop.exec_post (BlockTailAt t file heap (downloaded t g.chip).ram)
    (fun r : Bool × Rig => r.1 = true → Finished t file heap (downloaded t g.chip).ram r.2)
    (fun s s' at_ pass => at_.again delivers programs keeps pass)
    (by
      rintro s ⟨done, h⟩ at_ pass rfl
      exact at_.leave delivers programs keeps pass) first loop rfl
  obtain ⟨page, flash, adr, call, near⟩ := finished
  exact ⟨page, fun x => by rw [← final]; exact flash x, adr, made _ call, near⟩

end Blocks

/-- **The cells past the end of the file** stay erased in a run that returns 1 exactly
where every byte programmed there is `0xFF`; some page always covers them. -/
theorem flashSwd_tail_iff (W : World) (t : ProgramTarget) (file : List Byte) (fuel : Nat) (heap : Mem) (g g' : Rig)
    (delivers : W.Delivers file) (erases : W.Erases t) (programs : W.Programs t) (keeps : W.KeepsBuffer t)
    (returned : flashSwd W t fuel heap g = some (1, g')) :
    ((∀ x : Word, 0x8000000 + file.length ≤ x.toNat → g'.chip.flash x = 0xFF#8) ↔
      TailErased t file heap (downloaded t g.chip).ram) ∧
    ∃ adr, .syscallExec t.sysCallS t.programPage adr t.programBufferSize t.programBuffer 0 ∈ g'.calls ∧
      (0x8000000 + BitVec.ofNat 32 file.length - adr).toNat < t.pageSize := by
  have finished := flashSwd_finished delivers erases programs keeps returned
  refine ⟨⟨?_, ?_⟩, finished.call⟩
  · intro blank k c i block begun inside past
    exact (finished.flash _).mp (blank _ past) k block c begun i inside rfl
  · intro erased x past
    rw [finished.flash x]
    rintro k block c begun i inside rfl
    exact erased k c i block begun inside past

set_option maxRecDepth 20000 in
/-- The first block leaves `0xFF` behind the one byte of the second: nothing is programmed
past the end. -/
theorem flashSwd_tail_blocks : ∃ g', flashSwd (idealWorld (sampleTarget 512) sampleFile) (sampleTarget 512) 4 (fun _ => 0)
    restingRig = some (1, g') ∧ ∀ x : Word, 0x8000401 ≤ x.toNat → g'.chip.flash x = 0xFF#8 := by
  obtain ⟨g', returned⟩ : ∃ g', flashSwd (idealWorld (sampleTarget 512) sampleFile) (sampleTarget 512) 4 (fun _ => 0)
      restingRig = some (1, g') := ⟨_, rfl⟩
  refine ⟨g', returned, (flashSwd_tail_iff (idealWorld (sampleTarget 512) sampleFile) (sampleTarget 512) sampleFile 4 (fun _ => 0)
    restingRig g' idealWorld_delivers idealWorld_erases (idealWorld_programs (by decide)) idealWorld_keepsBuffer
    returned).1.mpr ?_⟩
  have stale : ∀ j < 1024, 0 < j → sampleFile.getD j 0 = 0xFF := by
    intro j less more
    obtain ⟨j, rfl⟩ := Nat.exists_eq_succ_of_ne_zero (Nat.ne_of_gt more)
    have front : j < 1023 := Nat.lt_of_succ_lt_succ less
    rw [sampleFile, List.cons_append, List.getD_cons_succ, List.getD_append _ _ _ _ (by rwa [List.length_replicate]),
      List.getD_replicate _ front]
  intro k c i block begun inside past
  have length : sampleFile.length = 1025 := rfl
  have page : (sampleTarget 512).pageSize = 512 := rfl
  have base : flashBase.toNat = 134217728 := rfl
  have size : dlSize = 1024 := rfl
  rw [page] at begun inside past
  rw [size, length] at block past
  rw [size] at begun
  have within : c * 512 + i < 1024 := by omega
  rw [BitVec.toNat_add, BitVec.toNat_ofNat, base] at past
  -- only the second block reaches past the end
  have second : k = 1 := by omega
  subst second
  have behind : ¬ 1024 * 1 + (c * 512 + i) < 1025 := by omega
  rw [stagedByte, pageByte, page, if_pos within, blockByte, size, length, if_neg behind, heldByte, size, Nat.mul_zero]
  simp only [Nat.zero_add]
  exact stale _ within (by omega)

set_option maxRecDepth 20000 in
/-- A file of 1025 zeros: the second block programs zeros behind its one byte. -/
theorem flashSwd_tail_stale : ¬ ∀ (W : World) (t : ProgramTarget) (file : List Byte) (fuel : Nat) (heap : Mem)
    (g g' : Rig), W.Delivers file → W.Erases t → W.Programs t → W.KeepsBuffer t →
    flashSwd W t fuel heap g = some (1, g') →
    ∀ x : Word, 0x8000000 + file.length ≤ x.toNat → g'.chip.flash x = 0xFF#8 := by
  intro always
  have programs : (idealWorld (sampleTarget 1024) (List.replicate 1025 0)).Programs (sampleTarget 1024) :=
    idealWorld_programs (by decide)
  obtain ⟨g', returned⟩ : ∃ g', flashSwd (idealWorld (sampleTarget 1024) (List.replicate 1025 0)) (sampleTarget 1024) 4
      (fun _ => 0) restingRig = some (1, g') := ⟨_, rfl⟩
  have blank := always _ _ _ 4 (fun _ => 0) restingRig g' idealWorld_delivers idealWorld_erases
    programs idealWorld_keepsBuffer returned 0x8000401 (by rw [List.length_replicate]; decide)
  have finished := flashSwd_finished idealWorld_delivers idealWorld_erases programs idealWorld_keepsBuffer returned
  have stale := (finished.flash 0x8000401).mp blank 1 (by rw [List.length_replicate]; decide) 0 (by decide) 1
    (by decide) (by decide)
  have byte : stagedByte (sampleTarget 1024) (List.replicate 1025 0) (fun _ => 0)
      (downloaded (sampleTarget 1024) restingRig.chip).ram 1 0 1 = 0 := by
    rw [stagedByte, pageByte, if_pos (by decide), blockByte, if_neg (by rw [List.length_replicate]; decide)]
    rfl
  rw [byte] at stale
  cases stale

end OffLineProgrammer.Target
