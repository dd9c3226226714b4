import OffLineProgrammer.Lib.Threads
import OffLineProgrammer.Storage.CallerBuffer

/-!
# Flash operations as programs of bus actions

The functions of `25qxx.c` and `diskio.c` again, as programs that move the chip
select and transfer. What a transfer brings back decides how they go on, so that
other threads may use the bus in between. `polls` bounds the evaluations of each
loop condition of `_25qxx_Flash_Wait_SR`.
-/

namespace OffLineProgrammer.Storage.Shared
set_option autoImplicit false
open OffLineProgrammer.Lib

/-- Programs over the SPI bus, of which a transfer is full duplex. -/
abbrev Program (α : Type) := Threads.Program (List Byte) α

/-- `_25qxx_spi_cs` -/
def spiCs (value : Nat) : Program Unit := if value = 0 then .select (.ret ()) else .release (.ret ())

/-- `_25qxx_spi_rw` -/
def spiRw (data : List Byte) : Program (List Byte) := .transfer data .ret

/-- `_25qxx_Write_Enable` -/
def writeEnable : Program Unit := do
  spiCs 0
  let _ ← spiRw [CMD_FLASH_WREN]
  spiCs 1

/-- `_25qxx_Flash_ReadStatusReg` -/
def flashReadStatusReg : Program Byte := do
  spiCs 0
  let data ← spiRw [CMD_FLASH_RDSR, 0xFF]
  spiCs 1
  pure (data.getD 1 0)

/-- One evaluation of the loop condition of `_25qxx_Flash_Wait_SR`. -/
def flashWaitSRPoll (_ : Unit) : Program (Unit ⊕ Unit) := do
  let r ← flashReadStatusReg
  pure (if r &&& 0x01 = 0x01 then .inl () else .inr ())

/-- `_25qxx_Flash_Wait_SR` -/
def flashWaitSR (polls : Nat) : Program Unit := Threads.Program.loop flashWaitSRPoll polls ()

/-- `_25qxx_Flash_Erase_Sector` -/
def flashEraseSector (polls address : Nat) : Program Unit := do
  writeEnable
  spiCs 0
  let _ ← spiRw (command CMD_FLASH_SECTOR_ERASE address)
  spiCs 1
  flashWaitSR polls

/-- `_25qxx_Flash_Read_Data` -/
def flashReadData (addr : Nat) (data : List Byte) : Program (List Byte) := do
  spiCs 0
  let _ ← spiRw (command CMD_FLASH_READ addr)
  let data ← spiRw data
  spiCs 1
  pure data

/-- `_25xx_Flash_Write_Page` -/
def flashWritePage (polls addr : Nat) (data : List Byte) : Program (List Byte) := do
  writeEnable
  spiCs 0
  let _ ← spiRw (command CMD_FLASH_BYTE_PROG addr)
  let data ← spiRw data
  spiCs 1
  flashWaitSR polls
  pure data

/-- The variables of `_25qxx_Flash_Write_NoCheck`. -/
structure NoCheck where
  addr : Nat
  past : List Byte
  data : List Byte
  len : Nat
  pageremain : Nat

/-- One pass of the `while(1)` of `_25qxx_Flash_Write_NoCheck`. -/
def noCheckPass (polls : Nat) (s : NoCheck) : Program (NoCheck ⊕ List Byte) := do
  let sent ← flashWritePage polls s.addr (s.data.take s.pageremain)
  if s.len = s.pageremain then pure (.inr (s.past ++ sent ++ s.data.drop s.pageremain))
  else
    let len := s.len - s.pageremain
    pure (.inl
      { addr := u32 (s.addr + s.pageremain)
        past := s.past ++ sent
        data := s.data.drop s.pageremain
        len := len
        pageremain := if len > spiFlashPageSize then spiFlashPageSize else u16 len })

/-- `_25qxx_Flash_Write_NoCheck` -/
def flashWriteNoCheck (polls addr : Nat) (data : List Byte) : Program (List Byte) :=
  let len := data.length
  let pageremain := u16 (spiFlashPageSize - addr % spiFlashPageSize)
  let pageremain := if len ≤ pageremain then u16 len else pageremain
  Threads.Program.loop (noCheckPass polls) (len + 1) ⟨addr, [], data, len, pageremain⟩

/-- The variables of `_25qxx_Flash_Write_Data`, and `dev.buff`. -/
structure WriteData where
  buff : List Byte
  secpos : Nat
  secoff : Nat
  secremain : Nat
  addr : Nat
  past : List Byte
  data : List Byte
  len : Nat

/-- The sector of one pass. -/
def writeSector (polls : Nat) (s : WriteData) : Program (List Byte × List Byte) := do
  let r ← flashReadData (u32 (s.secpos * spiFlashSectorSize)) s.buff
  let i := ((r.drop s.secoff).take s.secremain).findIdx (· != 0xFF#8)
  if i < s.secremain then do
    flashEraseSector polls s.secpos
    let buff := mergeSector r s.secoff (s.data.take s.secremain)
    let buff ← flashWriteNoCheck polls (u32 (s.secpos * spiFlashSectorSize)) buff
    pure (buff, s.data.take s.secremain)
  else do
    let sent ← flashWriteNoCheck polls s.addr (s.data.take s.secremain)
    pure (r, sent)

/-- One pass of the `while(1)` of `_25qxx_Flash_Write_Data`. -/
def writeDataPass (polls : Nat) (s : WriteData) : Program (WriteData ⊕ (List Byte × List Byte)) := do
  let (buff, sent) ← writeSector polls s
  if s.len = s.secremain then pure (.inr (buff, s.past ++ sent ++ s.data.drop s.secremain))
  else
    let len := s.len - s.secremain
    pure (.inl
      { buff := buff
        secpos := u32 (s.secpos + 1)
        secoff := 0
        addr := u32 (s.addr + s.secremain)
        past := s.past ++ sent
        data := s.data.drop s.secremain
        len := len
        secremain := if len > spiFlashSectorSize then spiFlashSectorSize else u16 len })

/-- `_25qxx_Flash_Write_Data`: `buff` is `dev.buff`, which no other thread uses. -/
def flashWriteData (polls addr : Nat) (data buff : List Byte) : Program (List Byte × List Byte) :=
  let len := data.length
  let secpos := addr / spiFlashSectorSize
  let secoff := u16 (addr % spiFlashSectorSize)
  let secremain := u16 (spiFlashSectorSize - secoff)
  let secremain := if len ≤ secremain then u16 len else secremain
  Threads.Program.loop (writeDataPass polls) (len + 1) ⟨buff, secpos, secoff, secremain, addr, [], data, len⟩

/-! ## Sectors, from diskio.c -/

/-- Pass `i` of the loop of `disk_read`. -/
def diskReadSector (sector : Nat) (buff : List Byte) (i : Nat) : Program (List Byte) := do
  let got ← flashReadData (u32 ((sector + i) * spiFlashSectorSize))
    ((buff.drop (i * spiFlashSectorSize)).take spiFlashSectorSize)
  pure (buff.take (i * spiFlashSectorSize) ++ got ++ buff.drop ((i + 1) * spiFlashSectorSize))

/-- `disk_read` -/
def diskRead (buff : List Byte) (sector count : Nat) : Program (List Byte) :=
  (List.range count).foldlM (diskReadSector sector) buff

/-- Pass `i` of the loop of `disk_write`. -/
def diskWriteSector (polls sector : Nat) (r : List Byte × List Byte) (i : Nat) : Program (List Byte × List Byte) := do
  let (dev, sent) ← flashWriteData polls (u32 ((sector + i) * spiFlashSectorSize))
    ((r.2.drop (i * spiFlashSectorSize)).take spiFlashSectorSize) r.1
  pure (dev, r.2.take (i * spiFlashSectorSize) ++ sent ++ r.2.drop ((i + 1) * spiFlashSectorSize))

/-- `disk_write` -/
def diskWrite (polls : Nat) (buff : List Byte) (sector count : Nat) (dev : List Byte) :
    Program (List Byte × List Byte) :=
  (List.range count).foldlM (diskWriteSector polls sector) (dev, buff)

/-! ## Transactions -/

section Moves

open Threads.Program (Moves)

theorem Moves.low : Moves false (spiCs 0) true := .select (.ret () true)

theorem Moves.high : Moves true (spiCs 1) false := .release (.ret () false)

theorem Moves.rw (data : List Byte) : Moves true (spiRw data) true := .transfer fun back => .ret back true

/-- One transfer between chip select low and high. -/
theorem moves_writeEnable : Moves false writeEnable false :=
  Moves.low.bind fun _ => (Moves.rw _).bind fun _ => Moves.high

theorem moves_readStatusReg : Moves false flashReadStatusReg false :=
  Moves.low.bind fun _ => (Moves.rw _).bind fun _ => Moves.high.bind fun _ => .ret _ _

theorem moves_waitSR (polls : Nat) : Moves false (flashWaitSR polls) false :=
  Moves.loop (fun _ => moves_readStatusReg.bind fun _ => .ret _ _) polls ()

theorem moves_eraseSector (polls address : Nat) : Moves false (flashEraseSector polls address) false :=
  moves_writeEnable.bind fun _ => Moves.low.bind fun _ => (Moves.rw _).bind fun _ => Moves.high.bind fun _ =>
    moves_waitSR polls

theorem moves_readData (addr : Nat) (data : List Byte) : Moves false (flashReadData addr data) false :=
  Moves.low.bind fun _ => (Moves.rw _).bind fun _ => (Moves.rw _).bind fun _ => Moves.high.bind fun _ => .ret _ _

theorem moves_writePage (polls addr : Nat) (data : List Byte) : Moves false (flashWritePage polls addr data) false :=
  moves_writeEnable.bind fun _ => Moves.low.bind fun _ => (Moves.rw _).bind fun _ => (Moves.rw _).bind fun _ =>
    Moves.high.bind fun _ => (moves_waitSR polls).bind fun _ => .ret _ _

theorem moves_writeNoCheck (polls addr : Nat) (data : List Byte) : Moves false (flashWriteNoCheck polls addr data) false := by
  refine Moves.loop (fun s => ?_) _ _
  refine (moves_writePage polls _ _).bind fun sent => ?_
  split <;> exact .ret _ _

theorem moves_writeSector (polls : Nat) (s : WriteData) : Moves false (writeSector polls s) false := by
  refine (moves_readData _ _).bind fun r => ?_
  dsimp only
  split
  · exact (moves_eraseSector polls _).bind fun _ => (moves_writeNoCheck polls _ _).bind fun _ => .ret _ _
  · exact (moves_writeNoCheck polls _ _).bind fun _ => .ret _ _

theorem moves_writeData (polls addr : Nat) (data buff : List Byte) :
    Moves false (flashWriteData polls addr data buff) false := by
  refine Moves.loop (fun s => ?_) _ _
  refine (moves_writeSector polls s).bind fun ⟨buff, sent⟩ => ?_
  dsimp only
  split <;> exact .ret _ _

/-- A loop over sectors. -/
theorem Moves.foldlM {α : Type} {f : α → Nat → Program α} (pass : ∀ a i, Moves false (f a i) false) :
    ∀ (is : List Nat) (a : α), Moves false (is.foldlM f a) false
  | [], a => .ret a false
  | i :: is, a => (pass a i).bind fun a' => Moves.foldlM pass is a'

theorem moves_diskRead (buff : List Byte) (sector count : Nat) : Moves false (diskRead buff sector count) false :=
  Moves.foldlM (fun _ _ => (moves_readData _ _).bind fun _ => .ret _ _) _ _

theorem moves_diskWrite (polls : Nat) (buff : List Byte) (sector count : Nat) (dev : List Byte) :
    Moves false (diskWrite polls buff sector count dev) false :=
  Moves.foldlM (fun _ _ => (moves_writeData polls _ _ _).bind fun _ => .ret _ _) _ _

end Moves

/-! ## Alone on the bus -/

/-- The program with the bus for itself. -/
def exec {α : Type} : Program α → Bus → Option (Bus × α)
  | .ret a, b => some (b, a)
  | .select next, b => exec next (Storage.spiCs 0 b)
  | .release next, b => exec next (Storage.spiCs 1 b)
  | .transfer out next, b => exec (next (Storage.spiRw out b).2) (Storage.spiRw out b).1
  | .spin, _ => none

section Exec

variable {α γ σ S R : Type} {b b' : Bus}

theorem exec_bind (x : Program α) (f : α → Program γ) (b : Bus) :
    exec (x >>= f) b = (exec x b).bind fun r => exec (f r.2) r.1 := by
  change exec (Threads.Program.bind x f) b = _
  induction x generalizing b with
  | ret a => rfl
  | select next ih => exact ih (Storage.spiCs 0 b)
  | release next ih => exact ih (Storage.spiCs 1 b)
  | transfer out next ih => exact ih _ _
  | spin => rfl

theorem exec_loop (body : σ → Program (σ ⊕ α)) (fuel : Nat) (s : σ) (b : Bus) :
    exec (Threads.Program.loop body (fuel + 1) s) b = (exec (body s) b).bind fun r =>
      match r.2 with
      | .inl s' => exec (Threads.Program.loop body fuel s') r.1
      | .inr a => some (r.1, a) := by
  apply (exec_bind (body s) _ b).trans
  congr 1
  funext ⟨b', r⟩
  cases r <;> rfl

/-- With polls enough the program ends with `r`. -/
def Ends (p : Nat → Program α) (b : Bus) (r : Bus × α) : Prop := ∃ least, ∀ polls, least ≤ polls → exec (p polls) b = some r

theorem Ends.of {p : Nat → Program α} {r : Bus × α} (always : ∀ polls, exec (p polls) b = some r) : Ends p b r :=
  ⟨0, fun polls _ => always polls⟩

theorem Ends.bind {x : Nat → Program α} {f : Nat → α → Program γ} {a : α} {r : Bus × γ} (first : Ends x b (b', a))
    (next : Ends (fun polls => f polls a) b' r) : Ends (fun polls => x polls >>= f polls) b r := by
  obtain ⟨least, early⟩ := first
  obtain ⟨least', late⟩ := next
  refine ⟨max least least', fun polls enough => ?_⟩
  rw [exec_bind, early polls (by omega), Option.bind_some]
  exact late polls (by omega)

theorem Ends.congr {p q : Nat → Program α} {r : Bus × α} (same : ∀ polls, p polls = q polls) (ends : Ends q b r) :
    Ends p b r :=
  (funext same : p = q) ▸ ends

/-- A loop of the driver and the loop of its program, pass by pass. -/
theorem Ends.loop {body : Nat → σ → Program (σ ⊕ α)} {pass : S → Option (S ⊕ R)} (bus : S → Bus) (vars : S → σ)
    (out : R → Bus × α)
    (each : ∀ s r, pass s = some r → Ends (fun polls => body polls (vars s)) (bus s)
      (r.elim (fun s' => (bus s', .inl (vars s'))) fun a => ((out a).1, .inr (out a).2))) :
    ∀ {fuel : Nat} {s : S} {a : R}, Loop.exec pass fuel s = some a →
      Ends (fun polls => Threads.Program.loop (body polls) fuel (vars s)) (bus s) (out a) := by
  intro fuel
  induction fuel with
  | zero => intro s a run; cases run
  | succ fuel ih =>
    intro s a run
    cases hb : pass s with
    | none => simp only [Loop.exec, hb] at run; cases run
    | some next =>
      cases next with
      | inl s' =>
        rw [Loop.exec_again hb] at run
        exact (each s _ hb).bind (f := fun polls r => match r with
          | .inl s' => Threads.Program.loop (body polls) fuel s'
          | .inr a => .ret a) (ih run)
      | inr a' =>
        rw [Loop.exec_leave hb] at run
        cases run
        exact (each s _ hb).bind (f := fun polls r => match r with
          | .inl s' => Threads.Program.loop (body polls) fuel s'
          | .inr a => .ret a) (Ends.of fun _ => rfl)

theorem exec_readData (addr : Nat) (data : List Byte) (b : Bus) :
    exec (flashReadData addr data) b = some (Storage.flashReadData addr data b) := rfl

/-- One evaluation of the loop condition. -/
theorem exec_waitSRPoll (b : Bus) : exec (flashWaitSRPoll ()) b = some ((Storage.flashReadStatusReg b).1,
    if (Storage.flashReadStatusReg b).2 &&& 0x01 = 0x01 then .inl () else .inr ()) := rfl

theorem exec_waitSR_succ (polls : Nat) (b : Bus) : exec (flashWaitSR (polls + 1)) b =
    if (Storage.flashReadStatusReg b).2 &&& 0x01 = 0x01 then exec (flashWaitSR polls) (Storage.flashReadStatusReg b).1
    else some ((Storage.flashReadStatusReg b).1, ()) := by
  rw [flashWaitSR, exec_loop, exec_waitSRPoll, Option.bind_some]
  by_cases busy : (Storage.flashReadStatusReg b).2 &&& 0x01 = 0x01
  · simp only [if_pos busy]
    rfl
  · simp only [if_neg busy]

theorem ends_waitSR (run : Storage.flashWaitSR b = some b') : Ends flashWaitSR b (b', ()) := by
  have loop : ∀ {fuel : Nat} {b b' : Bus}, Loop.exec Storage.flashWaitSRPoll fuel b = some b' →
      exec (flashWaitSR fuel) b = some (b', ()) := by
    intro fuel
    induction fuel with
    | zero => intro b b' run; cases run
    | succ fuel ih =>
      intro b b' run
      rw [exec_waitSR_succ]
      by_cases busy : (Storage.flashReadStatusReg b).2 &&& 0x01 = 0x01
      · have again : Storage.flashWaitSRPoll b = some (.inl (Storage.flashReadStatusReg b).1) := by
          simp only [Storage.flashWaitSRPoll, if_pos busy]
        rw [Loop.exec_again again] at run
        rw [if_pos busy]
        exact ih run
      · have leave : Storage.flashWaitSRPoll b = some (.inr (Storage.flashReadStatusReg b).1) := by
          simp only [Storage.flashWaitSRPoll, if_neg busy]
        rw [Loop.exec_leave leave] at run
        cases run
        rw [if_neg busy]
  exact ⟨b.chip.busy + 1, fun polls enough => loop (Loop.exec_mono run enough)⟩

theorem ends_eraseSector {address : Nat} (run : Storage.flashEraseSector address b = some b') :
    Ends (fun polls => flashEraseSector polls address) b (b', ()) := by
  obtain ⟨least, ends⟩ := ends_waitSR run
  exact ⟨least, fun polls enough => ends polls enough⟩

theorem ends_writePage {addr : Nat} {data sent : List Byte}
    (run : Storage.flashWritePage addr data b = some (b', sent)) :
    Ends (fun polls => flashWritePage polls addr data) b (b', sent) := by
  obtain ⟨bus, wait, rest⟩ := Option.bind_eq_some_iff.mp run
  cases rest
  obtain ⟨least, ends⟩ := ends_waitSR wait
  refine ⟨least, fun polls enough => ?_⟩
  have waited := ends polls enough
  exact (exec_bind (flashWaitSR polls) (fun _ => pure _) _).trans
    (Option.bind_eq_some_iff.mpr ⟨(b', ()), waited, rfl⟩)

/-- The variables of a pass besides the bus. -/
def noCheckVars (s : Storage.NoCheck) : NoCheck := ⟨s.addr, s.past, s.data, s.len, s.pageremain⟩

theorem ends_writeNoCheck {addr : Nat} {data sent : List Byte}
    (run : Storage.flashWriteNoCheck addr data b = some (b', sent)) :
    Ends (fun polls => flashWriteNoCheck polls addr data) b (b', sent) := by
  refine Ends.loop (fun s : Storage.NoCheck => s.bus) noCheckVars id ?_ run
  intro s r pass
  rw [noCheckPass_run] at pass
  obtain ⟨⟨bus, page⟩, wrote, rfl⟩ := Option.map_eq_some_iff.mp pass
  refine (ends_writePage wrote).bind (f := fun _ sent => _) (Ends.of fun _ => ?_)
  by_cases last : s.len = s.pageremain
  · rw [if_pos last]
    exact congrArg (exec · bus) (if_pos last)
  · rw [if_neg last]
    exact congrArg (exec · bus) (if_neg last)

/-- The sector of a pass: `dev.buff` and the caller's bytes. -/
def writeDataVars (s : Storage.WriteData) : WriteData :=
  ⟨s.dev.buff, s.secpos, s.secoff, s.secremain, s.addr, s.past, s.data, s.len⟩

/-- `dev` in place of its bus and its buffer. -/
def deviceResult (r : Device × List Byte) : Bus × (List Byte × List Byte) := (r.1.bus, r.1.buff, r.2)

theorem ends_writeSector {s : Storage.WriteData} {r : Device × List Byte} (run : Storage.writeSector s = some r) :
    Ends (fun polls => writeSector polls (writeDataVars s)) s.dev.bus (deviceResult r) := by
  have read : Ends (fun _ => flashReadData (u32 (s.secpos * spiFlashSectorSize)) s.dev.buff) s.dev.bus
      (Storage.flashReadData (u32 (s.secpos * spiFlashSectorSize)) s.dev.buff s.dev.bus) :=
    Ends.of fun _ => exec_readData _ _ _
  unfold Storage.writeSector at run
  obtain ⟨bus, got, did⟩ : ∃ bus got,
      Storage.flashReadData (u32 (s.secpos * spiFlashSectorSize)) s.dev.buff s.dev.bus = (bus, got) := ⟨_, _, rfl⟩
  rw [did] at read run
  refine read.bind (f := fun _ r => _) ?_
  dsimp only at run ⊢
  by_cases dirty : ((got.drop s.secoff).take s.secremain).findIdx (· != 0xFF#8) < s.secremain
  · rw [if_pos dirty] at run
    obtain ⟨erased, erase, run⟩ := Option.bind_eq_some_iff.mp run
    obtain ⟨⟨written, buff⟩, write, run⟩ := Option.bind_eq_some_iff.mp run
    cases run
    apply Ends.congr (fun polls => if_pos dirty)
    refine (ends_eraseSector erase).bind (f := fun _ _ => _) ?_
    exact (ends_writeNoCheck write).bind (f := fun _ _ => _) (Ends.of fun _ => rfl)
  · rw [if_neg dirty] at run
    obtain ⟨⟨written, sent⟩, write, run⟩ := Option.bind_eq_some_iff.mp run
    cases run
    apply Ends.congr (fun polls => if_neg dirty)
    exact (ends_writeNoCheck write).bind (f := fun _ _ => _) (Ends.of fun _ => rfl)

theorem ends_writeData {addr : Nat} {data : List Byte} {dev : Device} {r : Device × List Byte}
    (run : Storage.flashWriteData addr data dev = some r) :
    Ends (fun polls => flashWriteData polls addr data dev.buff) dev.bus (deviceResult r) := by
  refine Ends.loop (fun s : Storage.WriteData => s.dev.bus) writeDataVars deviceResult ?_ run
  intro s r pass
  rw [writeDataPass_run] at pass
  obtain ⟨⟨dev, sent⟩, wrote, rfl⟩ := Option.map_eq_some_iff.mp pass
  refine (ends_writeSector wrote).bind (f := fun _ _ => _) (Ends.of fun _ => ?_)
  by_cases last : s.len = s.secremain
  · rw [if_pos last]
    exact congrArg (exec · dev.bus) (if_pos last)
  · rw [if_neg last]
    exact congrArg (exec · dev.bus) (if_neg last)

/-- A loop over sectors, sector by sector. -/
theorem Ends.foldlM {f : S → Nat → Option S} {g : Nat → α → Nat → Program α} (bus : S → Bus) (vars : S → α)
    (pass : ∀ s i s', f s i = some s' → Ends (fun polls => g polls (vars s) i) (bus s) (bus s', vars s')) :
    ∀ {is : List Nat} {s s' : S}, is.foldlM f s = some s' →
      Ends (fun polls => is.foldlM (g polls) (vars s)) (bus s) (bus s', vars s') := by
  intro is
  induction is with
  | nil =>
    intro s s' run
    cases run
    exact Ends.of fun _ => rfl
  | cons i is ih =>
    intro s s' run
    rw [List.foldlM_cons] at run
    obtain ⟨t, first, rest⟩ := Option.bind_eq_some_iff.mp run
    apply Ends.congr (fun polls => List.foldlM_cons)
    exact (pass s i t first).bind (f := fun polls a => is.foldlM (g polls) a) (ih rest)

/-- **Alone on the bus** the program of `disk_write` does what `disk_write` does. -/
theorem ends_diskWrite {buff : List Byte} {sector count : Nat} {dev : Device} {r : Device × List Byte}
    (run : Storage.diskWrite buff sector count dev = some r) :
    Ends (fun polls => diskWrite polls buff sector count dev.buff) dev.bus (deviceResult r) := by
  refine Ends.foldlM (fun s : Device × List Byte => s.1.bus) (fun s => (s.1.buff, s.2)) ?_ run
  intro s i s' pass
  obtain ⟨⟨dev, sent⟩, wrote, rest⟩ := Option.bind_eq_some_iff.mp pass
  cases rest
  exact (ends_writeData wrote).bind (f := fun _ _ => _) (Ends.of fun _ => rfl)

end Exec

end OffLineProgrammer.Storage.Shared
