import OffLineProgrammer.Lib.ByteMem

/-!
# The SPI NOR chip and its bus

The chip of the 25 series as the driver sees it: bytes are clocked in while the
chip select is low, and the command so collected is carried out when the select
rises. The bus is full duplex, so every byte clocked out of a buffer brings one
back; where the chip does not drive the line the byte read is `noise`.

A program or erase keeps the chip busy for a finite number of status reads
(`latency`, any function of the command); a busy chip answers only the status
register, as the data sheets of the series say.
-/

namespace OffLineProgrammer.Storage
set_option autoImplicit false
open OffLineProgrammer.Lib

/-! ## Command codes and geometry, from 25qxx.h -/

def CMD_FLASH_READ : Byte := 0x03
def CMD_FLASH_SECTOR_ERASE : Byte := 0x20
def CMD_FLASH_BYTE_PROG : Byte := 0x02
def CMD_FLASH_RDSR : Byte := 0x05
def CMD_FLASH_WREN : Byte := 0x06

abbrev spiFlashSectorSize : Nat := 4096
abbrev spiFlashPageSize : Nat := 256

/-- Bytes of a part with three address bytes. -/
abbrev chipSize : Nat := 16777216

structure Chip where
  mem : Mem
  /-- Write enable latch: set by WREN, cleared by every program and erase. -/
  wel : Bool
  /-- Status reads that still answer "write in progress". -/
  busy : Nat
  latency : List Byte → Nat

/-- The three address bytes of a command, most significant first. -/
def addr24 (hi mid lo : Byte) : Nat := hi.toNat * 65536 + mid.toNat * 256 + lo.toNat

/-- Page program: each byte clears bits of its cell, wrapping inside the page. -/
def programWrap (m : Mem) (page : Nat) : Nat → List Byte → Mem
  | _, [] => m
  | off, b :: bs => programWrap (m.program (page + off % spiFlashPageSize) [b]) page (off + 1) bs

namespace Chip

/-- Status register: bit 0 write in progress, bit 1 write enable latch. -/
def status (c : Chip) : Byte :=
  (if c.busy = 0 then 0#8 else 1#8) ||| (if c.wel then 2#8 else 0#8)

/-- The byte the chip drives while the byte after `shifted` is clocked. -/
def drive (c : Chip) (shifted : List Byte) : Option Byte :=
  match shifted with
  | [] => none
  | op :: args =>
    if op = CMD_FLASH_RDSR then some c.status
    else if c.busy ≠ 0 then none
    else if op = CMD_FLASH_READ then
      match args with
      | hi :: mid :: lo :: sent => some (c.mem ((addr24 hi mid lo + sent.length) % chipSize))
      | _ => none
    else none

/-- A program or erase has started: the latch falls and the chip is busy. -/
def start (c : Chip) (cmd : List Byte) (m : Mem) : Chip :=
  { c with mem := m, wel := false, busy := c.latency cmd }

/-- The chip select rises after `shifted`: the command takes effect. -/
def commit (c : Chip) (shifted : List Byte) : Chip :=
  match shifted with
  | [] => c
  | op :: args =>
    if op = CMD_FLASH_RDSR then { c with busy := c.busy - 1 }
    else if c.busy ≠ 0 then c
    else if op = CMD_FLASH_WREN then { c with wel := true }
    else if c.wel = false then c
    else match args with
      | [hi, mid, lo] =>
        if op = CMD_FLASH_SECTOR_ERASE then
          c.start shifted (c.mem.erase (addr24 hi mid lo / spiFlashSectorSize * spiFlashSectorSize) spiFlashSectorSize)
        else c
      | hi :: mid :: lo :: data =>
        if op = CMD_FLASH_BYTE_PROG then
          c.start shifted (programWrap c.mem (addr24 hi mid lo / spiFlashPageSize * spiFlashPageSize)
            (addr24 hi mid lo % spiFlashPageSize) data)
        else c
      | _ => c

end Chip

/-- The bus with the one chip on it. -/
structure Bus where
  chip : Chip
  selected : Bool
  /-- Bytes clocked in since the chip select fell. -/
  shifted : List Byte
  noise : Nat → Byte
  clocks : Nat

/-- `_25qxx_spi_cs`: drive the chip select pin. -/
def spiCs (value : Nat) (b : Bus) : Bus :=
  if value = 0 then
    if b.selected then b else { b with selected := true, shifted := [] }
  else
    if b.selected then { b with selected := false, shifted := [], chip := b.chip.commit b.shifted } else b

/-- One byte out and one byte back. -/
def clockByte (d : Byte) (b : Bus) : Bus × Byte :=
  if b.selected then
    ({ b with shifted := b.shifted ++ [d], clocks := b.clocks + 1 },
      (b.chip.drive b.shifted).getD (b.noise b.clocks))
  else ({ b with clocks := b.clocks + 1 }, b.noise b.clocks)

/-- `_25qxx_spi_rw`: clock the buffer out; the second component is what the
buffer holds afterwards, since the transfer stores the bytes received in it. -/
def spiRw : List Byte → Bus → Bus × List Byte
  | [], b => (b, [])
  | d :: ds, b =>
    let (b, r) := clockByte d b
    let (b, rs) := spiRw ds b
    (b, r :: rs)

/-- The select is up, nothing is in progress and the cells hold `m`. -/
structure Bus.Ready (b : Bus) (m : Mem) : Prop where
  released : b.selected = false
  idle : b.chip.busy = 0
  stored : b.chip.mem = m

/-! ## Transfers -/

theorem clockByte_selected {b : Bus} (h : b.selected = true) (d : Byte) :
    clockByte d b = ({ b with shifted := b.shifted ++ [d], clocks := b.clocks + 1 },
      (b.chip.drive b.shifted).getD (b.noise b.clocks)) := by
  simp [clockByte, h]

/-- A transfer only moves the shift register and the clock. -/
theorem spiRw_bus : ∀ (ds : List Byte) {b : Bus}, b.selected = true →
    (spiRw ds b).1 = { b with shifted := b.shifted ++ ds, clocks := b.clocks + ds.length }
  | [], b, _ => by simp [spiRw]
  | d :: ds, b, h => by
    simp only [spiRw, clockByte_selected h]
    rw [spiRw_bus ds (by exact h)]
    simp [Nat.add_assoc, Nat.add_comm]

@[simp] theorem spiRw_length : ∀ (ds : List Byte) (b : Bus), (spiRw ds b).2.length = ds.length
  | [], _ => rfl
  | _ :: ds, _ => by simp [spiRw, spiRw_length ds]

/-- The bus after a whole transaction that clocked `cmd`. -/
def Bus.after (b : Bus) (cmd : List Byte) : Bus :=
  { b with chip := b.chip.commit cmd, shifted := [], clocks := b.clocks + cmd.length }

/-- Select, one transfer, deselect. -/
theorem transaction {b : Bus} (released : b.selected = false) (cmd : List Byte) :
    spiCs 1 (spiRw cmd (spiCs 0 b)).1 = b.after cmd := by
  have sel : (spiCs 0 b).selected = true := by simp [spiCs, released]
  rw [spiRw_bus cmd sel]
  simp [spiCs, released, Bus.after]

/-- Select, a command, its data, deselect. -/
theorem transaction_data {b : Bus} (released : b.selected = false) (cmd data : List Byte) :
    spiCs 1 (spiRw data (spiRw cmd (spiCs 0 b)).1).1 = b.after (cmd ++ data) := by
  have sel : (spiCs 0 b).selected = true := by simp [spiCs, released]
  rw [spiRw_bus cmd sel, spiRw_bus data (by exact sel)]
  simp [spiCs, released, Bus.after, Nat.add_assoc]

/-- While a read command is shifted, each byte back is the next cell. -/
theorem spiRw_read : ∀ (ds : List Byte) {b : Bus} {hi mid lo : Byte} {sent : List Byte},
    b.selected = true → b.chip.busy = 0 → b.shifted = CMD_FLASH_READ :: hi :: mid :: lo :: sent →
    (spiRw ds b).2 = (List.range ds.length).map fun i =>
      b.chip.mem ((addr24 hi mid lo + sent.length + i) % chipSize)
  | [], _, _, _, _, _, _, _, _ => rfl
  | d :: ds, b, hi, mid, lo, sent, sel, idle, sh => by
    have driven : b.chip.drive b.shifted = some (b.chip.mem ((addr24 hi mid lo + sent.length) % chipSize)) := by
      rw [sh]
      simp [Chip.drive, idle, CMD_FLASH_READ, CMD_FLASH_RDSR]
    have rest := @spiRw_read ds { b with shifted := b.shifted ++ [d], clocks := b.clocks + 1 }
      hi mid lo (sent ++ [d]) sel idle (by simp [sh])
    simp only [spiRw, clockByte_selected sel, driven, rest, Option.getD_some, List.length_cons,
      List.range_succ_eq_map, List.map_cons, List.map_map, Nat.add_zero, List.cons.injEq, true_and]
    apply List.map_congr_left
    intro i _
    simp only [List.length_append, List.length_singleton, Function.comp_apply]
    congr 2; omega

theorem addr24_bytes (a : Nat) :
    addr24 (BitVec.ofNat 8 (a >>> 16)) (BitVec.ofNat 8 (a >>> 8)) (BitVec.ofNat 8 a) = a % chipSize := by
  simp only [addr24, chipSize, BitVec.toNat_ofNat, Nat.shiftRight_eq_div_pow]
  omega

/-- Inside one page the program does not wrap. -/
theorem programWrap_fits : ∀ (bs : List Byte) {m : Mem} {page off : Nat}, off + bs.length ≤ spiFlashPageSize →
    programWrap m page off bs = m.program (page + off) bs
  | [], _, _, _, _ => (Mem.program_nil _ _).symm
  | b :: bs, m, page, off, h => by
    simp only [List.length_cons] at h
    have split := Mem.program_append m (page + off) [b] bs
    rw [programWrap, programWrap_fits bs (by omega), Nat.mod_eq_of_lt (by omega)]
    rw [List.singleton_append, List.length_singleton, Nat.add_assoc] at split
    exact split.symm

end OffLineProgrammer.Storage
