import OffLineProgrammer.Lib.Loop
import OffLineProgrammer.Storage.NorChip

/-!
# The 25qxx driver

`devices/storage/25qxx.c` over the bus of `NorChip`. A function that gets a
buffer returns what the buffer holds afterwards: the transfer installed by
`UdiskApp.c` is full duplex. Addresses are the values of the `uint32_t`
variables; a store to a `uint16_t` is written with `u16`.
-/

namespace OffLineProgrammer.Storage
set_option autoImplicit false
open OffLineProgrammer.Lib

/-- A store to a `uint16_t`. -/
def u16 (n : Nat) : Nat := n % 65536

/-- A store to a `uint32_t`. -/
def u32 (n : Nat) : Nat := n % 4294967296

theorem u16_of_lt {n : Nat} (h : n < 65536) : u16 n = n := Nat.mod_eq_of_lt h

theorem u32_of_lt {n : Nat} (h : n < 4294967296) : u32 n = n := Nat.mod_eq_of_lt h

/-- The command byte and the three address bytes. -/
def command (op : Byte) (addr : Nat) : List Byte :=
  [op, BitVec.ofNat 8 (addr >>> 16), BitVec.ofNat 8 (addr >>> 8), BitVec.ofNat 8 addr]

/-- `_25qxx_Write_Enable` -/
def writeEnable (b : Bus) : Bus :=
  let b := spiCs 0 b
  let b := (spiRw [CMD_FLASH_WREN] b).1
  spiCs 1 b

/-- `_25qxx_Flash_ReadStatusReg` -/
def flashReadStatusReg (b : Bus) : Bus × Byte :=
  let b := spiCs 0 b
  let r := spiRw [CMD_FLASH_RDSR, 0xFF] b
  (spiCs 1 r.1, r.2.getD 1 0)

/-- One evaluation of the loop condition of `_25qxx_Flash_Wait_SR`. -/
def flashWaitSRPoll (b : Bus) : Option (Bus ⊕ Bus) :=
  let r := flashReadStatusReg b
  some (if r.2 &&& 0x01 = 0x01 then .inl r.1 else .inr r.1)

/-- `_25qxx_Flash_Wait_SR`: the polls the chip still answers "busy", and one more. -/
def flashWaitSR (b : Bus) : Option Bus := Loop.exec flashWaitSRPoll (b.chip.busy + 1) b

/-- `_25qxx_Flash_Erase_Sector` -/
def flashEraseSector (address : Nat) (b : Bus) : Option Bus :=
  let b := writeEnable b
  let b := spiCs 0 b
  let b := (spiRw (command CMD_FLASH_SECTOR_ERASE address) b).1
  let b := spiCs 1 b
  flashWaitSR b

/-- `_25qxx_Flash_Read_Data`: `data` is the buffer, `len` its length. -/
def flashReadData (addr : Nat) (data : List Byte) (b : Bus) : Bus × List Byte :=
  let b := spiCs 0 b
  let b := (spiRw (command CMD_FLASH_READ addr) b).1
  let r := spiRw data b
  (spiCs 1 r.1, r.2)

/-- `_25xx_Flash_Write_Page`: `data` is the buffer, `len` its length. -/
def flashWritePage (addr : Nat) (data : List Byte) (b : Bus) : Option (Bus × List Byte) := do
  let b := writeEnable b
  let b := spiCs 0 b
  let b := (spiRw (command CMD_FLASH_BYTE_PROG addr) b).1
  let r := spiRw data b
  let b := spiCs 1 r.1
  let b ← flashWaitSR b
  some (b, r.2)

/-- The variables of `_25qxx_Flash_Write_NoCheck`; `past` is the part of the
caller's buffer that `data` has moved over. -/
structure NoCheck where
  bus : Bus
  addr : Nat
  past : List Byte
  data : List Byte
  len : Nat
  pageremain : Nat

/-- One pass of the `while(1)` of `_25qxx_Flash_Write_NoCheck`. -/
def noCheckPass (s : NoCheck) : Option (NoCheck ⊕ (Bus × List Byte)) := do
  let (bus, sent) ← flashWritePage s.addr (s.data.take s.pageremain) s.bus
  if s.len = s.pageremain then some (.inr (bus, s.past ++ sent ++ s.data.drop s.pageremain))
  else
    let len := s.len - s.pageremain
    some (.inl
      { bus := bus
        addr := u32 (s.addr + s.pageremain)
        past := s.past ++ sent
        data := s.data.drop s.pageremain
        len := len
        pageremain := if len > spiFlashPageSize then spiFlashPageSize else u16 len })

/-- `_25qxx_Flash_Write_NoCheck`: `data` is the buffer, `len` its length. -/
def flashWriteNoCheck (addr : Nat) (data : List Byte) (b : Bus) : Option (Bus × List Byte) :=
  let len := data.length
  let pageremain := u16 (spiFlashPageSize - addr % spiFlashPageSize)
  let pageremain := if len ≤ pageremain then u16 len else pageremain
  Loop.exec noCheckPass (len + 1) ⟨b, addr, [], data, len, pageremain⟩

/-- `struct _25qxx_device`: the bus behind `fun` and the sector buffer. -/
structure Device where
  bus : Bus
  buff : List Byte

/-- The variables of `_25qxx_Flash_Write_Data`. -/
structure WriteData where
  dev : Device
  secpos : Nat
  secoff : Nat
  secremain : Nat
  addr : Nat
  past : List Byte
  data : List Byte
  len : Nat

/-- The merge loop: `secremain` bytes of `data` over the buffer from `secoff`. -/
def mergeSector (buff : List Byte) (secoff : Nat) (data : List Byte) : List Byte :=
  buff.take secoff ++ data ++ buff.drop (secoff + data.length)

/-- The sector of one pass: read it, check it, then reprogram it from the
merged image or program the caller's bytes directly. -/
def writeSector (s : WriteData) : Option (Device × List Byte) :=
  let r := flashReadData (u32 (s.secpos * spiFlashSectorSize)) s.dev.buff s.dev.bus
  -- the check loop leaves `i` at the first byte that is not blank
  let i := ((r.2.drop s.secoff).take s.secremain).findIdx (· != 0xFF#8)
  if i < s.secremain then do
    -- the erase is given the sector number, not its address
    let bus ← flashEraseSector s.secpos r.1
    let buff := mergeSector r.2 s.secoff (s.data.take s.secremain)
    let (bus, buff) ← flashWriteNoCheck (u32 (s.secpos * spiFlashSectorSize)) buff bus
    some (⟨bus, buff⟩, s.data.take s.secremain)
  else do
    let (bus, sent) ← flashWriteNoCheck s.addr (s.data.take s.secremain) r.1
    some (⟨bus, r.2⟩, sent)

/-- One pass of the `while(1)` of `_25qxx_Flash_Write_Data`. -/
def writeDataPass (s : WriteData) : Option (WriteData ⊕ (Device × List Byte)) := do
  let (dev, sent) ← writeSector s
  if s.len = s.secremain then some (.inr (dev, s.past ++ sent ++ s.data.drop s.secremain))
  else
    let len := s.len - s.secremain
    some (.inl
      { dev := dev
        secpos := u32 (s.secpos + 1)
        secoff := 0
        addr := u32 (s.addr + s.secremain)
        past := s.past ++ sent
        data := s.data.drop s.secremain
        len := len
        secremain := if len > spiFlashSectorSize then spiFlashSectorSize else u16 len })

/-- `_25qxx_Flash_Write_Data`: `data` is the caller's buffer, `len` its length. -/
def flashWriteData (addr : Nat) (data : List Byte) (dev : Device) : Option (Device × List Byte) :=
  let len := data.length
  let secpos := addr / spiFlashSectorSize
  let secoff := u16 (addr % spiFlashSectorSize)
  let secremain := u16 (spiFlashSectorSize - secoff)
  let secremain := if len ≤ secremain then u16 len else secremain
  Loop.exec writeDataPass (len + 1) ⟨dev, secpos, secoff, secremain, addr, [], data, len⟩

end OffLineProgrammer.Storage
