import OffLineProgrammer.UsbDisk.Host

/-!
# Packets and command blocks

What the callbacks of a transfer do to the world (`sendSector_packet`,
`upCsw_packet`), the state between two commands, and the cursors a read or write
block sets.
-/

namespace OffLineProgrammer.UsbDisk
set_option autoImplicit false
open OffLineProgrammer.Lib OffLineProgrammer.Storage Udisk Host

/-! ## Packets to the host -/

section Send

variable {w : Env} {m : Mem}

/-- The world holds `m` and its buffers have their sizes. -/
structure Env.Holds (w : Env) (m : Mem) : Prop where
  bus : w.bus.Ready m
  downBuffer : w.downBuffer.length = 4096
  packBuffer : w.packBuffer.length = 64

/-- EP4 has the packet `p` to send. -/
def Sending (w : Env) (p : List Byte) : Prop := Armed w ∧ packet4 w = p

theorem Env.Holds.sent (holds : w.Holds m) : (sent w).Holds m := ⟨holds.bus, holds.downBuffer, holds.packBuffer⟩

/-- The packet memory holds the bytes sent. -/
theorem usbSilWrite_packet (holds : w.Holds m) (data : List Byte) (len : BitVec 32) (small : len.toNat < 65536)
    (fits : len.toNat ≤ data.length) :
    ∃ w', w.usbSilWrite 1 data len = some w' ∧ w'.Holds m ∧ Sending w' (data.take len.toNat) := by
  have count : (len.setWidth 16).toNat = len.toNat := by
    rw [BitVec.toNat_setWidth]
    exact Nat.mod_eq_of_lt small
  unfold Env.usbSilWrite
  simp only
  rw [setTxStatus_returns 0 _ EP_TX_VALID (Or.inr rfl)]
  refine ⟨_, rfl, ⟨holds.bus, holds.downBuffer, holds.packBuffer⟩, ?_, ?_⟩
  · simp only [Armed, if_true]
    exact withTx_stat _ _ (Or.inr rfl)
  · simp only [packet4, count]
    apply List.ext_getElem
    · simp only [Mem.length_read, List.length_take]
      omega
    · intro i hi hj
      rw [Mem.length_read] at hi
      have inside : i < data.length := by omega
      rw [Mem.getElem_read, List.getElem_take, Mem.write_in i (by simp; omega)]
      simp [List.getD_eq_getElem?_getD, inside]

/-- Sector data goes from the cells to EP4. -/
theorem sendSector_packet (holds : w.Holds m) {a : BitVec 32} (fits : a.toNat + 64 ≤ chipSize) :
    ∃ w', w.calls 1 [.readData a 64, .usbSendPack 64] = some w' ∧ w'.Holds m ∧ Sending w' (m.read a.toNat 64) := by
  have whole : w.packBuffer.take 64 = w.packBuffer := List.take_of_length_le (Nat.le_of_eq holds.packBuffer)
  obtain ⟨ready, cells⟩ := flashReadData_ready holds.bus a.toNat w.packBuffer
    (by rw [holds.packBuffer]; exact fits) (by rw [holds.packBuffer]; decide)
  rw [holds.packBuffer] at cells
  have size : (m.read a.toNat 64).length = 64 := Mem.length_read ..
  let w₁ : Env := { w with bus := (flashReadData a.toNat w.packBuffer w.bus).1, packBuffer := m.read a.toNat 64 }
  have read : w.call 1 (.readData a 64) = some w₁ := by
    have rest : w.packBuffer.drop 64 = [] := List.drop_eq_nil_of_le (Nat.le_of_eq holds.packBuffer)
    simp only [Env.call, show (64 : BitVec 32).toNat = 64 from rfl, whole, cells, rest, List.append_nil, w₁]
  obtain ⟨w₂, send, holds₂, sending⟩ := usbSilWrite_packet (w := w₁) (m := m)
    ⟨ready, holds.downBuffer, size⟩ (m.read a.toNat 64) 64 (by decide) (Nat.le_of_eq size.symm)
  refine ⟨w₂, ?_, holds₂, ?_⟩
  · simp only [Env.calls, read, Option.bind_eq_bind, Option.bind_some]
    simp only [Env.call]
    rw [show w₁.packBuffer = m.read a.toNat 64 from rfl, send]
    rfl
  · rw [show (64 : BitVec 32).toNat = 64 from rfl, List.take_of_length_le (Nat.le_of_eq size)] at sending
    exact sending

/-- The CSW goes to EP4. -/
theorem upCsw_packet (holds : w.Holds m) (d : Udisk) :
    ∃ w', w.calls 1 (upCsw d).2 = some w' ∧ w'.Holds m ∧ Sending w' d.cswBytes := by
  obtain ⟨w', send, holds', sending⟩ := usbSilWrite_packet holds (d.mBOC.overlay d.cswBytes).toList
    0x0D (by decide) (by rw [Vector.length_toList]; decide)
  rw [show (0x0D : BitVec 32).toNat = 13 from rfl, cswBytes_front d] at sending
  refine ⟨w', ?_, holds', sending⟩
  simp only [upCsw, Env.calls, Env.call, send, Option.bind_eq_bind, Option.bind_some]

end Send

/-! ## The command state -/

/-- Between two commands. -/
structure Idle (m : Mem) (wire : List (List Byte)) (h : Host) : Prop where
  holds : h.env.Holds m
  en : h.disk.en = true
  up : h.disk.up = false
  down : h.disk.down = false
  csw : h.disk.csw = false
  wire : h.wire = wire

/-- The CSW of `c` waits in EP4. -/
structure CswDue (m : Mem) (c : Io) (wire : List (List Byte)) (h : Host) : Prop where
  idle : Idle m wire h
  sending : Sending h.env (goodCsw c)

section Commands

variable (flashId : Byte) {m : Mem} {c : Io} {wire : List (List Byte)} {h : Host}

/-- A handler that makes no call. -/
theorem deal_silent (d : Udisk) (env : Env) (wire : List (List Byte)) :
    Host.deal (d, []) env wire = some ⟨d, env, wire⟩ := rfl

/-- The host reads the CSW. -/
theorem CswDue.readIn (due : CswDue m c wire h) :
    ∃ h', step (udiskFun flashId) .readIn h = some h' ∧ Idle m (wire ++ [goodCsw c]) h' := by
  obtain ⟨idle, armed, packet⟩ := due
  have quiet : inEpDeal (udiskFun flashId) h.disk = (h.disk, []) := by
    simp only [inEpDeal, idle.up, idle.csw, Bool.false_eq_true, if_false]
  refine ⟨⟨h.disk, sent h.env, h.wire ++ [packet4 h.env]⟩, ?_, idle.holds.sent, idle.en, idle.up, idle.down,
    idle.csw, ?_⟩
  · rw [step, if_pos armed, quiet, deal_silent]
  · simp only [packet, idle.wire]

/-- `UDISK_Up_CSW` of a command that succeeded. -/
theorem upCsw_due {d : Udisk} (en : d.en = true) (csw : d.cswBytes = goodCsw c) {env : Env} (holds : env.Holds m) :
    ∃ h', deal (upCsw d) env wire = some h' ∧ CswDue m c wire h' := by
  obtain ⟨w', run, holds', sending⟩ := upCsw_packet holds d
  rw [csw] at sending
  refine ⟨⟨(upCsw d).1, w', wire⟩, ?_, ⟨holds', en, rfl, rfl, rfl, rfl⟩, sending⟩
  simp only [deal, run, Option.bind_eq_bind, Option.bind_some]

/-- The cursors and the reply of a read or write block. -/
theorem rdWrPre (c : Io) (d : Udisk) :
    (cmdRdWrDealPre (udiskFun flashId) (takeCbw (receive c.cbw d))).curSecLba.toNat = c.first ∧
    (cmdRdWrDealPre (udiskFun flashId) (takeCbw (receive c.cbw d))).secPackCount.toNat = 0 ∧
    (cmdRdWrDealPre (udiskFun flashId) (takeCbw (receive c.cbw d))).transferDataLen.toNat = 4096 * c.sectors ∧
    (cmdRdWrDealPre (udiskFun flashId) (takeCbw (receive c.cbw d))).cswBytes = goodCsw c := by
  have small := (blockOf c.cbw).sectors_lt
  have len : (cmdRdWrDealPre (udiskFun flashId) (takeCbw (receive c.cbw d))).transferDataLen.toNat =
      (blockOf c.cbw).sectors * 4096 % 4294967296 := rfl
  refine ⟨rfl, rfl, ?_, ?_⟩
  · rw [len]
    unfold Io.sectors
    omega
  · simp only [cswBytes, goodCsw, cmdRdWrDealPre, cmdDealStatus, takeCbw, receive]

/-- A transfer has a data stage. -/
theorem Io.dataLen_ne (c : Io) : (blockOf c.cbw).dataLen ≠ 0 := by
  intro zero
  have length := c.length
  have some_ := c.nonempty
  rw [zero] at length
  simp only [BitVec.ofNat_eq_ofNat, BitVec.toNat_ofNat, Nat.zero_mod] at length
  omega

/-- A block is not both a read and a write. -/
theorem Io.isWrite_iff (c : Io) : (blockOf c.cbw).IsWrite ↔ ¬ c.IsRead := by
  unfold Io.IsRead BulkOnlyCmd.IsRead BulkOnlyCmd.IsWrite
  constructor
  · rintro (write | write) read <;> rw [write] at read <;> cases read
  · intro other
    rcases c.direction with ⟨read, -⟩ | ⟨write, -⟩
    · exact absurd read other
    · exact write

end Commands

end OffLineProgrammer.UsbDisk
