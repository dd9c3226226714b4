import OffLineProgrammer.Lib.Run
import OffLineProgrammer.UsbDisk.Commands

/-!
# On whose behalf the flash is modified

The disk under any sequence of OUT packets and IN completions. A run is watched
with the last command block received and the calls of the last step, and each
erase or program call has to address a sector of a write command's extent.

Whether a packet is sector data is decided by the DOWN flag alone, which any
command block with the OUT direction and a length sets. So the property holds
in the runs where only a write command with a proper extent does so, and where
no IN completion arrives between a stale UP flag and the data of a write.
-/

namespace OffLineProgrammer.UsbDisk
set_option autoImplicit false
open OffLineProgrammer.Lib Udisk

/-- The packet is taken as a command block with its signature. -/
def TakenAsBlock (d : Udisk) (pbuf : Vector Byte packSize) (packlen : BitVec 16) : Prop :=
  d.down = false ∧ packlen = 0x1F ∧ (blockOf pbuf).HasSignature

instance (d : Udisk) (pbuf : Vector Byte packSize) (packlen : BitVec 16) : Decidable (TakenAsBlock d pbuf packlen) := by
  unfold TakenAsBlock; infer_instance

/-- The disk with what the property speaks about. -/
structure Watched where
  disk : Udisk
  /-- The most recently received command block. -/
  cbw : Option BulkOnlyCmd
  /-- The calls of the last step. -/
  calls : List Action

def Watched.start : Watched := ⟨udiskInit, none, []⟩

/-- The block a step receives. -/
def received (d : Udisk) (cbw : Option BulkOnlyCmd) : Event → Option BulkOnlyCmd
  | .out pbuf packlen => if TakenAsBlock d pbuf packlen then some (blockOf pbuf) else cbw
  | .inDone => cbw

def Watched.step (f : UdiskFunction) (e : Event) (w : Watched) : Option Watched :=
  let r := e.deal f w.disk
  some ⟨r.1, received w.disk w.cbw e, r.2⟩

/-! ## The property and the condition -/

/-- Every erase and program of the last step is in the extent of the last block,
a write. -/
def Watched.Guarded (w : Watched) : Prop :=
  ∀ a ∈ w.calls, ∀ addr, a.flashAddr = some addr →
    ∃ m s, w.cbw = some m ∧ m.IsWrite ∧ m.first ≤ s ∧ s < m.first + m.sectors ∧ addr.toNat = s * 4096

/-- A write whose extent is not empty and whose byte addresses fit a word. -/
def BulkOnlyCmd.ProperWrite (m : BulkOnlyCmd) : Prop :=
  m.IsWrite ∧ 0 < m.sectors ∧ m.first + m.sectors ≤ 2 ^ 20

/-- The steps that keep the property: a block with a data stage from the host is
rejected or a proper write, and no IN completion meets both flags. -/
def Orderly (w : Watched) : Event → Prop
  | .out pbuf packlen =>
    TakenAsBlock w.disk pbuf packlen → (blockOf pbuf).dataLen ≠ 0 → (blockOf pbuf).flag &&& 0x80 = 0 →
      (receive pbuf w.disk).rejected = true ∨ (blockOf pbuf).ProperWrite
  | .inDone => ¬ (w.disk.up = true ∧ w.disk.down = true)

/-! ## The invariant -/

/-- The data stage of the write `m` is under way: the cursor is in the extent and
the length is what is left of it. -/
structure Ongoing (m : BulkOnlyCmd) (d : Udisk) : Prop where
  write : m.ProperWrite
  above : m.first ≤ d.curSecLba.toNat
  below : d.curSecLba.toNat < m.first + m.sectors
  count : d.secPackCount.toNat < 64
  left : d.transferDataLen.toNat + 64 * d.secPackCount.toNat =
    4096 * (m.first + m.sectors - d.curSecLba.toNat)

structure Watched.Inv (w : Watched) : Prop where
  guarded : w.Guarded
  en : w.disk.en = true
  ongoing : w.disk.down = true → ∃ m, w.cbw = some m ∧ Ongoing m w.disk

section Step

variable {flashId : Byte} {m : BulkOnlyCmd} {d : Udisk} {w w' : Watched}

/-- The sector of the cursor is in the extent. -/
theorem Ongoing.sector (o : Ongoing m d) {addr : BitVec 32} (at_ : addr = d.secStartAddr) :
    ∃ s, m.IsWrite ∧ m.first ≤ s ∧ s < m.first + m.sectors ∧ addr.toNat = s * 4096 := by
  obtain ⟨isWrite, -, fits⟩ := o.write
  have below := o.below
  exact ⟨d.curSecLba.toNat, isWrite, o.above, below, at_ ▸ secStartAddr_toNat (by omega)⟩

theorem eraseFirst_addr {a : Action} {addr : BitVec 32} (mem : a ∈ eraseFirst d) (h : a.flashAddr = some addr) :
    addr = d.secStartAddr := by
  unfold eraseFirst at mem
  split at mem
  · rw [List.mem_singleton.mp mem] at h
    exact (Option.some.inj h).symm
  · cases mem

/-- A packet of the data stage: its calls address the sector of the cursor. -/
theorem Ongoing.calls (o : Ongoing m d) (pbuf : Vector Byte packSize) :
    ∀ a ∈ (downOnePack (udiskFun flashId) pbuf d).2, ∀ addr, a.flashAddr = some addr → addr = d.secStartAddr := by
  intro a mem addr h
  have count := o.count
  by_cases inside : d.secPackCount.toNat + 1 < 64
  · rw [downOnePack_inside flashId pbuf inside] at mem
    rcases List.mem_append.mp mem with erase | stage
    · exact eraseFirst_addr erase h
    · rw [List.mem_singleton.mp stage] at h
      cases h
  · rw [downOnePack_last flashId pbuf (by omega)] at mem
    rcases List.mem_append.mp mem with write | csw
    · rcases List.mem_cons.mp write with stage | write
      · rw [stage] at h
        cases h
      · rw [List.mem_singleton.mp write] at h
        exact (Option.some.inj h).symm
    · have upload : a.isUpload = true := by
        split at csw
        · exact upCsw_upload _ a csw
        · cases csw
      rw [Action.flashAddr_upload upload] at h
      cases h

/-- A packet of the data stage moves the cursors, or ends the stage. -/
theorem Ongoing.next (o : Ongoing m d) (pbuf : Vector Byte packSize) :
    (downOnePack (udiskFun flashId) pbuf d).1.down = true → Ongoing m (downOnePack (udiskFun flashId) pbuf d).1 := by
  obtain ⟨write, above, below, count, left⟩ := o
  obtain ⟨isWrite, positive, fits⟩ := write
  have room : m.first + m.sectors - d.curSecLba.toNat < 65536 := by
    have := m.sectors_lt
    omega
  by_cases inside : d.secPackCount.toNat + 1 < 64
  · rw [downOnePack_inside flashId pbuf inside]
    intro _
    refine ⟨⟨isWrite, positive, fits⟩, above, below, ?_, ?_⟩
    · bv_omega
    · have more : 4096 ≤ 4096 * (m.first + m.sectors - d.curSecLba.toNat) := by omega
      simp only
      bv_omega
  · rw [downOnePack_last flashId pbuf (by omega)]
    intro down
    by_cases done : d.transferDataLen - 64 = 0
    · simp only [done, if_true, upCsw] at down
      cases down
    · simp only [if_neg done] at down ⊢
      have rest : 0 < (d.transferDataLen - 64).toNat := by bv_omega
      refine ⟨⟨isWrite, positive, fits⟩, ?_, ?_, by simp, ?_⟩
      all_goals simp only
      all_goals bv_omega

/-- A command block that opens a data stage from the host is taken and accepted. -/
theorem command_down (pbuf : Vector Byte packSize) (f : UdiskFunction) (idle : d.down = false)
    (down : (scsiCmdDeal f (receive pbuf d)).1.down = true) :
    (blockOf pbuf).HasSignature ∧ (receive pbuf d).rejected = false ∧ (blockOf pbuf).dataLen ≠ 0 ∧
      (blockOf pbuf).flag &&& 0x80 = 0 := by
  by_cases sig : (receive pbuf d).mBOC.HasSignature
  · rcases scsiCmdDeal_signed f _ sig with ⟨accepted, -, same⟩ | ⟨-, failed, -⟩
    · rw [same.down] at down
      simp [takeCbw, receive, idle] at down
      exact ⟨sig, accepted, by simpa using down⟩
    · rw [failed.down] at down
      cases down
  · rw [(scsiCmdDeal_unsigned f _ sig).1.down] at down
    cases down

/-- A proper write opens its data stage at the first sector. -/
theorem command_ongoing (pbuf : Vector Byte packSize) (en : d.en = true) (sig : (blockOf pbuf).HasSignature)
    (proper : (blockOf pbuf).ProperWrite) :
    Ongoing (blockOf pbuf) (scsiCmdDeal (udiskFun flashId) (receive pbuf d)).1 := by
  have here := congrArg Prod.fst (scsiCmdDeal_rdWr (udiskFun flashId) d en pbuf sig (Or.inr proper.1))
  have small := (blockOf pbuf).sectors_lt
  obtain ⟨isWrite, positive, fits⟩ := proper
  rw [here]
  refine ⟨⟨isWrite, positive, fits⟩, Nat.le_refl _, ?_, Nat.zero_lt_succ _, ?_⟩
  · exact Nat.lt_add_of_pos_right positive
  · have bytes : (cmdRdWrDealPre (udiskFun flashId) (takeCbw (receive pbuf d))).transferDataLen.toNat =
        (blockOf pbuf).sectors * 4096 % 4294967296 := rfl
    have cursor : (cmdRdWrDealPre (udiskFun flashId) (takeCbw (receive pbuf d))).curSecLba.toNat =
        (blockOf pbuf).first := rfl
    have count : (cmdRdWrDealPre (udiskFun flashId) (takeCbw (receive pbuf d))).secPackCount.toNat = 0 := rfl
    rw [bytes, cursor, count]
    omega

/-- The data stage keeps the disk enabled. -/
theorem downOnePack_en (f : UdiskFunction) (pbuf : Vector Byte packSize) : (downOnePack f pbuf d).1.en = d.en := by
  unfold downOnePack
  simp only
  split
  · split <;> rfl
  · rfl

/-- A data packet of the data stage keeps the invariant. -/
theorem Watched.Inv.data (inv : w.Inv) (down : w.disk.down = true) {pbuf : Vector Byte packSize} {packlen : BitVec 16}
    (go : w.step (udiskFun flashId) (.out pbuf packlen) = some w') : w'.Inv := by
  cases go
  obtain ⟨m, cbw, ongoing⟩ := inv.ongoing down
  have data : Event.deal (udiskFun flashId) (.out pbuf packlen) w.disk = downOnePack (udiskFun flashId) pbuf w.disk :=
    outEpDeal_data (udiskFun flashId) down pbuf packlen
  have same : received w.disk w.cbw (.out pbuf packlen) = some m := by
    simp only [received, TakenAsBlock, down, Bool.true_eq_false, false_and, if_false, cbw]
  refine ⟨?_, ?_, ?_⟩
  · intro a mem addr h
    simp only [data] at mem
    obtain ⟨s, range⟩ := ongoing.sector (ongoing.calls pbuf a mem addr h)
    exact ⟨m, s, same, range⟩
  · simp only [data, downOnePack_en, inv.en]
  · intro still
    simp only [data] at still ⊢
    exact ⟨m, same, ongoing.next pbuf still⟩

/-- The disk stays enabled through a command block. -/
theorem command_en (f : UdiskFunction) (e : Udisk) : (scsiCmdDeal f e).1.en = e.en := by
  by_cases sig : e.mBOC.HasSignature
  · rcases scsiCmdDeal_signed f e sig with ⟨-, -, same⟩ | ⟨-, failed, -⟩
    · rw [same.en]; simp only [takeCbw]
    · rw [failed.en]; simp only [takeCbw]
  · exact (scsiCmdDeal_unsigned f e sig).1.en

/-- A command block keeps the invariant. -/
theorem Watched.Inv.command (inv : w.Inv) (idle : w.disk.down = false) {pbuf : Vector Byte packSize}
    (ok : Orderly w (.out pbuf 0x1F)) (go : w.step (udiskFun flashId) (.out pbuf 0x1F) = some w') : w'.Inv := by
  cases go
  have block : Event.deal (udiskFun flashId) (.out pbuf 0x1F) w.disk = outEpDeal (udiskFun flashId) pbuf 0x1F w.disk := rfl
  have deal := outEpDeal_command (udiskFun flashId) idle pbuf
  have flags := afterCmd_flags (udiskFun flashId) (scsiCmdDeal (udiskFun flashId) (receive pbuf w.disk)).1
  refine ⟨?_, ?_, ?_⟩
  · intro a mem addr h
    rw [outEpDeal_calls (udiskFun flashId) idle pbuf a mem] at h
    cases h
  · simp only [block, deal, flags.1, command_en]
    simp only [receive, inv.en]
  · intro down
    simp only [block, deal] at down ⊢
    rw [flags.2] at down
    obtain ⟨sig, accepted, len, direction⟩ := command_down pbuf _ idle down
    have taken : TakenAsBlock w.disk pbuf 0x1F := ⟨idle, rfl, sig⟩
    rcases ok taken len direction with reject | proper
    · rw [accepted] at reject
      cases reject
    · refine ⟨blockOf pbuf, by simp only [received, taken, if_true], ?_⟩
      simp only [afterCmd, down, if_true]
      exact command_ongoing pbuf inv.en sig proper

/-- A packet that is neither data nor a block changes nothing. -/
theorem Watched.Inv.ignored (inv : w.Inv) (idle : w.disk.down = false) {pbuf : Vector Byte packSize}
    {packlen : BitVec 16} (other : packlen ≠ 0x1F) (go : w.step (udiskFun flashId) (.out pbuf packlen) = some w') :
    w'.Inv := by
  cases go
  have nothing : Event.deal (udiskFun flashId) (.out pbuf packlen) w.disk = (w.disk, []) :=
    outEpDeal_other (udiskFun flashId) idle pbuf other
  rw [nothing]
  exact ⟨by rintro a ⟨⟩, inv.en, fun down => absurd (idle.symm.trans down) Bool.false_ne_true⟩

/-- An IN completion that does not meet both flags keeps the invariant. -/
theorem Watched.Inv.inDone (inv : w.Inv) (ok : Orderly w .inDone)
    (go : w.step (udiskFun flashId) .inDone = some w') : w'.Inv := by
  cases go
  have guarded : ∀ a ∈ (inEpDeal (udiskFun flashId) w.disk).2, a.flashAddr = none :=
    fun a mem => Action.flashAddr_upload (inEpDeal_upload _ _ a mem)
  refine ⟨fun a mem addr h => ?_, ?_, ?_⟩
  · rw [guarded a mem] at h
    cases h
  · have flags := upPack_flags (udiskFun flashId) w.disk
    simp only [Event.deal, inEpDeal]
    split
    · exact flags.1.trans inv.en
    · split <;> exact inv.en
  · intro down
    simp only [Event.deal] at down ⊢
    unfold inEpDeal at down ⊢
    cases up : w.disk.up with
    | true =>
      simp only [up, if_true] at down
      rw [(upPack_flags (udiskFun flashId) w.disk).2.1] at down
      exact absurd ⟨up, down⟩ ok
    | false =>
      simp only [up, Bool.false_eq_true, if_false] at down ⊢
      cases csw : w.disk.csw with
      | true =>
        simp only [csw, if_true, upCsw] at down
        cases down
      | false =>
        simp only [csw, Bool.false_eq_true, if_false] at down ⊢
        exact inv.ongoing down

/-- **One step** that meets the condition keeps the invariant. -/
theorem Watched.Inv.step (inv : w.Inv) {e : Event} (ok : Orderly w e)
    (go : w.step (udiskFun flashId) e = some w') : w'.Inv := by
  cases e with
  | inDone => exact inv.inDone ok go
  | out pbuf packlen =>
    cases down : w.disk.down with
    | true => exact inv.data down go
    | false =>
      by_cases block : packlen = 0x1F
      · subst block
        exact inv.command down ok go
      · exact inv.ignored down block go

end Step

/-! ## Runs -/

theorem Watched.start_inv : Watched.start.Inv :=
  ⟨by rintro a ⟨⟩, rfl, fun down => absurd down (by decide)⟩

/-- **The flash is modified on behalf of a write command** in every state that a
run of orderly steps reaches. -/
theorem run_guarded (flashId : Byte) (es : List Event) (w : Watched)
    (orderly : Run.Meets (Watched.step (udiskFun flashId)) Orderly es Watched.start)
    (reached : Run.run (Watched.step (udiskFun flashId)) es Watched.start = some w) : w.Guarded :=
  (Run.run_inv Watched.Inv Orderly (fun _ _ _ inv ok go => inv.step ok go) Watched.start_inv orderly reached).guarded

instance (m : BulkOnlyCmd) : Decidable m.ProperWrite := by unfold BulkOnlyCmd.ProperWrite; infer_instance

/-- INQUIRY with the direction bit clear and a length of 36. -/
def inquiryOut : Vector Byte packSize :=
  packet [0x55, 0x53, 0x42, 0x43, 0x01, 0x00, 0x00, 0x00, 0x24, 0x00, 0x00, 0x00, 0x00, 0x00, 0x06, 0x12]

/-- A write and its first packet: the erase is in the extent. -/
theorem run_guarded_write : ∃ w, Run.run (Watched.step (udiskFun 0)) [.out writeSector8 0x1F, .out (packet []) 0x40]
      Watched.start = some w ∧ w.calls = [.eraseSector 0x8000, .stage 0 (packet [])] ∧ w.Guarded := by
  refine ⟨_, rfl, by decide, run_guarded 0 [.out writeSector8 0x1F, .out (packet []) 0x40] _ ⟨?_, ?_⟩ rfl⟩
  · exact fun _ _ _ => Or.inr (by decide)
  · intro w go
    cases go
    exact ⟨fun taken => absurd taken.1 (by decide), fun _ _ => trivial⟩

/-- INQUIRY with the wrong direction: the next packet erases sector 0. -/
theorem inquiry_erases : ¬ ∀ (es : List Event) (w : Watched),
    Run.run (Watched.step (udiskFun 0)) es Watched.start = some w → w.Guarded := by
  intro always
  have guarded := always [.out inquiryOut 0x1F, .out (packet []) 0x40] _ rfl
  obtain ⟨m, s, cbw, write, -⟩ := guarded (.eraseSector 0) (by decide) 0 rfl
  have block : received udiskInit none (.out inquiryOut 0x1F) = some m := cbw
  have this : received udiskInit none (.out inquiryOut 0x1F) = some (blockOf inquiryOut) := by decide
  rw [this] at block
  cases block
  exact absurd write (by decide)

end OffLineProgrammer.UsbDisk
