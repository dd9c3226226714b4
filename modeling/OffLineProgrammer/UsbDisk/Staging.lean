import OffLineProgrammer.UsbDisk.Port

/-!
# The sector staging buffer

`UDISK_Sec_Pack_Count` is the index of the next packet in `UDisk_Down_Buffer`. The
command setup resets it, and the read path and the write path both step it and
wrap it at the end of a sector; nothing else touches it. So it stays below 64
whatever the packets are and wherever one transfer leaves it for the next, and
with it each copy stays in the buffer and each program is of one whole sector.
-/

namespace OffLineProgrammer.UsbDisk
set_option autoImplicit false
open OffLineProgrammer.Lib Udisk

/-- The disk's variables after a packet or an IN completion. -/
def packetStep (f : UdiskFunction) (e : Event) (d : Udisk) : Option Udisk := some (e.deal f d).1

/-- `UDISK_Up_OnePack` is called for the next packet to the host. -/
def readStart (d : Udisk) : Option Udisk := if d.up ∧ d.mBOC.cbBuf 0 = CMD_U_READ10 then some d else none

/-- The variables with which `UDISK_Up_OnePack` or `UDISK_Down_OnePack` starts while
an event is handled, where one of them does. -/
def packStart (f : UdiskFunction) : Event → Udisk → Option Udisk
  | .out pbuf packlen, d =>
    if d.down then some d
    else if packlen = 0x1F then
      let e := (scsiCmdDeal f (receive pbuf d)).1
      if e.down then none else readStart e
    else none
  | .inDone, d => readStart d

/-- The calls of the two functions. -/
def Action.isPack : Action → Bool
  | .eraseSector .. | .stage .. | .writeData .. | .readData .. | .usbSendPack .. => true
  | _ => false

/-! ## Where the two functions start -/

section Start

variable (f : UdiskFunction)

theorem readStart_some {d s : Udisk} (starts : readStart d = some s) : s = d ∧ d.up = true ∧ upPack f d = upOnePack f d := by
  unfold readStart at starts
  split at starts
  · next on => exact ⟨(Option.some.inj starts).symm, on.1, if_pos on.2⟩
  · cases starts

theorem readStart_none {d : Udisk} (none_ : readStart d = none) (up : d.up = true) : ∀ a ∈ (upPack f d).2, a.isPack = false := by
  have other : ¬ d.mBOC.cbBuf 0 = CMD_U_READ10 := by
    intro read
    rw [readStart, if_pos ⟨up, read⟩] at none_
    cases none_
  rw [upPack, if_neg other, bulkUpData]
  split <;> simp [Action.isPack]

theorem upCsw_noPack (d : Udisk) : ∀ a ∈ (upCsw d).2, a.isPack = false := by simp [upCsw, Action.isPack]

/-- A command block only stalls. -/
theorem scsiCmdDeal_noPack (d : Udisk) : ∀ a ∈ (scsiCmdDeal f d).2, a.isPack = false := by
  have stall : ∀ tx rx, ∀ a ∈ stalls tx rx, a.isPack = false := by
    intro tx rx a mem
    rcases mem_stalls.mp mem with ⟨rfl, -⟩ | ⟨rfl, -⟩ <;> rfl
  intro a mem
  by_cases sig : d.mBOC.HasSignature
  · rcases scsiCmdDeal_signed f d sig with ⟨-, none_, -⟩ | ⟨-, -, tx, calls⟩
    · rw [none_] at mem
      cases mem
    · exact stall tx _ a (calls ▸ mem)
  · exact stall true true a ((scsiCmdDeal_unsigned f d sig).2 ▸ mem)

theorem packStart_data {d : Udisk} (down : d.down = true) (pbuf : Vector Byte packSize) (packlen : BitVec 16) :
    packStart f (.out pbuf packlen) d = some d := if_pos down

theorem packStart_other {d : Udisk} (idle : d.down = false) (pbuf : Vector Byte packSize) {packlen : BitVec 16}
    (other : packlen ≠ 0x1F) : packStart f (.out pbuf packlen) d = none := by
  simp only [packStart, idle, Bool.false_eq_true, if_false, if_neg other]

theorem packStart_command {d : Udisk} (idle : d.down = false) (pbuf : Vector Byte packSize) :
    packStart f (.out pbuf 0x1F) d =
      if (scsiCmdDeal f (receive pbuf d)).1.down then none else readStart (scsiCmdDeal f (receive pbuf d)).1 := by
  simp only [packStart, idle, Bool.false_eq_true, if_false, if_true]

/-- What follows the command block, where a function starts and where none does. -/
theorem afterCmd_start {e s : Udisk} (starts : (if e.down then none else readStart e) = some s) :
    s = e ∧ afterCmd f e = upOnePack f e := by
  split at starts
  · cases starts
  · next down =>
    obtain ⟨same, up, send⟩ := readStart_some f starts
    exact ⟨same, (afterCmd_up f (Bool.eq_false_iff.mpr down) up).trans send⟩

theorem afterCmd_noStart {e : Udisk} (none_ : (if e.down then none else readStart e) = none) :
    ∀ a ∈ (afterCmd f e).2, a.isPack = false := by
  unfold afterCmd
  split
  · simp
  · next down =>
    rw [if_neg down] at none_
    split
    · next up => exact readStart_none f none_ up
    · split
      · exact upCsw_noPack e
      · simp

/-- Where one of the two functions starts, the handler is what comes before and then
that function. -/
theorem deal_packStart {e : Event} {d s : Udisk} (starts : packStart f e d = some s) :
    (∃ pbuf packlen, e = .out pbuf packlen ∧ e.deal f d = downOnePack f pbuf s) ∨
      ∃ before, (∀ a ∈ before, a.isPack = false) ∧ e.deal f d = ((upOnePack f s).1, before ++ (upOnePack f s).2) := by
  cases e with
  | inDone =>
    obtain ⟨rfl, up, send⟩ := readStart_some f starts
    refine Or.inr ⟨[], by simp, ?_⟩
    rw [Event.deal, inEpDeal, if_pos up, send, List.nil_append]
  | out pbuf packlen =>
    cases down : d.down with
    | true =>
      rw [packStart_data f down] at starts
      obtain rfl := Option.some.inj starts
      exact Or.inl ⟨pbuf, packlen, rfl, outEpDeal_data f down pbuf packlen⟩
    | false =>
      by_cases block : packlen = 0x1F
      · subst block
        rw [packStart_command f down] at starts
        obtain ⟨same, send⟩ := afterCmd_start f starts
        refine Or.inr ⟨_, scsiCmdDeal_noPack f (receive pbuf d), ?_⟩
        rw [Event.deal, outEpDeal_command f down, send, same]
      · rw [packStart_other f down pbuf block] at starts
        cases starts

/-- Where neither starts, no call of theirs is made. -/
theorem deal_noStart {e : Event} {d : Udisk} (none_ : packStart f e d = none) : ∀ a ∈ (e.deal f d).2, a.isPack = false := by
  cases e with
  | inDone =>
    rw [Event.deal, inEpDeal]
    split
    · next up => exact readStart_none f none_ up
    · split
      · exact upCsw_noPack d
      · simp
  | out pbuf packlen =>
    cases down : d.down with
    | true =>
      rw [packStart_data f down] at none_
      cases none_
    | false =>
      by_cases block : packlen = 0x1F
      · subst block
        rw [packStart_command f down] at none_
        rw [Event.deal, outEpDeal_command f down]
        intro a mem
        rcases List.mem_append.mp mem with deal | after
        · exact scsiCmdDeal_noPack f _ a deal
        · exact afterCmd_noStart f none_ a after
      · rw [Event.deal, outEpDeal_other f down pbuf block]
        simp

end Start

/-! ## The count -/

section Count

variable {flashId : Byte} {d : Udisk}

/-- The `switch` leaves the count or resets it. -/
theorem scsiSwitch_count (f : UdiskFunction) (d : Udisk) :
    (scsiSwitch f d).1.secPackCount = d.secPackCount ∨ (scsiSwitch f d).1.secPackCount = 0 := by
  unfold scsiSwitch
  cases d.mBOC.cmd with
  | read10 | wrVerify10 | write10 =>
    cases d.en with
    | true => exact Or.inr rfl
    | false => exact Or.inl rfl
  | readFormatCapacity | readCapacity | modeSense | testReady =>
    left
    cases d.en with
    | true => rfl
    | false => rfl
  | modeSense2 =>
    left
    dsimp only
    split <;> rfl
  | requestSense => exact Or.inl (by simp only [reply])
  | inquiry | prevtRemove | verify10 | startStop | unsupported => exact Or.inl rfl

theorem scsiCmdDeal_count (f : UdiskFunction) (below : d.secPackCount.toNat < 64) :
    (scsiCmdDeal f d).1.secPackCount.toNat < 64 := by
  unfold scsiCmdDeal
  split
  · rcases scsiSwitch_count f (takeCbw d) with kept | reset
    · exact kept ▸ below
    · exact reset ▸ by decide
  · exact below

theorem downOnePack_count (pbuf : Vector Byte packSize) (below : d.secPackCount.toNat < 64) :
    (downOnePack (udiskFun flashId) pbuf d).1.secPackCount.toNat < 64 := by
  by_cases last : d.secPackCount.toNat = 63
  · rw [downOnePack_last flashId pbuf last]
    exact Nat.zero_lt_succ 63
  · rw [downOnePack_inside flashId pbuf (by omega)]
    change (d.secPackCount + 1).toNat < 64
    bv_omega

theorem upCsw_count (d : Udisk) : (upCsw d).1.secPackCount = d.secPackCount := by simp only [upCsw]

theorem afterCmd_count (below : d.secPackCount.toNat < 64) : (afterCmd (udiskFun flashId) d).1.secPackCount.toNat < 64 := by
  cases down : d.down with
  | true =>
    rw [afterCmd_down _ down]
    exact below
  | false =>
    cases up : d.up with
    | true =>
      rw [afterCmd_up _ down up]
      exact upPack_count below
    | false =>
      by_cases good : d.cswStatus = 0x00
      · rw [afterCmd_csw _ down up good, upCsw_count]
        exact below
      · rw [afterCmd_held _ down up good]
        exact below

/-- Every handler keeps the count below that of a sector. -/
theorem deal_count (e : Event) (below : d.secPackCount.toNat < 64) : (e.deal (udiskFun flashId) d).1.secPackCount.toNat < 64 := by
  cases e with
  | inDone =>
    rw [Event.deal, inEpDeal]
    split
    · exact upPack_count below
    · split
      · rwa [upCsw_count]
      · exact below
  | out pbuf packlen =>
    rw [Event.deal]
    cases down : d.down with
    | true =>
      rw [outEpDeal_data _ down]
      exact downOnePack_count pbuf below
    | false =>
      by_cases block : packlen = 0x1F
      · subst block
        have received : (receive pbuf d).secPackCount.toNat < 64 := by rwa [receive]
        have dealt := scsiCmdDeal_count (udiskFun flashId) received
        rw [outEpDeal_command _ down]
        generalize scsiCmdDeal (udiskFun flashId) (receive pbuf d) = r at dealt
        exact afterCmd_count dealt
      · rw [outEpDeal_other _ down pbuf block]
        exact below

/-- Where one of the two functions starts the count is below that of a sector. -/
theorem packStart_count {e : Event} {s : Udisk} (below : d.secPackCount.toNat < 64)
    (starts : packStart (udiskFun flashId) e d = some s) : s.secPackCount.toNat < 64 := by
  cases e with
  | inDone =>
    obtain ⟨rfl, -⟩ := readStart_some (udiskFun flashId) starts
    exact below
  | out pbuf packlen =>
    cases down : d.down with
    | true =>
      rw [packStart_data _ down] at starts
      exact Option.some.inj starts ▸ below
    | false =>
      by_cases block : packlen = 0x1F
      · subst block
        have received : (receive pbuf d).secPackCount.toNat < 64 := by rwa [receive]
        rw [packStart_command _ down] at starts
        rw [(afterCmd_start (udiskFun flashId) starts).1]
        exact scsiCmdDeal_count _ received
      · rw [packStart_other _ down pbuf block] at starts
        cases starts

end Count

/-! ## The buffer and the programs -/

/-- A copy lies in `UDisk_Down_Buffer`, and a program is of one whole sector from
its start. -/
def Action.InBuffer : Action → Prop
  | .stage offset _ => offset + packSize ≤ 4096
  | .writeData addr len => addr.toNat % 4096 = 0 ∧ len.toNat = 4096
  | _ => True

theorem Action.inBuffer_noPack {a : Action} (other : a.isPack = false) : a.InBuffer := by
  cases a with
  | stage offset bytes => cases other
  | writeData addr len => cases other
  | eraseSector | readData | usbSendPack | usbSend | txStall | rxStall => trivial

section Buffer

variable {flashId : Byte} {d : Udisk}

theorem secStartAddr_aligned (d : Udisk) : d.secStartAddr.toNat % 4096 = 0 := by
  simp only [secStartAddr, BitVec.toNat_mul, BitVec.ofNat_eq_ofNat, BitVec.toNat_ofNat, Nat.reducePow, Nat.reduceMod]
  omega

theorem upOnePack_inBuffer (f : UdiskFunction) (d : Udisk) : ∀ a ∈ (upOnePack f d).2, a.InBuffer := by
  simp [upOnePack, Action.InBuffer]

theorem eraseFirst_inBuffer (d : Udisk) : ∀ a ∈ eraseFirst d, a.InBuffer := by
  unfold eraseFirst
  split <;> simp [Action.InBuffer]

/-- The copy and the program of the last packet of a sector. -/
theorem last_inBuffer (pbuf : Vector Byte packSize) (d : Udisk) :
    ∀ a ∈ [Action.stage (63 * packSize) pbuf, .writeData d.secStartAddr 4096], a.InBuffer := by
  intro a mem
  rcases List.mem_pair.mp mem with rfl | rfl
  · exact Nat.le_refl 4096
  · exact ⟨secStartAddr_aligned d, rfl⟩

/-- The calls of a packet of sector data. -/
theorem downOnePack_inBuffer (pbuf : Vector Byte packSize) (below : d.secPackCount.toNat < 64) :
    ∀ a ∈ (downOnePack (udiskFun flashId) pbuf d).2, a.InBuffer := by
  intro a mem
  by_cases last : d.secPackCount.toNat = 63
  · by_cases done : d.transferDataLen - 64 = 0
    · rw [downOnePack_final flashId pbuf last done] at mem
      rcases List.mem_append.mp mem with own | status
      · exact last_inBuffer pbuf d a own
      · apply Action.inBuffer_noPack
        exact upCsw_noPack _ a status
    · rw [downOnePack_sector flashId pbuf last done] at mem
      exact last_inBuffer pbuf d a mem
  · rw [downOnePack_inside flashId pbuf (by omega)] at mem
    rcases List.mem_append.mp mem with erase | copy
    · exact eraseFirst_inBuffer d a erase
    · cases List.mem_singleton.mp copy
      change d.secPackCount.toNat * 64 + 64 ≤ 4096
      omega

/-- Every call of a handler, from a count below that of a sector. -/
theorem deal_inBuffer (e : Event) (below : d.secPackCount.toNat < 64) : ∀ a ∈ (e.deal (udiskFun flashId) d).2, a.InBuffer := by
  intro a mem
  cases starts : packStart (udiskFun flashId) e d with
  | none =>
    apply Action.inBuffer_noPack
    exact deal_noStart _ starts a mem
  | some s =>
    rcases deal_packStart _ starts with ⟨pbuf, packlen, rfl, deal⟩ | ⟨before, others, deal⟩
    · rw [deal] at mem
      exact downOnePack_inBuffer pbuf (packStart_count below starts) a mem
    · rw [deal] at mem
      rcases List.mem_append.mp mem with front | own
      · apply Action.inBuffer_noPack
        exact others a front
      · exact upOnePack_inBuffer _ s a own

end Buffer

/-- **The staging buffer**: after any run of packets and IN completions the next
function to move a packet starts with a count below 64, its copy lies in the
buffer, and a program is of one whole sector from its start. -/
theorem staging_inside (flashId : Byte) {es : List Event} {d : Udisk}
    (run : Run.run (packetStep (udiskFun flashId)) es udiskInit = some d) (e : Event) :
    (∀ s, packStart (udiskFun flashId) e d = some s → s.secPackCount.toNat < 64) ∧
    ∀ a ∈ (e.deal (udiskFun flashId) d).2, a.InBuffer := by
  have below : d.secPackCount.toNat < 64 := by
    apply Run.reachable_inv (fun d => d.secPackCount.toNat < 64) _ _ ⟨es, run⟩
    · intro t e t' low go
      exact Option.some.inj go ▸ deal_count e low
    · decide
  exact ⟨fun s starts => packStart_count below starts, deal_inBuffer e below⟩

/-- A WRITE10 of one sector and the first packet of its data. -/
def writeBegun : List Event := [.out writeSector8 0x1F, .out (packet []) 64]

theorem staging_inside_write : ∃ d, Run.run (packetStep (udiskFun 0x17)) writeBegun udiskInit = some d ∧ d.secPackCount = 1 ∧
    (∀ s, packStart (udiskFun 0x17) (.out (packet []) 64) d = some s → s.secPackCount.toNat < 64) ∧
    ∀ a ∈ (Event.deal (udiskFun 0x17) (.out (packet []) 64) d).2, a.InBuffer :=
  ⟨_, rfl, rfl, @staging_inside 0x17 writeBegun _ rfl (.out (packet []) 64)⟩

end OffLineProgrammer.UsbDisk
