import OffLineProgrammer.UsbDisk.Accepted
import OffLineProgrammer.UsbDisk.UsbApp

/-!
# The disk behind its endpoint

The disk with the transmit status of EP4, driven by the host: a packet to EP5,
the host reading the packet of EP4, and the clearing of EP4's halt. A handler that
stalls EP5 never returns. The port keeps the calls made, in order, so that
a statement can say what was sent and when. `Ruled` holds after every packet,
whatever the host sends.
-/

namespace OffLineProgrammer.UsbDisk
set_option autoImplicit false
open OffLineProgrammer.Lib

/-! ## Between two packets -/

namespace Udisk

structure Ruled (d : Udisk) : Prop where
  en : d.en = true
  status : d.cswStatus = 0x00 ∨ d.cswStatus = 0x01
  up : d.up = true → d.cswStatus = 0x00
  down : d.down = true → d.cswStatus = 0x00 ∨ d.transferDataLen.toNat % 64 ≠ 0
  count : d.secPackCount.toNat < 64

theorem Ruled.init : Ruled udiskInit :=
  ⟨rfl, Or.inl rfl, fun h => Bool.noConfusion h, fun h => Bool.noConfusion h, by decide⟩

section Handlers

variable {flashId : Byte} {d : Udisk}

/-- The packet count stays below that of a sector. -/
theorem count_next {count : BitVec 16} (below : count.toNat < 64) :
    (if (count + 1).setWidth 32 == (udiskFun flashId).sectorSize / 64 then 0 else count + 1).toNat < 64 := by
  by_cases last : count.toNat = 63
  · rw [if_pos (beq_iff_eq.mpr (packs_whole flashId last))]
    decide
  · rw [if_neg (by rw [beq_iff_eq]; exact packs_inside flashId (by omega))]
    bv_omega

theorem upPack_count (below : d.secPackCount.toNat < 64) : (upPack (udiskFun flashId) d).1.secPackCount.toNat < 64 := by
  unfold upPack
  split
  · exact count_next below
  · unfold bulkUpData
    split <;> exact below

theorem upPack_status (f : UdiskFunction) : (upPack f d).1.cswStatus = d.cswStatus := by
  unfold upPack bulkUpData
  split
  · rfl
  · split <;> rfl

theorem Ruled.upCsw (ruled : Ruled d) : Ruled (upCsw d).1 :=
  ⟨ruled.en, ruled.status, fun h => Bool.noConfusion h, fun h => Bool.noConfusion h, ruled.count⟩

/-- A packet to the host, after a command that succeeded. -/
theorem upPack_ruled (en : d.en = true) (good : d.cswStatus = 0x00) (count : d.secPackCount.toNat < 64) :
    Ruled (upPack (udiskFun flashId) d).1 := by
  have same := upPack_status (d := d) (udiskFun flashId)
  rw [good] at same
  exact ⟨(upPack_flags _ d).1.trans en, Or.inl same, fun _ => same, fun _ => Or.inl same, upPack_count count⟩

theorem Ruled.inEpDeal (ruled : Ruled d) : Ruled (inEpDeal (udiskFun flashId) d).1 := by
  unfold Udisk.inEpDeal
  split
  · rename_i up
    exact upPack_ruled ruled.en (ruled.up up) ruled.count
  · split
    · exact ruled.upCsw
    · exact ruled

/-- A data packet from the host. -/
theorem Ruled.downOnePack (ruled : Ruled d) (down : d.down = true) (pbuf : Vector Byte packSize) :
    Ruled (downOnePack (udiskFun flashId) pbuf d).1 := by
  have rest : (d.transferDataLen - 64).toNat % 64 = d.transferDataLen.toNat % 64 := by bv_omega
  have start : (0 : BitVec 16).toNat < 64 := by decide
  by_cases last : d.secPackCount.toNat = 63
  · rw [downOnePack_last flashId pbuf last]
    by_cases done : d.transferDataLen - 64 = 0
    · simp only [if_pos done]
      exact ⟨ruled.en, ruled.status, fun h => Bool.noConfusion h, fun h => Bool.noConfusion h, start⟩
    · simp only [if_neg done]
      exact ⟨ruled.en, ruled.status, ruled.up, fun _ => by rw [rest]; exact ruled.down down, start⟩
  · have count := ruled.count
    rw [downOnePack_inside flashId pbuf (by omega)]
    exact ⟨ruled.en, ruled.status, ruled.up, fun _ => by rw [rest]; exact ruled.down down, by bv_omega⟩

/-- A command that keeps the status has a short data stage. -/
theorem stageLen_keeps {m : BulkOnlyCmd} (f : UdiskFunction) (keeps : m.KeepsStatus) :
    (m.stageLen f).toNat ≤ 16 ∧ (m.dataLen ≠ 0 → m.stageLen f ≠ 0) := by
  have other : ¬ m.IsRdWr := by
    rcases keeps with cmd | cmd <;> exact BulkOnlyCmd.not_isRdWr cmd (by decide)
  have bound : m.bound = some 0x0C ∨ m.bound = some 0x10 := by
    rcases keeps with cmd | cmd
    · exact Or.inl (by simp only [BulkOnlyCmd.bound, cmd])
    · exact Or.inr (by simp only [BulkOnlyCmd.bound, cmd])
  unfold BulkOnlyCmd.stageLen
  rw [if_neg other]
  rcases bound with bound | bound <;> rw [bound] <;> simp only <;> split <;> constructor <;> bv_omega

/-- An accepted block, before anything is sent. -/
theorem Accepted.ruled {e : Udisk} (accepted : Accepted (udiskFun flashId) d e) (ruled : Ruled d) (idle : d.down = false) :
    Ruled (afterCmd (udiskFun flashId) e).1 := by
  have en : e.en = true := accepted.en.trans ruled.en
  have status : e.cswStatus = 0x00 ∨ e.cswStatus = 0x01 := by
    rw [accepted.status]
    split
    · exact ruled.status
    · exact Or.inl rfl
  have count : e.secPackCount.toNat < 64 := by
    rw [accepted.count]
    split
    · decide
    · exact ruled.count
  have past : d.up = true → e.cswStatus = 0x00 := by
    intro up
    rw [accepted.status, ruled.up up, ite_self]
  cases down : e.down with
  | true =>
    rw [afterCmd_down _ down]
    have out : d.mBOC.dataOut = true := by
      have flag := accepted.down
      rw [down, idle, Bool.false_or] at flag
      exact flag.symm
    have dir := accepted.up
    rw [BulkOnlyCmd.dataIn_not_out out, Bool.or_false] at dir
    have some_ : d.mBOC.dataLen ≠ 0 := by
      unfold BulkOnlyCmd.dataOut at out
      rw [Bool.and_eq_true, bne_iff_ne] at out
      exact out.1
    refine ⟨en, status, fun up => past (dir.symm.trans up), fun _ => ?_, count⟩
    by_cases keeps : d.mBOC.KeepsStatus
    · obtain ⟨small, stays⟩ := stageLen_keeps (udiskFun flashId) keeps
      have more := stays some_
      rw [← accepted.len] at small more
      right
      bv_omega
    · left
      rw [accepted.status, if_neg keeps]
  | false =>
    cases up : e.up with
    | true =>
      rw [afterCmd_up _ down up]
      by_cases good : e.cswStatus = 0x00
      · exact upPack_ruled en good count
      · -- only a reply of at most sixteen bytes keeps a status of before
        have keeps : d.mBOC.KeepsStatus := by
          by_contra sets
          exact good (by rw [accepted.status, if_neg sets])
        have reply : ¬ e.mBOC.cbBuf 0 = CMD_U_READ10 := by
          rw [accepted.dispatch, BulkOnlyCmd.IsRead]
          rcases keeps with cmd | cmd <;> rw [cmd] <;> decide
        have short : ¬ e.transferDataLen > 64 := by
          have small := (stageLen_keeps (udiskFun flashId) keeps).1
          rw [← accepted.len] at small
          bv_omega
        rw [upPack, if_neg reply, bulkUpData, if_neg short]
        exact ⟨en, status, fun h => Bool.noConfusion h, fun h => absurd (down.symm.trans h) Bool.false_ne_true, count⟩
    | false =>
      have rest : Ruled e :=
        ⟨en, status, fun h => absurd (up.symm.trans h) Bool.false_ne_true,
          fun h => absurd (down.symm.trans h) Bool.false_ne_true, count⟩
      by_cases good : e.cswStatus = 0x00
      · rw [afterCmd_csw _ down up good]
        exact rest.upCsw
      · rw [afterCmd_held _ down up good]
        exact rest

theorem Ruled.receive (ruled : Ruled d) (pbuf : Vector Byte packSize) : Ruled (receive pbuf d) := by
  rw [Udisk.receive]
  exact ⟨ruled.en, ruled.status, ruled.up, ruled.down, ruled.count⟩

theorem Ruled.refused (ruled : Ruled d) : Ruled (refused (takeCbw d)) :=
  ⟨ruled.en, Or.inr rfl, fun h => Bool.noConfusion h, fun h => Bool.noConfusion h, ruled.count⟩

/-- A block without the signature stalls EP5. -/
theorem rxStall_unsigned (f : UdiskFunction) {pbuf : Vector Byte packSize} (idle : d.down = false)
    (sig : ¬ (blockOf pbuf).HasSignature) : .rxStall ∈ (outEpDeal f pbuf 0x1F d).2 := by
  have unsigned : ¬ (Udisk.receive pbuf d).mBOC.HasSignature := by rwa [receive_mBOC]
  rw [outEpDeal_command f idle, (scsiCmdDeal_unsigned f _ unsigned).2]
  exact List.mem_append_left _ (mem_stalls.mpr (Or.inr ⟨rfl, rfl⟩))

/-- A command block. -/
theorem Ruled.command (ruled : Ruled d) (idle : d.down = false) {pbuf : Vector Byte packSize}
    (returns : .rxStall ∉ (outEpDeal (udiskFun flashId) pbuf 0x1F d).2) :
    Ruled (outEpDeal (udiskFun flashId) pbuf 0x1F d).1 := by
  by_cases sig : (blockOf pbuf).HasSignature
  · cases rejected : (Udisk.receive pbuf d).rejected with
    | true =>
      obtain ⟨up, -, -, run⟩ := outEpDeal_rejected (udiskFun flashId) ruled.en idle sig rejected
      rw [run]
      exact (ruled.receive pbuf).refused
    | false =>
      obtain ⟨e, accepted, -, run⟩ := outEpDeal_accepted flashId ruled.en idle sig rejected
      have command : (Udisk.receive pbuf d).down = false := by rw [Udisk.receive, idle]
      rw [run]
      exact accepted.ruled (ruled.receive pbuf) command
  · exact absurd (rxStall_unsigned _ idle sig) returns

/-- **Every packet that is handled to the end** keeps the rules. -/
theorem Ruled.deal (ruled : Ruled d) (e : Event) (returns : .rxStall ∉ (e.deal (udiskFun flashId) d).2) :
    Ruled (e.deal (udiskFun flashId) d).1 := by
  cases e with
  | inDone => exact ruled.inEpDeal
  | out pbuf packlen =>
    change .rxStall ∉ (outEpDeal (udiskFun flashId) pbuf packlen d).2 at returns
    change Ruled (outEpDeal (udiskFun flashId) pbuf packlen d).1
    cases down : d.down with
    | true =>
      rw [outEpDeal_data _ down]
      exact ruled.downOnePack down pbuf
    | false =>
      by_cases block : packlen = 0x1F
      · subst block
        exact ruled.command down returns
      · rw [outEpDeal_other _ down pbuf block]
        exact ruled

end Handlers

end Udisk

/-! ## The machine -/

/-- The calls that give EP4 a packet. -/
def Action.isSend : Action → Bool
  | .usbSendPack .. | .usbSend .. => true
  | _ => false

/-- A packet inside a sector leaves the endpoints alone. -/
theorem Udisk.inside_calls (d : Udisk) (offset : Nat) (pbuf : Vector Byte packSize) :
    Action.rxStall ∉ eraseFirst d ++ [Action.stage offset pbuf] ∧
    (eraseFirst d ++ [Action.stage offset pbuf]).filter Action.isSend = [] ∧
    ∀ st, App.armed st (eraseFirst d ++ [Action.stage offset pbuf]) = st := by
  unfold eraseFirst
  split
  · exact ⟨by simp, rfl, fun _ => rfl⟩
  · exact ⟨by simp, rfl, fun _ => rfl⟩

structure Port where
  disk : Udisk
  /-- The transmit status of EP4. -/
  ep4 : EpStat
  /-- The calls of the handlers, in order. -/
  calls : List Action

/-- A packet to EP5, the host having read the packet of EP4, or
CLEAR_FEATURE(ENDPOINT_HALT) for EP4. -/
inductive PortEvent where
  | out (pbuf : Vector Byte packSize) (packlen : BitVec 16)
  | inDone
  | clearHalt

namespace Port

/-- A handler and its calls; `Uidsk_Rx_Stall` does not return. -/
def serve (r : Udisk × List Action) (p : Port) : Option Port :=
  if .rxStall ∈ r.2 then none else some ⟨r.1, App.armed p.ep4 r.2, p.calls ++ r.2⟩

def step (f : UdiskFunction) : PortEvent → Port → Option Port
  | .out pbuf packlen, p => serve (Udisk.outEpDeal f pbuf packlen p.disk) p
  | .inDone, p => if p.ep4 = .valid then serve (Udisk.inEpDeal f p.disk) { p with ep4 := .nak } else none
  | .clearHalt, p => some { p with ep4 := if p.ep4 = .stall then .valid else p.ep4 }

/-- After `Udisk_Init` and `USBD_Reset`. -/
def start : Port := ⟨udiskInit, .nak, []⟩

/-- No transfer is under way and the host has read what was sent. -/
structure AtRest (p : Port) : Prop where
  up : p.disk.up = false
  down : p.disk.down = false
  ep4 : p.ep4 = .nak

theorem start_atRest : AtRest start := ⟨rfl, rfl, rfl⟩

section Steps

variable {flashId : Byte} {p p' : Port}

theorem serve_some {r : Udisk × List Action} (returns : .rxStall ∉ r.2) :
    serve r p = some ⟨r.1, App.armed p.ep4 r.2, p.calls ++ r.2⟩ := if_neg returns

theorem step_ruled {e : PortEvent} (ruled : p.disk.Ruled) (go : step (udiskFun flashId) e p = some p') : p'.disk.Ruled := by
  have served : ∀ (e : Event) (q : Port), serve (e.deal (udiskFun flashId) p.disk) q = some p' → p'.disk.Ruled := by
    intro e q go
    unfold serve at go
    split at go
    · cases go
    · rename_i returns
      cases go
      exact ruled.deal e returns
  cases e with
  | out pbuf packlen => exact served (.out pbuf packlen) p go
  | inDone =>
    rw [step] at go
    split at go
    · exact served .inDone _ go
    · cases go
  | clearHalt =>
    cases go
    exact ruled

/-- **The rules hold in every reachable state.** -/
theorem reachable_ruled (reached : Run.Reachable (step (udiskFun flashId)) start p) : p.disk.Ruled :=
  Run.reachable_inv (fun p => p.disk.Ruled) (fun _ _ _ ruled go => step_ruled ruled go) Udisk.Ruled.init reached

/-! ### A data stage to the host has its packet in EP4 -/

theorem upPack_armed (f : UdiskFunction) (d : Udisk) (s : EpStat) : App.armed s (Udisk.upPack f d).2 = .valid := by
  unfold Udisk.upPack Udisk.bulkUpData
  split
  · rfl
  · split <;> rfl

variable {d : Udisk} {s : EpStat}

theorem inEpDeal_loaded (f : UdiskFunction) (up : (Udisk.inEpDeal f d).1.up = true) :
    App.armed s (Udisk.inEpDeal f d).2 = .valid := by
  unfold Udisk.inEpDeal at up ⊢
  split
  · exact upPack_armed f d s
  · rename_i off
    rw [if_neg off] at up
    split at up
    · cases up
    · exact absurd up off

theorem downOnePack_loaded (ruled : d.Ruled) (pbuf : Vector Byte packSize) (loaded : d.up = true → s = .valid)
    (up : (Udisk.downOnePack (udiskFun flashId) pbuf d).1.up = true) :
    App.armed s (Udisk.downOnePack (udiskFun flashId) pbuf d).2 = .valid := by
  by_cases last : d.secPackCount.toNat = 63
  · by_cases done : d.transferDataLen - 64 = 0
    · rw [Udisk.downOnePack_final flashId pbuf last done] at up
      cases up
    · rw [Udisk.downOnePack_sector flashId pbuf last done] at up ⊢
      exact loaded up
  · have count := ruled.count
    rw [Udisk.downOnePack_inside flashId pbuf (by omega)] at up ⊢
    rw [← loaded up, Udisk.eraseFirst]
    split <;> rfl

theorem afterCmd_loaded (f : UdiskFunction) (waiting : d.down = true → d.up = true → s = .valid)
    (up : (Udisk.afterCmd f d).1.up = true) : App.armed s (Udisk.afterCmd f d).2 = .valid := by
  cases down : d.down with
  | true =>
    rw [Udisk.afterCmd_down f down] at up ⊢
    exact waiting down up
  | false =>
    cases on : d.up with
    | true =>
      rw [Udisk.afterCmd_up f down on]
      exact upPack_armed f d s
    | false =>
      by_cases good : d.cswStatus = 0x00
      · rw [Udisk.afterCmd_csw f down on good] at up
        cases up
      · rw [Udisk.afterCmd_held f down on good, on] at up
        cases up

/-- A command block. -/
theorem command_loaded (ruled : d.Ruled) (idle : d.down = false) {pbuf : Vector Byte packSize}
    (returns : .rxStall ∉ (Udisk.outEpDeal (udiskFun flashId) pbuf 0x1F d).2) (loaded : d.up = true → s = .valid)
    (up : (Udisk.outEpDeal (udiskFun flashId) pbuf 0x1F d).1.up = true) :
    App.armed s (Udisk.outEpDeal (udiskFun flashId) pbuf 0x1F d).2 = .valid := by
  by_cases sig : (blockOf pbuf).HasSignature
  · cases rejected : (Udisk.receive pbuf d).rejected with
    | true =>
      obtain ⟨tx, -, -, run⟩ := Udisk.outEpDeal_rejected (udiskFun flashId) ruled.en idle sig rejected
      rw [run] at up
      cases up
    | false =>
      obtain ⟨e, accepted, -, run⟩ := Udisk.outEpDeal_accepted flashId ruled.en idle sig rejected
      rw [run] at up ⊢
      refine afterCmd_loaded _ (fun down on => loaded ?_) up
      have out := accepted.down
      have dir := accepted.up
      rw [down, Udisk.receive_mBOC, Udisk.receive, idle, Bool.false_or] at out
      rw [on, Udisk.receive_mBOC, Udisk.receive, BulkOnlyCmd.dataIn_not_out out.symm, Bool.or_false] at dir
      exact dir.symm
  · exact absurd (Udisk.rxStall_unsigned _ idle sig) returns

theorem step_loaded {e : PortEvent} (ruled : p.disk.Ruled) (loaded : p.disk.up = true → p.ep4 = .valid)
    (go : step (udiskFun flashId) e p = some p') : p'.disk.up = true → p'.ep4 = .valid := by
  cases e with
  | out pbuf packlen =>
    rw [step, serve] at go
    split at go
    · cases go
    · rename_i returns
      cases go
      intro up
      change (Udisk.outEpDeal (udiskFun flashId) pbuf packlen p.disk).1.up = true at up
      show App.armed p.ep4 (Udisk.outEpDeal (udiskFun flashId) pbuf packlen p.disk).2 = .valid
      cases down : p.disk.down with
      | true =>
        rw [Udisk.outEpDeal_data _ down] at up ⊢
        exact downOnePack_loaded ruled pbuf loaded up
      | false =>
        by_cases block : packlen = 0x1F
        · subst block
          exact command_loaded ruled down returns loaded up
        · rw [Udisk.outEpDeal_other _ down pbuf block] at up ⊢
          exact loaded up
  | inDone =>
    rw [step] at go
    split at go
    · rw [serve] at go
      split at go
      · cases go
      · cases go
        exact fun up => inEpDeal_loaded _ up
    · cases go
  | clearHalt =>
    cases go
    intro up
    show (if p.ep4 = .stall then .valid else p.ep4) = EpStat.valid
    rw [loaded up]
    rfl

/-- **A data stage to the host has its packet in EP4**, in every reachable state. -/
theorem reachable_loaded (reached : Run.Reachable (step (udiskFun flashId)) start p) :
    p.disk.up = true → p.ep4 = .valid :=
  (Run.reachable_inv (fun p => p.disk.Ruled ∧ (p.disk.up = true → p.ep4 = .valid))
    (fun _ _ _ inv go => ⟨step_ruled inv.1 go, step_loaded inv.1 inv.2 go⟩)
    ⟨Udisk.Ruled.init, fun up => Bool.noConfusion up⟩ reached).2

end Steps

end Port

end OffLineProgrammer.UsbDisk
