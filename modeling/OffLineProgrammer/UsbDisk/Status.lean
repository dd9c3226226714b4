import OffLineProgrammer.UsbDisk.Served

/-!
# One CSW a command, and its status

From `Udisk_Init` on, every well-formed command ends with one CSW of status 0
(`one_csw`). After commands that failed the status of a command is its own except
for the two MODE SENSE commands, which do not set `Udisk_CSW_Status`
(`outcome_iff`).
-/

namespace OffLineProgrammer.UsbDisk
set_option autoImplicit false
open OffLineProgrammer.Lib Udisk

namespace Port

/-! ## Sequences of commands -/

/-- Between two commands of which none has failed. -/
structure Fresh (p : Port) : Prop where
  ruled : p.disk.Ruled
  rest : p.AtRest
  good : p.disk.cswStatus = 0x00

theorem start_fresh : Fresh start := ⟨Ruled.init, start_atRest, rfl⟩

/-- The command `c` from `p`: `q` once its CSW is in EP4, `r` once it is read. -/
structure OneCsw (c : Command) (p q r : Port) : Prop where
  /-- The data packets, then the CSW with the tag of the block and status 0. -/
  sent : ∃ data a, q.sent = p.sent ++ data ++ [a] ∧ data.length = c.block.packetsIn ∧ (∀ b ∈ data, b.csw? = none) ∧
    a.csw? = some (cswOf c.block.tag 0x00)
  up : q.disk.up = false
  down : q.disk.down = false
  csw : q.disk.csw = false
  left : q.disk.transferDataLen = 0
  disk : r.disk = q.disk
  /-- Nothing follows the CSW. -/
  quiet : r.sent = q.sent

section Sequence

variable (flashId : Byte) {p : Port}

theorem Fresh.statusAfter (fresh : Fresh p) (c : Command) : p.statusAfter c = 0x00 := by
  rw [Port.statusAfter, fresh.good, ite_self]

/-- One command of a sequence. -/
theorem Fresh.command (fresh : Fresh p) (c : Command) :
    ∃ q r, Run.run (step (udiskFun flashId)) c.stages p = some q ∧ step (udiskFun flashId) .inDone q = some r ∧
      OneCsw c p q r ∧ Fresh r := by
  have status := fresh.statusAfter c
  obtain ⟨q, stages, ends⟩ := stages_served flashId fresh.ruled fresh.rest c
  rcases ends with ⟨-, reported⟩ | ⟨-, bad, -⟩
  · obtain ⟨r, go, disk, calls, rest⟩ := reported.inDone flashId
    have sent := reported.sent
    rw [status] at sent
    refine ⟨q, r, stages, go, ?_, ?_⟩
    · exact ⟨sent, reported.up, reported.down, reported.csw, reported.left, disk, by rw [Port.sent, calls, ← Port.sent]⟩
    · exact ⟨disk ▸ reported.ruled, rest, by rw [disk, reported.status, status]⟩
  · exact absurd status bad

/-- Any number of commands. -/
theorem Fresh.commands (before : List Command) : ∀ {p : Port}, Fresh p →
    ∃ p', Run.run (step (udiskFun flashId)) (before.flatMap Command.script) p = some p' ∧ Fresh p' := by
  induction before with
  | nil => exact fun fresh => ⟨_, rfl, fresh⟩
  | cons c cs ih =>
    intro p fresh
    obtain ⟨q, r, stages, go, -, next⟩ := fresh.command flashId c
    obtain ⟨p', later, fresh'⟩ := ih next
    refine ⟨p', ?_, fresh'⟩
    have script : Run.run (step (udiskFun flashId)) c.script p = some r := by
      rw [Command.script, Run.run_append stages]
      exact Run.run_cons go
    rw [List.flatMap_cons, Run.run_append script, later]

/-- **One CSW per command**, after its data packets, with its own tag and status 0;
the host reads it and nothing follows before the next block. -/
theorem one_csw (before : List Command) (c : Command) :
    ∃ p q r, Run.run (step (udiskFun flashId)) (before.flatMap Command.script) start = some p ∧
      Run.run (step (udiskFun flashId)) c.stages p = some q ∧ step (udiskFun flashId) .inDone q = some r ∧
      OneCsw c p q r := by
  obtain ⟨p, run, fresh⟩ := Fresh.commands flashId before start_fresh
  obtain ⟨q, r, stages, go, one, -⟩ := fresh.command flashId c
  exact ⟨p, q, r, run, stages, go, one⟩

end Sequence

/-! ## The status after any history -/

/-- The status byte of a packet that is a CSW. -/
def statusByte (a : Action) : Option Byte := a.csw?.map fun bytes => bytes.getD 12 0

/-- The status bytes of the CSWs sent while the command `c` runs from `p`. -/
def outcome (f : UdiskFunction) (c : Command) (p : Port) : Option (List Byte) :=
  (Run.run (step f) c.stages p).map fun q => (q.sent.drop p.sent.length).filterMap statusByte

section Outcome

variable {flashId : Byte} {c : Command} {p p₁ p₂ q : Port}

theorem Reported.statuses (reported : Reported c p q) :
    (q.sent.drop p.sent.length).filterMap statusByte = [p.statusAfter c] := by
  obtain ⟨data, a, sent, -, plain, csw⟩ := reported.sent
  have none : data.filterMap statusByte = [] := by
    rw [List.filterMap_eq_nil_iff]
    intro b mem
    rw [statusByte, plain b mem, Option.map_none]
  have byte : statusByte a = some (p.statusAfter c) := by
    rw [statusByte, csw, Option.map_some, cswOf_status]
  rw [sent, List.append_assoc, List.drop_left, List.filterMap_append, none, List.nil_append]
  simp only [List.filterMap_cons, byte, List.filterMap_nil]

theorem Held.statuses (held : Held c p q) : (q.sent.drop p.sent.length).filterMap statusByte = [] := by
  rw [held.sent, List.drop_length, List.filterMap_nil]

/-- What a command ends with, between two commands. -/
theorem outcome_eq (flashId : Byte) (ruled : p.disk.Ruled) (rest : p.AtRest) (c : Command) :
    outcome (udiskFun flashId) c p =
      some (if c.block.dataLen = 0 ∧ p.statusAfter c ≠ 0x00 then [] else [p.statusAfter c]) := by
  obtain ⟨q, stages, ends⟩ := stages_served flashId ruled rest c
  rw [outcome, stages, Option.map_some]
  rcases ends with ⟨sends, reported⟩ | ⟨empty, bad, held⟩
  · rw [reported.statuses, if_neg sends]
  · rw [held.statuses, if_pos ⟨empty, bad⟩]

/-- **The status of a command and its past**: after two histories of any packets
that leave no transfer under way a command ends alike if and only if it sets its
status, or the histories left the same one. -/
theorem outcome_iff (flashId : Byte) (reached₁ : Run.Reachable (step (udiskFun flashId)) start p₁)
    (reached₂ : Run.Reachable (step (udiskFun flashId)) start p₂) (rest₁ : p₁.AtRest) (rest₂ : p₂.AtRest) (c : Command) :
    outcome (udiskFun flashId) c p₁ = outcome (udiskFun flashId) c p₂ ↔
      (c.block.KeepsStatus → p₁.disk.cswStatus = p₂.disk.cswStatus) := by
  have ruled₁ := reachable_ruled reached₁
  have ruled₂ := reachable_ruled reached₂
  rw [outcome_eq flashId ruled₁ rest₁, outcome_eq flashId ruled₂ rest₂, Option.some.injEq]
  by_cases keeps : c.block.KeepsStatus
  · have own : ∀ p : Port, p.statusAfter c = p.disk.cswStatus := fun p => if_pos keeps
    rw [own, own]
    rcases ruled₁.status with s₁ | s₁ <;> rcases ruled₂.status with s₂ | s₂ <;> rw [s₁, s₂] <;>
      by_cases empty : c.block.dataLen = 0#32 <;> simp [empty, keeps]
  · have own : ∀ p : Port, p.statusAfter c = 0x00 := fun p => if_neg keeps
    rw [own, own]
    exact iff_of_true rfl (fun keeps' => absurd keeps' keeps)

end Outcome

/-- A block of an unknown command with data to the host: the host clears the halt
of EP4 and reads what is there and then the CSW of status 1. -/
def unknownCommand : List PortEvent :=
  [.out (packet [0x55, 0x53, 0x42, 0x43, 0x01, 0x00, 0x00, 0x00, 0x24, 0x00, 0x00, 0x00, 0x80, 0x00, 0x06, 0xFF]) 0x1F,
    .clearHalt, .inDone, .inDone]

/-- MODE SENSE(6) with 192 bytes to the host. -/
def modeSenseAll : Command where
  cbw := packet [0x55, 0x53, 0x42, 0x43, 0x02, 0x00, 0x00, 0x00, 0xC0, 0x00, 0x00, 0x00, 0x80, 0x00, 0x06, 0x1A, 0x00,
    0x3F, 0x00, 0xC0]
  payload := []
  wellFormed := by decide +kernel
  length := by decide +kernel

def testUnitReady : Command where
  cbw := packet [0x55, 0x53, 0x42, 0x43, 0x02]
  payload := []
  wellFormed := by decide +kernel
  length := by decide +kernel

/-- The failure leaves its status and no call to the flash. -/
theorem unknownCommand_leaves :
    ∃ p, Run.run (step (udiskFun 0x17)) unknownCommand start = some p ∧ p.AtRest ∧ p.disk.cswStatus = 0x01 ∧
      ∀ a ∈ p.calls, a.flashAddr = none := by
  have ends : (Run.run (step (udiskFun 0x17)) unknownCommand start).map (fun p =>
      (p.disk.up, p.disk.down, p.ep4, p.disk.cswStatus, p.calls.all fun a => a.flashAddr.isNone)) =
      some (false, false, .nak, 0x01, true) := by decide +kernel
  obtain ⟨p, run, parts⟩ := Option.map_eq_some_iff.mp ends
  simp only [Prod.mk.injEq, List.all_eq_true, Option.isNone_iff_eq_none] at parts
  obtain ⟨up, down, ep4, status, quiet⟩ := parts
  exact ⟨p, run, ⟨up, down, ep4⟩, status, quiet⟩

/-- A command that sets its status ends alike after the failure. -/
theorem outcome_testUnitReady :
    ∃ p, Run.run (step (udiskFun 0x17)) unknownCommand start = some p ∧
      outcome (udiskFun 0x17) testUnitReady start = outcome (udiskFun 0x17) testUnitReady p := by
  obtain ⟨p, run, rest, -⟩ := unknownCommand_leaves
  exact ⟨p, run, (outcome_iff 0x17 ⟨[], rfl⟩ ⟨unknownCommand, run⟩ start_atRest rest testUnitReady).mpr
    fun keeps => absurd keeps (by decide +kernel)⟩

/-- MODE SENSE(6) succeeds from `Udisk_Init`, and is reported as failed after the
failure of a command that did not touch the flash. -/
theorem outcome_inherited :
    ∃ p, Run.run (step (udiskFun 0x17)) unknownCommand start = some p ∧ p.AtRest ∧ (∀ a ∈ p.calls, a.flashAddr = none) ∧
      outcome (udiskFun 0x17) modeSenseAll start = some [0x00] ∧ outcome (udiskFun 0x17) modeSenseAll p = some [0x01] := by
  obtain ⟨p, run, rest, status, quiet⟩ := unknownCommand_leaves
  have ruled := reachable_ruled ⟨unknownCommand, run⟩
  have keeps : modeSenseAll.block.KeepsStatus := by decide +kernel
  have data : ¬ modeSenseAll.block.dataLen = 0 := by decide +kernel
  refine ⟨p, run, rest, quiet, ?_, ?_⟩
  · rw [outcome_eq 0x17 Ruled.init start_atRest, statusAfter, if_pos keeps, if_neg fun h => data h.1]
    rfl
  · rw [outcome_eq 0x17 ruled rest, statusAfter, if_pos keeps, if_neg fun h => data h.1, status]

end Port

end OffLineProgrammer.UsbDisk
