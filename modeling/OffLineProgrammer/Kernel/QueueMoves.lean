import OffLineProgrammer.Kernel.QueueInvariant
import Mathlib.Data.List.Forall2
import Mathlib.Data.List.Count

/-!
# The four moves of a node

A message is linked at the end or at the front, taken from the front, and its node given
back. Each move keeps the invariant and does to the queue it stands for what its name says.
-/

namespace OffLineProgrammer.Kernel
set_option autoImplicit false
open OffLineProgrammer.Lib
open OffLineProgrammer.Lib.Linked (Chain)

section Pool

variable {s : Sys} {f : Fifo} {frees nodes : List Nat} {t n : Nat} {x : Task}

/-- The nodes that tasks copy to or from. -/
def Sys.held (s : Sys) : List Nat := s.tasks.filterMap Task.node

theorem count_held (s : Sys) (n : Nat) : s.held.count n = s.copying n := by
  rw [Sys.held, List.count_filterMap]
  exact List.countP_congr fun x _ => by simp

/-- **The pool**: the free nodes, those in the queue and those with tasks are all nodes, each
once. -/
theorem Inv.pool (inv : Inv s f frees nodes) : (frees ++ nodes ++ s.held).Perm (List.range s.mq.maxMsgs) := by
  apply List.perm_iff_count.mpr
  intro n
  rw [List.count_append, List.count_append, count_held, inv.cover n]
  split
  · rename_i less
    exact (List.count_eq_one_of_mem List.nodup_range (List.mem_range.mpr less)).symm
  · rename_i beyond
    exact (List.count_eq_zero_of_not_mem fun mem => beyond (List.mem_range.mp mem)).symm

theorem Inv.shares (inv : Inv s f frees nodes) : frees.length + nodes.length + s.held.length = s.mq.maxMsgs := by
  have length := inv.pool.length_eq
  rw [List.length_append, List.length_append, List.length_range] at length
  exact length

/-- While a task has a node the queue is not all of the pool, and its count does not overflow. -/
theorem Inv.room (inv : Inv s f frees nodes) (here : s.tasks[t]? = some x) (node : x.node = some n) :
    s.mq.entry < RT_MQ_ENTRY_MAX := by
  have mem : n ∈ s.held := List.mem_filterMap.mpr ⟨x, List.mem_of_getElem? here, node⟩
  have some : 0 < s.held.length := List.length_pos_of_mem mem
  have shares := inv.shares
  have small := inv.small
  have entry := inv.entry
  omega

end Pool

/-! ## Linking a message -/

section Link

variable {s : Sys} {f : Fifo} {frees nodes : List Nat} {t n k : Nat} {buffer : List Byte}

/-- The count goes up, whichever way the message has been linked. -/
theorem count_linked {mq : Mq} (less : mq.entry < RT_MQ_ENTRY_MAX) : mq.count = some { mq with entry := mq.entry + 1 } :=
  if_pos less

/-- **`rt_mq_send` puts its message at the end of the queue**. -/
theorem Inv.linkTail (inv : Inv s f frees nodes) (here : s.tasks[t]? = some (.filling n false buffer k)) (whole : ¬ k < buffer.length) :
    Inv (Sys.become t (.idle (some (.eok []))) { s with mq := { s.mq.linkTail n with entry := s.mq.entry + 1 } })
      { f with queue := f.queue ++ [buffer] } frees (nodes ++ [n]) := by
  obtain ⟨offFree, offQueue⟩ := inv.off here rfl
  obtain ⟨-, upTo, bytes, ends⟩ := inv.knows t _ here
  have ends : s.mq.next n = none := ends rfl
  have filled : Holds s.mq.data n buffer := by
    obtain rfl : k = buffer.length := by omega
    rw [Holds, bytes, List.take_length]
  -- the only link that changes is that of the last node, if there is one
  have kept : ∀ j, j ∉ nodes → (s.mq.linkTail n).next j = s.mq.next j := by
    intro j off
    cases tail : s.mq.tail with
    | none => simp only [Mq.linkTail, tail]
    | some l =>
      have mem : l ∈ nodes := List.mem_of_getLast? (inv.tail ▸ tail)
      simp only [Mq.linkTail, tail]
      exact Function.update_of_ne (ne_of_mem_of_not_mem mem off).symm ..
  have moved : Moved s t { s.mq.linkTail n with entry := s.mq.entry + 1 } f { f with queue := f.queue ++ [buffer] } :=
    ⟨rfl, rfl, fun u z j _ there own => ⟨kept j (inv.off there own).2, rfl⟩, fun _ _ => rfl⟩
  refine inv.move here moved ?_ ?_ List.getLast?_concat.symm ?_ ?_ ?_ trivial
  · exact inv.free.congr fun j mem => kept j (inv.free_off mem).2
  · cases tail : s.mq.tail with
    | none =>
      obtain rfl : nodes = [] := List.getLast?_eq_none_iff.mp (inv.tail ▸ tail)
      have head : s.mq.head = none := inv.queue.head
      have single : Chain s.mq.next (some n) [n] := .link (ends ▸ .done)
      simpa only [Mq.linkTail, tail, head, if_true, List.nil_append] using single
    | some l =>
      have last : nodes.getLast? = some l := inv.tail ▸ tail
      have head : s.mq.head ≠ none := fun empty => by
        rw [inv.queue.empty.mp empty] at last
        cases last
      simpa only [Mq.linkTail, tail, head, if_false] using inv.queue.append last offQueue ends
  · change s.mq.entry + 1 = (nodes ++ [n]).length
    rw [inv.entry, List.length_append, List.length_singleton]
  · intro j
    have own : (Task.filling n false buffer k).node = some n := rfl
    have out : (Task.idle (some (.eok []))).node = none := rfl
    rw [List.count_append, count_cons_node, List.count_nil, own, out]
    simp only [reduceCtorEq, if_false]
    omega
  · exact List.rel_append inv.contents (.cons filled .nil)

/-- **`rt_mq_urgent` puts its message at the front**. -/
theorem Inv.linkHead (inv : Inv s f frees nodes) (here : s.tasks[t]? = some (.filling n true buffer k)) (whole : ¬ k < buffer.length) :
    Inv (Sys.become t (.idle (some (.eok []))) { s with mq := { s.mq.linkHead n with entry := s.mq.entry + 1 } })
      { f with queue := buffer :: f.queue } frees (n :: nodes) := by
  obtain ⟨offFree, offQueue⟩ := inv.off here rfl
  obtain ⟨-, upTo, bytes, -⟩ := inv.knows t _ here
  have filled : Holds s.mq.data n buffer := by
    obtain rfl : k = buffer.length := by omega
    rw [Holds, bytes, List.take_length]
  have moved : Moved s t { s.mq.linkHead n with entry := s.mq.entry + 1 } f { f with queue := buffer :: f.queue } := by
    refine ⟨rfl, rfl, fun u z j apart there own => ⟨?_, rfl⟩, fun _ _ => rfl⟩
    refine Function.update_of_ne ?_ ..
    rintro rfl
    exact apart (inv.apart here rfl there own)
  refine inv.move here moved (inv.free.other offFree _) (inv.queue.push offQueue) ?_ ?_ ?_ (.cons filled inv.contents) trivial
  · cases nodes with
    | nil =>
      have tail : s.mq.tail = none := inv.tail
      simp only [Mq.linkHead, tail, if_true]
      rfl
    | cons a rest =>
      have tail : s.mq.tail ≠ none := fun empty => by
        have last := inv.tail ▸ empty
        cases List.getLast?_eq_none_iff.mp last
      rw [List.getLast?_cons_cons]
      simpa only [Mq.linkHead, tail, if_false] using inv.tail
  · change s.mq.entry + 1 = (n :: nodes).length
    rw [inv.entry, List.length_cons]
  · intro j
    have own : (Task.filling n true buffer k).node = some n := rfl
    have out : (Task.idle (some (.eok []))).node = none := rfl
    rw [count_cons_node, own, out]
    simp only [reduceCtorEq, if_false]
    omega

end Link

/-! ## Receiving a message -/

section Receive

variable {s : Sys} {f : Fifo} {frees nodes : List Nat} {t n size : Nat} {x : Task} {got : List Byte}

/-- **`rt_mq_recv` takes the first message**: where the count is not zero the head is not null. -/
theorem Inv.unlink (inv : Inv s f frees nodes) (size : Nat) (here : s.tasks[t]? = some x) (none : x.node = none) (waiting : s.mq.entry ≠ 0) :
    ∃ n nodes' m rest mq', s.mq.unlink = some (n, mq') ∧ f.queue = m :: rest ∧
      Inv (Sys.become t (.draining n size []) { s with mq := mq' }) ⟨rest, Function.update f.received t (some (m, size))⟩
        frees nodes' := by
  obtain ⟨n, nodes', rfl⟩ : ∃ n nodes', nodes = n :: nodes' := by
    cases nodes with
    | nil => exact absurd inv.entry waiting
    | cons n nodes' => exact ⟨n, nodes', rfl⟩
  obtain ⟨m, rest, holds, contents, queue⟩ := List.forall₂_cons_left_iff.mp inv.contents
  have head : s.mq.head = some n := inv.queue.head
  obtain ⟨_, same, chain⟩ := (head ▸ inv.queue).rest
  obtain rfl := (List.cons.inj same).2
  have nodup := (List.nodup_cons.mp inv.queue.nodup).1
  have moved : Moved s t { s.mq with
      head := s.mq.next n
      tail := if s.mq.tail = some n then Option.none else s.mq.tail
      entry := if 0 < s.mq.entry then s.mq.entry - 1 else s.mq.entry } f
      ⟨rest, Function.update f.received t (some (m, size))⟩ :=
    ⟨rfl, rfl, fun _ _ _ _ _ _ => ⟨rfl, rfl⟩, fun u apart => Function.update_of_ne apart ..⟩
  refine ⟨n, nodes', m, rest, _, by rw [Mq.unlink, head]; exact rfl, queue, inv.move here moved inv.free chain ?_ ?_ ?_ contents ?_⟩
  · change (if s.mq.tail = some n then Option.none else s.mq.tail) = nodes'.getLast?
    rw [inv.tail]
    cases nodes' with
    | nil => exact if_pos rfl
    | cons a as =>
      rw [List.getLast?_cons_cons]
      refine if_neg fun last => nodup (List.mem_of_getLast? last)
  · have counted := inv.entry
    rw [List.length_cons] at counted
    change (if 0 < s.mq.entry then s.mq.entry - 1 else s.mq.entry) = nodes'.length
    rw [counted, if_pos (Nat.succ_pos _), Nat.add_sub_cancel]
  · intro j
    have own : (Task.draining n size []).node = some n := rfl
    rw [count_cons_node, own, none]
    simp only [reduceCtorEq, if_false]
    omega
  · exact ⟨m, Function.update_self .., holds, Nat.zero_le _, rfl⟩

/-- **The node goes back when its message has been copied**; what has been copied is as
long as asked and agrees with the message. -/
theorem Inv.giveBack (inv : Inv s f frees nodes) (here : s.tasks[t]? = some (.draining n size got))
    (whole : ¬ got.length < min size s.mq.msgSize) :
    ∃ f', Fifo.step s.mq.msgSize (.got t got) f = some f' ∧
      Inv (Sys.become t (.idle (some (.eok got))) { s with mq := s.mq.giveBack n }) f' (n :: frees) nodes := by
  obtain ⟨offFree, offQueue⟩ := inv.off here rfl
  obtain ⟨m, received, holds, upTo, copied⟩ := inv.knows t _ here
  have length : got.length = min size s.mq.msgSize := by omega
  have agree : got.take m.length = m.take got.length := by
    have holds : Mem.read (s.mq.data n) 0 m.length = m := holds
    rw [copied]
    conv_rhs => rw [← holds]
    simp only [Mem.read, ← List.map_take, List.take_range, List.length_map, List.length_range, Nat.min_comm]
  refine ⟨{ f with received := Function.update f.received t none }, ?_, ?_⟩
  · simp only [Fifo.step, received]
    exact if_pos ⟨length, agree⟩
  · have moved : Moved s t (s.mq.giveBack n) f { f with received := Function.update f.received t none } := by
      refine ⟨rfl, rfl, fun u z j apart there own => ⟨?_, rfl⟩, fun u apart => Function.update_of_ne apart ..⟩
      refine Function.update_of_ne ?_ ..
      rintro rfl
      exact apart (inv.apart here rfl there own)
    refine inv.move here moved (inv.free.push offFree) (inv.queue.other offQueue _) inv.tail inv.entry ?_ inv.contents trivial
    intro j
    have own : (Task.draining n size got).node = some n := rfl
    have out : (Task.idle (some (.eok got))).node = none := rfl
    rw [count_cons_node, own, out]
    simp only [reduceCtorEq, if_false]
    omega

end Receive

end OffLineProgrammer.Kernel
