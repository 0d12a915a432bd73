import Mathlib.Data.List.Perm.Basic
import InternPool.Proofs.Concurrent.Linear

namespace InternPool

variable {σ κ π α : Type}

namespace Threads

variable {sections : Sections σ κ π α} {before next state : Threads σ κ π α} {number : Nat}

def waiting (state : Threads σ κ π α) : List (Pending κ π) :=
  state.threads.filterMap Thread.pending

def others (state : Threads σ κ π α) (number : Nat) : List (Pending κ π) :=
  (state.threads.eraseIdx number).filterMap Thread.pending

structure Alone (state : Threads σ κ π α) (last : Ended κ α) : Prop where
  ended : ∀ other ∈ state.ended, other ≠ last →
    other.ended < last.began ∨ last.ended < other.began
  waiting : ∀ pending ∈ state.waiting, last.ended < pending.began

theorem mem_waiting {pending : Pending κ π} :
    pending ∈ state.waiting ↔ ∃ thread ∈ state.threads, thread.pending = some pending :=
  List.mem_filterMap

theorem waiting_set {thread : Thread κ π} (inside : number < state.threads.length) :
    ((state.threads.set number thread).filterMap Thread.pending).Perm
      (thread.pending.toList ++ state.others number) := by
  have split := (List.set_perm_cons_eraseIdx inside thread).filterMap Thread.pending
  rw [List.filterMap_cons] at split
  cases waits : thread.pending with
  | none =>
    rw [waits] at split
    exact split
  | some pending =>
    rw [waits] at split
    exact split

theorem waiting_found {thread : Thread κ π} (found : state.threads[number]? = some thread) :
    state.waiting.Perm (thread.pending.toList ++ state.others number) := by
  obtain ⟨inside, rfl⟩ := List.getElem?_eq_some_iff.mp found
  have split : ((state.threads.set number state.threads[number]).filterMap Thread.pending).Perm
      (state.threads[number].pending.toList ++ state.others number) := waiting_set inside
  rwa [List.set_getElem_self] at split

theorem waiting_after {thread : Thread κ π} (found : state.threads[number]? = some thread)
    (rest : List κ) (call : κ) (began : Nat) (left : Section.Left σ π α) :
    match left.progress with
    | .pending further =>
      (state.after number rest call began left).waiting.Perm
          (⟨call, began, further⟩ :: state.others number) ∧
        (state.after number rest call began left).ended = state.ended
    | .ended answer =>
      (state.after number rest call began left).waiting.Perm (state.others number) ∧
        (state.after number rest call began left).ended =
          ⟨number, call, answer, began, state.clock⟩ :: state.ended := by
  have inside := (List.getElem?_eq_some_iff.mp found).1
  rw [after]
  cases left.progress with
  | pending further => exact ⟨waiting_set inside, rfl⟩
  | ended answer => exact ⟨waiting_set inside, rfl⟩

theorem ended_after (state : Threads σ κ π α) (number : Nat) (rest : List κ) (call : κ)
    (began : Nat) (left : Section.Left σ π α) :
    state.ended ⊆ (state.after number rest call began left).ended := by
  rw [after]
  split
  · exact List.Subset.refl state.ended
  · exact List.subset_cons_self _ _

theorem after_shared (state : Threads σ κ π α) (number : Nat) (rest : List κ) (call : κ)
    (began : Nat) (left : Section.Left σ π α) :
    (state.after number rest call began left).shared = left.shared := by
  rw [after]
  split <;> rfl

theorem after_clock (state : Threads σ κ π α) (number : Nat) (rest : List κ) (call : κ)
    (began : Nat) (left : Section.Left σ π α) :
    (state.after number rest call began left).clock = state.clock + 1 := by
  rw [after]
  split <;> rfl

theorem mem_ended_after (state : Threads σ κ π α) (rest : List κ) (call : κ) (began : Nat)
    {left : Section.Left σ π α} {answer : α} (ended : left.progress = .ended answer) :
    ⟨number, call, answer, began, state.clock⟩ ∈
      (state.after number rest call began left).ended := by
  rw [after, ended]
  exact List.mem_cons_self

theorem isOver_waiting (finished : state.isOver = true) : state.waiting = [] := by
  rw [waiting, List.filterMap_eq_nil_iff]
  intro thread member
  have idle := List.all_eq_true.mp finished thread member
  rw [Bool.and_eq_true, Option.isNone_iff_eq_none] at idle
  exact idle.2

end Threads

end InternPool
