import InternPool.Utf8.Scalar

namespace InternPool

inductive Progress (π α : Type) where
  | pending (left : π)
  | ended (answer : α)
deriving Repr, DecidableEq

structure Section.Left (σ π α : Type) where
  shared : σ
  progress : Progress π α

-- A call is cut into the sections of its code that have what they touch to themselves.
structure Sections (σ κ π α : Type) where
  first : σ → κ → Section.Left σ π α
  later : σ → π → Section.Left σ π α

structure Pending (κ π : Type) where
  call : κ
  began : Nat
  left : π
deriving Repr, DecidableEq

structure Thread (κ π : Type) where
  todo : List κ
  pending : Option (Pending κ π) := none
deriving Repr, DecidableEq

structure Ended (κ α : Type) where
  thread : Nat
  call : κ
  answer : α
  began : Nat
  ended : Nat
deriving Repr, DecidableEq

-- `ended` has the call that ended last first.
structure Threads (σ κ π α : Type) where
  shared : σ
  threads : List (Thread κ π)
  clock : Nat := 0
  ended : List (Ended κ α) := []
deriving Repr, DecidableEq

namespace Threads

variable {σ κ π α : Type}

def start (shared : σ) (calls : List (List κ)) : Threads σ κ π α :=
  { shared, threads := calls.map fun todo => { todo } }

def after (state : Threads σ κ π α) (number : Nat) (rest : List κ) (call : κ) (began : Nat)
    (left : Section.Left σ π α) : Threads σ κ π α :=
  match left.progress with
  | .pending further =>
    { shared := left.shared
      threads := state.threads.set number ⟨rest, some ⟨call, began, further⟩⟩
      clock := state.clock + 1
      ended := state.ended }
  | .ended answer =>
    { shared := left.shared
      threads := state.threads.set number ⟨rest, none⟩
      clock := state.clock + 1
      ended := ⟨number, call, answer, began, state.clock⟩ :: state.ended }

def advance (sections : Sections σ κ π α) (state : Threads σ κ π α) (number : Nat) :
    Option (Threads σ κ π α) :=
  match state.threads[number]? with
  | none => none
  | some ⟨rest, some pending⟩ =>
    some (state.after number rest pending.call pending.began
      (sections.later state.shared pending.left))
  | some ⟨call :: rest, none⟩ =>
    some (state.after number rest call state.clock (sections.first state.shared call))
  | some ⟨[], none⟩ => none

-- A turn of a thread that has nothing to do is skipped.
def run (sections : Sections σ κ π α) (state : Threads σ κ π α) (schedule : List Nat) :
    Threads σ κ π α :=
  schedule.foldl (fun state number => (state.advance sections number).getD state) state

def isOver (state : Threads σ κ π α) : Bool :=
  state.threads.all fun thread => thread.todo.isEmpty && thread.pending.isNone

inductive Step (sections : Sections σ κ π α) :
    Threads σ κ π α → Nat → Threads σ κ π α → Prop where
  | first {state : Threads σ κ π α} {number : Nat} {call : κ} {rest : List κ}
      (next : state.threads[number]? = some ⟨call :: rest, none⟩) :
      Step sections state number
        (state.after number rest call state.clock (sections.first state.shared call))
  | later {state : Threads σ κ π α} {number : Nat} {pending : Pending κ π} {rest : List κ}
      (waiting : state.threads[number]? = some ⟨rest, some pending⟩) :
      Step sections state number
        (state.after number rest pending.call pending.began
          (sections.later state.shared pending.left))

inductive Runs (sections : Sections σ κ π α) : Threads σ κ π α → Threads σ κ π α → Prop where
  | nil {state : Threads σ κ π α} : Runs sections state state
  | step {before middle after : Threads σ κ π α} {number : Nat} (path : Runs sections before middle)
      (next : Step sections middle number after) : Runs sections before after

variable {sections : Sections σ κ π α}

theorem advance_exact {before after : Threads σ κ π α} {number : Nat} :
    before.advance sections number = some after ↔ Step sections before number after := by
  constructor
  · intro ran
    unfold advance at ran
    split at ran
    · cases ran
    · rename_i waiting
      cases ran
      exact .later waiting
    · rename_i next
      cases ran
      exact .first next
    · cases ran
  · intro step
    cases step with
    | first next => simp [advance, next]
    | later waiting => simp [advance, waiting]

theorem Runs.append {before middle after : Threads σ κ π α} (left : Runs sections before middle)
    (right : Runs sections middle after) : Runs sections before after := by
  induction right with
  | nil => exact left
  | step _ next ih => exact .step ih next

theorem run_runs (state : Threads σ κ π α) (schedule : List Nat) :
    Runs sections state (state.run sections schedule) := by
  induction schedule generalizing state with
  | nil => exact .nil
  | cons number rest ih =>
    rw [run, List.foldl_cons]
    cases ran : state.advance sections number with
    | none => exact ih state
    | some next => exact (Runs.step .nil (advance_exact.mp ran)).append (ih next)

end Threads

end InternPool
