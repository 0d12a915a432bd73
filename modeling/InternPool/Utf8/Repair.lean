import InternPool.Utf8.Decoder
import InternPool.Utf8.Scan

namespace InternPool.Utf8

def replacement : Bytes := [0xEF, 0xBF, 0xBD]

-- Where a repair stands: `rest` is the input from offset `copied` on, and `runs` are the runs
-- between the faults before it, the latest first.
structure Mending where
  copied : Nat
  rest : Bytes
  runs : List Bytes
deriving Repr, DecidableEq

namespace Mending

def start (bytes : Bytes) : Mending := ⟨0, bytes, []⟩

def advance (mending : Mending) : Option Mending :=
  match scan mending.copied mending.rest with
  | none => none
  | some fault =>
    some
      { copied := fault.next
        rest := mending.rest.drop (fault.next - mending.copied)
        runs := mending.rest.take (fault.offset - mending.copied) :: mending.runs }

theorem advance_shorter {before after : Mending} (ran : before.advance = some after) :
    after.rest.length < before.rest.length := by
  unfold advance at ran
  split at ran
  · cases ran
  · rename_i fault found
    cases ran
    have := scan_bounds found
    simp only [List.length_drop, Fault.next] at *
    omega

def finish (mending : Mending) : List Bytes :=
  match _ : mending.advance with
  | some next => next.finish
  | none => (mending.rest :: mending.runs).reverse
termination_by mending.rest.length
decreasing_by exact advance_shorter ‹_›

end Mending

inductive Repaired (α : Type) where
  | kept (value : α)
  | rebuilt (value : α)
deriving Repr, DecidableEq

namespace Repaired

variable {α β : Type}

def value : Repaired α → α
  | .kept value => value
  | .rebuilt value => value

def isKept : Repaired α → Bool
  | .kept _ => true
  | .rebuilt _ => false

def map (f : α → β) : Repaired α → Repaired β
  | .kept value => .kept (f value)
  | .rebuilt value => .rebuilt (f value)

end Repaired

def repair (bytes : Bytes) : Repaired Bytes :=
  match (Mending.start bytes).advance with
  | none => .kept bytes
  | some first => .rebuilt (replacement.intercalate first.finish)

def repairText (bytes : Bytes) : Repaired String :=
  (repair bytes).map text

end InternPool.Utf8
