import InternPool.Handle
import InternPool.Options
import InternPool.Text.Hex

namespace InternPool

inductive Event where
  | created (shards slots arenaChunkSize : UInt64)
  | initializing
  | configured (options : Options)
  | canonicalized (length : Nat) (hash : UInt64) (shard : Nat)
deriving Repr, DecidableEq

namespace Event

def level : Event → String
  | .canonicalized _ _ _ => "trace"
  | _ => "debug"

def message : Event → String
  | .created shards slots arenaChunkSize =>
    "created intern table: " ++ toString shards.toNat ++ " shards, " ++ toString slots.toNat ++
      " slots and " ++ toString arenaChunkSize.toNat ++ " arena bytes each"
  | .initializing => "initializing global intern table with default options"
  | .configured options => "configured global intern table: " ++ options.inspect
  | .canonicalized length hash shard =>
    "canonicalized " ++ toString length ++ " bytes (hash 0x" ++ Text.hexWord hash ++ ") in shard " ++
      toString shard

end Event

-- `store` has what stands in the buffers handed out so far, by their numbers; nothing is taken out of
-- it. `log` has the latest event first.
structure Process where
  store : Array Bytes := #[]
  log : List Event := []
deriving Repr, DecidableEq, Inhabited

def copyOver (memory content : Bytes) : Bytes :=
  content ++ memory.drop content.length

namespace Process

def record (process : Process) (event : Event) : Process :=
  { process with log := event :: process.log }

def buffers (process : Process) : Nat :=
  process.store.size

def read? (process : Process) (number : Nat) : Option Bytes :=
  process.store[number]?

-- A buffer is filled with zeros before the content is copied over their front.
def buffer (process : Process) (content : Bytes) : Buffer :=
  ⟨process.buffers, copyOver (List.replicate (content.length + 1) 0) content⟩

def allocated (process : Process) (content : Bytes) : Process :=
  { process with store := process.store.push (process.buffer content).bytes }

def quiet (process : Process) : Process :=
  { process with log := [] }

@[simp] theorem bytes_buffer (process : Process) (content : Bytes) :
    (process.buffer content).bytes = content ++ [0] := by
  simp [buffer, copyOver]

@[simp] theorem content_buffer (process : Process) (content : Bytes) (hash : UInt64) :
    (Handle.mk (process.buffer content) hash).content = content := by
  simp [Handle.content, Handle.length]

@[simp] theorem buffers_record (process : Process) (event : Event) :
    (process.record event).buffers = process.buffers := rfl

@[simp] theorem buffers_allocated (process : Process) (content : Bytes) :
    (process.allocated content).buffers = process.buffers + 1 := by
  simp [allocated, buffers]

def Retains (process later : Process) : Prop :=
  ∀ number bytes, process.read? number = some bytes → later.read? number = some bytes

variable {process middle later : Process} {number : Nat} {bytes : Bytes}

theorem lt_buffers (stored : process.read? number = some bytes) : number < process.buffers :=
  (Array.getElem?_eq_some_iff.mp stored).1

theorem read?_allocated (process : Process) (content : Bytes) :
    (process.allocated content).read? process.buffers = some (content ++ [0]) := by
  simp [allocated, read?, buffers]

theorem Retains.refl (process : Process) : process.Retains process :=
  fun _ _ stored => stored

theorem Retains.trans (first : process.Retains middle) (second : middle.Retains later) :
    process.Retains later :=
  fun number bytes stored => second number bytes (first number bytes stored)

theorem retains_store (same : later.store = process.store) : process.Retains later := by
  intro number bytes stored
  rwa [read?, same]

theorem retains_allocated (process : Process) (content : Bytes) :
    process.Retains (process.allocated content) := by
  intro number bytes stored
  have older : number ≠ process.store.size := Nat.ne_of_lt (lt_buffers stored)
  rw [read?, allocated, Array.getElem?_push, if_neg older]
  exact stored

end Process

end InternPool
