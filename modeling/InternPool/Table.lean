import InternPool.Hash.Content
import InternPool.Shard
import InternPool.Utf8.Repair

namespace InternPool

structure Table where
  shards : List Shard
  mask : UInt64
  hasher : ContentHasher

structure Table.Entered where
  handle : Handle
  table : Table
  process : Process

-- Bytes are repaired first, a text is well formed.
inductive Call where
  | intern (bytes : Bytes)
  | internText (text : String)
  | get (bytes : Bytes)
  | getText (text : String)
deriving Repr, DecidableEq

namespace Call

def content : Call → Bytes
  | .intern bytes | .get bytes => (Utf8.repair bytes).value
  | .internText text | .getText text => Utf8.ofText text

def interns : Call → Bool
  | .intern _ | .internText _ => true
  | .get _ | .getText _ => false

end Call

namespace Table

variable [ContentHash]

def build (options : Options) : Table where
  shards := List.replicate options.shards.toNat .empty
  mask := options.shards - 1
  hasher := ⟨options.hashSeed⟩

def creation (options : Options) : Event :=
  .created options.shards options.slots options.arenaChunkSize

def withOptions (options : Options) : Except Refusal Table :=
  match options.validate with
  | .ok () => .ok (build options)
  | .error refusal => .error refusal

-- The count of shards is a power of two, so the mask takes the remainder.
def shardOf (table : Table) (hash : UInt64) : Nat :=
  (hash >>> 32 &&& table.mask).toNat

def shard (table : Table) (number : Nat) : Shard :=
  table.shards.getD number .empty

def probe (table : Table) (hash : UInt64) (content : Bytes) : Option Handle :=
  (table.shard (table.shardOf hash)).find? hash content

def enter (table : Table) (process : Process) (hash : UInt64) (content : Bytes) : Entered :=
  let number := table.shardOf hash
  let entered := (table.shard number).enter process number hash content
  { handle := entered.handle
    table := { table with shards := table.shards.set number entered.shard }
    process := entered.process }

def internContent (table : Table) (process : Process) (content : Bytes) : Entered :=
  let hash := table.hasher.hash content
  match table.probe hash content with
  | some handle => ⟨handle, table, process⟩
  | none => table.enter process hash content

def getContent (table : Table) (content : Bytes) : Option Handle :=
  table.probe (table.hasher.hash content) content

def intern (table : Table) (process : Process) (bytes : Bytes) : Entered :=
  table.internContent process (Utf8.repair bytes).value

def internText (table : Table) (process : Process) (text : String) : Entered :=
  table.internContent process (Utf8.ofText text)

def get (table : Table) (bytes : Bytes) : Option Handle :=
  table.getContent (Utf8.repair bytes).value

def getText (table : Table) (text : String) : Option Handle :=
  table.getContent (Utf8.ofText text)

end Table

structure Table.Called where
  handle : Option Handle
  table : Table
  process : Process

def Table.call [ContentHash] (table : Table) (process : Process) (call : Call) : Table.Called :=
  if call.interns then
    let entered := table.internContent process call.content
    ⟨some entered.handle, entered.table, entered.process⟩
  else ⟨table.getContent call.content, table, process⟩

namespace Table

variable [ContentHash]

theorem call_intern (table : Table) (process : Process) (bytes : Bytes) :
    table.call process (.intern bytes) =
      ⟨some (table.intern process bytes).handle, (table.intern process bytes).table,
        (table.intern process bytes).process⟩ := rfl

theorem call_internText (table : Table) (process : Process) (text : String) :
    table.call process (.internText text) =
      ⟨some (table.internText process text).handle, (table.internText process text).table,
        (table.internText process text).process⟩ := rfl

theorem call_get (table : Table) (process : Process) (bytes : Bytes) :
    table.call process (.get bytes) = ⟨table.get bytes, table, process⟩ := rfl

theorem call_getText (table : Table) (process : Process) (text : String) :
    table.call process (.getText text) = ⟨table.getText text, table, process⟩ := rfl

end Table

end InternPool
