import InternPool.Table

namespace InternPool

-- The bytes that the allocator holds for a table are its own to count and are left out.
structure Stats where
  entries : Nat
  contentBytes : Nat
  shards : Nat
deriving Repr, DecidableEq

def total (counts : List Nat) : Nat :=
  counts.foldr (fun count sum => count + sum) 0

namespace Shards

def length (shards : List Shard) : Nat :=
  total (shards.map (·.entries.length))

def lengths (shards : List Shard) : List Nat :=
  shards.map (·.entries.length)

def contentBytes (shards : List Shard) : Nat :=
  total (shards.map (·.contentBytes))

def entries (shards : List Shard) : List Handle :=
  shards.flatMap (·.entries)

def stats (shards : List Shard) : Stats :=
  ⟨length shards, contentBytes shards, shards.length⟩

end Shards

namespace Table

def length (table : Table) : Nat := Shards.length table.shards

def isEmpty (table : Table) : Bool := table.length == 0

def shardLengths (table : Table) : List Nat := Shards.lengths table.shards

def entries (table : Table) : List Handle := Shards.entries table.shards

def stats (table : Table) : Stats := Shards.stats table.shards

def inspect (table : Table) : String :=
  "InternTable \x7b shards: " ++ toString table.shards.length ++
    ", entries: " ++ toString table.length ++ ", hasher: " ++ table.hasher.inspect ++ " \x7d"

end Table

end InternPool
