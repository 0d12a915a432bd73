namespace InternPool

structure Options where
  shards : UInt64 := 64
  initialCapacity : UInt64 := 4096
  arenaChunkSize : UInt64 := 16384
  hashSeed : UInt64 := 0
deriving Repr, DecidableEq, Inhabited

inductive Refusal where
  | alreadyInitialized
  | invalidShardCount (shards : UInt64)
  | initialCapacityTooLarge (capacity : UInt64)
  | arenaChunkTooLarge (size : UInt64)
deriving Repr, DecidableEq

namespace Options

def maxShards : UInt64 := 1024
def maxInitialCapacity : UInt64 := 16777216
def maxArenaChunkSize : UInt64 := 67108864

-- A power of two has one bit: taking one away leaves none of it.
def isPowerOfTwo (n : UInt64) : Bool :=
  n != 0 && n &&& (n - 1) == 0

def validate (options : Options) : Except Refusal Unit :=
  if !isPowerOfTwo options.shards || maxShards < options.shards then
    .error (.invalidShardCount options.shards)
  else if maxInitialCapacity < options.initialCapacity then
    .error (.initialCapacityTooLarge options.initialCapacity)
  else if maxArenaChunkSize < options.arenaChunkSize then
    .error (.arenaChunkTooLarge options.arenaChunkSize)
  else .ok ()

-- The room of each shard's index: the capacity shared out, rounded up.
def slots (options : Options) : UInt64 :=
  let share := options.initialCapacity / options.shards
  if options.initialCapacity % options.shards = 0 then share else share + 1

def inspect (options : Options) : String :=
  "TableOptions \x7b shards: " ++ toString options.shards.toNat ++
    ", initial_capacity: " ++ toString options.initialCapacity.toNat ++
    ", arena_chunk_size: " ++ toString options.arenaChunkSize.toNat ++
    ", hash_seed: " ++ toString options.hashSeed.toNat ++ " \x7d"

end Options

namespace Refusal

def message : Refusal → String
  | .alreadyInitialized => "the global intern table is already initialized"
  | .invalidShardCount shards =>
    "shard count must be a power of two between 1 and " ++ toString Options.maxShards.toNat ++
      ", got " ++ toString shards.toNat
  | .initialCapacityTooLarge capacity =>
    "initial capacity must be at most " ++ toString Options.maxInitialCapacity.toNat ++
      ", got " ++ toString capacity.toNat
  | .arenaChunkTooLarge size =>
    "arena chunk size must be at most " ++ toString Options.maxArenaChunkSize.toNat ++
      " bytes, got " ++ toString size.toNat

def inspect : Refusal → String
  | .alreadyInitialized => "AlreadyInitialized"
  | .invalidShardCount shards => "InvalidShardCount(" ++ toString shards.toNat ++ ")"
  | .initialCapacityTooLarge capacity =>
    "InitialCapacityTooLarge(" ++ toString capacity.toNat ++ ")"
  | .arenaChunkTooLarge size => "ArenaChunkTooLarge(" ++ toString size.toNat ++ ")"

end Refusal

end InternPool
