import InternPool.Proofs.Table.Observed
import InternPool.Proofs.Table.Sharding

namespace InternPool

namespace Options

variable [ContentHash]

def hasher (options : Options) : ContentHasher :=
  ⟨options.hashSeed⟩

def placeOf (options : Options) (content : Bytes) : Nat :=
  (options.hasher.hash content >>> 32).toNat % options.shards.toNat

def spread (options : Options) (contents : List Bytes) : List Nat :=
  (List.range options.shards.toNat).map fun number => contents.countP (options.placeOf · == number)

end Options

-- With shards numbered from `first` on and every handle in the shard of its place, a shard holds the
-- handles that have its place.
theorem Shards.countP_entries {shards : List Shard} {place : Handle → Nat} {first : Nat}
    (placed : ∀ number shard, shards[number]? = some shard →
      ∀ handle ∈ shard.entries, place handle = first + number)
    (number : Nat) :
    (entries shards).countP (place · == first + number) =
      (shards.getD number .empty).entries.length := by
  induction shards generalizing first number with
  | nil => rfl
  | cons shard rest ih =>
    have here := placed 0 shard rfl
    have further : ∀ number other, rest[number]? = some other →
        ∀ handle ∈ other.entries, place handle = first + 1 + number := by
      intro number other found handle member
      rw [placed (number + 1) other found handle member, Nat.add_assoc, Nat.add_comm 1]
    rw [entries, List.flatMap_cons, List.countP_append]
    cases number with
    | zero =>
      have elsewhere : (entries rest).countP (place · == first) = 0 := by
        rw [List.countP_eq_zero]
        intro handle member
        obtain ⟨other, present, holds⟩ := List.mem_flatMap.mp member
        obtain ⟨number, found⟩ := List.mem_iff_getElem?.mp present
        rw [further number other found handle holds, beq_iff_eq]
        omega
      have whole : shard.entries.countP (place · == first) = shard.entries.length := by
        rw [List.countP_eq_length]
        intro handle member
        rw [here handle member, beq_iff_eq, Nat.add_zero]
      rw [Nat.add_zero, whole, ← entries, elsewhere]
      rfl
    | succ number =>
      have elsewhere : shard.entries.countP (place · == first + (number + 1)) = 0 := by
        rw [List.countP_eq_zero]
        intro handle member
        rw [here handle member, beq_iff_eq, Nat.add_zero]
        omega
      have shifted : first + (number + 1) = first + 1 + number := by omega
      rw [elsewhere, Nat.zero_add, shifted, ← entries, ih further]
      rfl

namespace Table

theorem shardLengths_eq (table : Table) :
    table.shardLengths =
      (List.range table.shards.length).map fun number => (table.shard number).entries.length := by
  have lengths := congrArg Shards.lengths table.shards_eq
  rw [Shards.lengths, Shards.lengths, List.map_map] at lengths
  exact lengths

variable [ContentHash] {table : Table} {options : Options} {buffers : Nat} {contents : List Bytes}

theorem Valid.length_shard (valid : table.Valid buffers) (number : Nat) :
    (table.shard number).entries.length =
      table.entries.countP (fun handle => table.shardOf handle.hash == number) := by
  have placed : ∀ place shard, table.shards[place]? = some shard →
      ∀ handle ∈ shard.entries, table.shardOf handle.hash = 0 + place := by
    intro place shard found handle member
    obtain ⟨inside, rfl⟩ := List.getElem?_eq_some_iff.mp found
    rw [Nat.zero_add]
    exact valid.placed place handle (by rwa [shard_of_lt inside])
  have counted := Shards.countP_entries placed number
  rw [Nat.zero_add] at counted
  exact counted.symm

-- What a table with such options tells of contents that it holds, each once.
structure Tallies (table : Table) (options : Options) (contents : List Bytes) : Prop where
  length : table.length = contents.length
  isEmpty : table.isEmpty = contents.isEmpty
  stats : table.stats =
    ⟨contents.length, total (contents.map (·.length + 1)), options.shards.toNat⟩
  shardLengths : table.shardLengths = options.spread contents
  entries : (table.entries.map fun handle => (handle.content, handle.hash)).Perm
    (contents.map fun content => (content, options.hasher.hash content))

theorem Valid.hashed (valid : table.Valid buffers) (shaped : table.Shaped options)
    {handle : Handle} (member : handle ∈ table.entries) :
    handle.hash = options.hasher.hash handle.content := by
  rw [(valid.canonical handle member).hashed, shaped.hasher]
  rfl

theorem Valid.placeOf (valid : table.Valid buffers) (shaped : table.Shaped options)
    (accepted : options.validate = .ok ()) {handle : Handle} (member : handle ∈ table.entries) :
    table.shardOf handle.hash = options.placeOf handle.content := by
  rw [shaped.shardOf accepted, valid.hashed shaped member]
  rfl

theorem Valid.tallies (valid : table.Valid buffers) (shaped : table.Shaped options)
    (accepted : options.validate = .ok ())
    (holds : (table.entries.map Handle.content).Perm contents) :
    table.Tallies options contents := by
  have size : table.entries.length = contents.length := by
    rw [← holds.length_eq, List.length_map]
  have bytes := total_perm (holds.map (·.length + 1))
  rw [List.map_map] at bytes
  refine ⟨?_, ?_, ?_, ?_, ?_⟩
  · rw [length_entries, size]
  · rw [isEmpty, length_entries, size]
    cases contents <;> rfl
  · rw [valid.stats_entries, size, ← bytes, shaped.shards]
    rfl
  · rw [shardLengths_eq, shaped.shards, Options.spread]
    apply List.map_congr_left
    intro number _
    rw [valid.length_shard, ← holds.countP_eq, List.countP_map]
    apply List.countP_congr
    intro handle member
    rw [valid.placeOf shaped accepted member]
    rfl
  · have pairs := holds.map fun content => (content, options.hasher.hash content)
    rw [List.map_map] at pairs
    refine List.Perm.trans (List.Perm.of_eq ?_) pairs
    apply List.map_congr_left
    intro handle member
    rw [valid.hashed shaped member]
    rfl

end Table

end InternPool
