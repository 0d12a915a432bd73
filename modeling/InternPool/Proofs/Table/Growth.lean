import Mathlib.Data.List.Forall2
import InternPool.Proofs.Table.Observed

namespace InternPool

structure Shard.Extends (old new : Shard) : Prop where
  entries : old.entries <:+ new.entries
  contentBytes : old.contentBytes ≤ new.contentBytes

theorem Shard.Extends.refl (shard : Shard) : shard.Extends shard :=
  ⟨List.suffix_refl _, Nat.le_refl _⟩

theorem Shard.Extends.trans {old middle new : Shard} (first : old.Extends middle)
    (second : middle.Extends new) : old.Extends new :=
  ⟨first.entries.trans second.entries, Nat.le_trans first.contentBytes second.contentBytes⟩

theorem total_le {left right : List Nat} (below : List.Forall₂ (· ≤ ·) left right) :
    total left ≤ total right := by
  induction below with
  | nil => exact Nat.le_refl _
  | cons here _ ih => exact Nat.add_le_add here ih

namespace Table

variable {old middle new : Table} {handle : Handle} {content : Bytes} {buffers : Nat}

structure Extends (old new : Table) : Prop where
  hasher : new.hasher = old.hasher
  mask : new.mask = old.mask
  count : new.shards.length = old.shards.length
  shards : ∀ number, (old.shard number).Extends (new.shard number)

-- The table has one handle more, in one shard; all other shards are as they were.
structure Gains (old new : Table) (handle : Handle) : Prop where
  hasher : new.hasher = old.hasher
  mask : new.mask = old.mask
  count : new.shards.length = old.shards.length
  picked : (new.shard (old.shardOf handle.hash)).entries =
    handle :: (old.shard (old.shardOf handle.hash)).entries
  counted : (new.shard (old.shardOf handle.hash)).contentBytes =
    (old.shard (old.shardOf handle.hash)).contentBytes + handle.buffer.bytes.length
  others : ∀ number, number ≠ old.shardOf handle.hash → new.shard number = old.shard number

theorem Extends.refl (table : Table) : table.Extends table :=
  ⟨rfl, rfl, rfl, fun number => .refl (table.shard number)⟩

theorem Extends.trans (first : old.Extends middle) (second : middle.Extends new) :
    old.Extends new where
  hasher := second.hasher.trans first.hasher
  mask := second.mask.trans first.mask
  count := second.count.trans first.count
  shards number := (first.shards number).trans (second.shards number)

theorem Gains.extends (gains : old.Gains new handle) : old.Extends new := by
  refine ⟨gains.hasher, gains.mask, gains.count, ?_⟩
  intro number
  by_cases picked : number = old.shardOf handle.hash
  · subst picked
    refine ⟨?_, ?_⟩
    · rw [gains.picked]
      exact List.suffix_cons _ _
    · rw [gains.counted]
      exact Nat.le_add_right _ _
  · rw [gains.others number picked]
    exact .refl _

theorem Extends.counts_le (grown : old.Extends new) {count : Shard → Nat}
    (rises : ∀ {before after : Shard}, before.Extends after → count before ≤ count after) :
    List.Forall₂ (· ≤ ·) (old.shards.map count) (new.shards.map count) := by
  rw [old.shards_eq, new.shards_eq, grown.count]
  simp only [List.map_map, List.forall₂_map_left_iff, List.forall₂_map_right_iff,
    List.forall₂_same]
  intro number _
  exact rises (grown.shards number)

theorem Extends.lengths_le (grown : old.Extends new) :
    List.Forall₂ (· ≤ ·) old.shardLengths new.shardLengths :=
  grown.counts_le fun further => further.entries.length_le

theorem Extends.length_le (grown : old.Extends new) : old.length ≤ new.length :=
  total_le grown.lengths_le

theorem Extends.contentBytes_le (grown : old.Extends new) :
    old.stats.contentBytes ≤ new.stats.contentBytes :=
  total_le (grown.counts_le fun further => further.contentBytes)

variable [ContentHash]

theorem Valid.gains_add (valid : old.Valid buffers) (handle : Handle) :
    old.Gains (old.add handle) handle := by
  have placed := shard_add (valid.inside handle.hash)
  refine ⟨rfl, rfl, ?_, ?_, ?_, ?_⟩
  · rw [Table.add, List.length_set]
  · rw [placed, if_pos rfl]
    rfl
  · rw [placed, if_pos rfl]
    rfl
  · intro number elsewhere
    rw [placed, if_neg elsewhere]

theorem Valid.enter_extends (valid : old.Valid buffers) (process : Process) (content : Bytes) :
    old.Extends (old.enter process (old.hasher.hash content) content).table := by
  rcases valid.enter_cases process content with ⟨winner, _, _, entered⟩ | ⟨_, entered⟩
  · rw [entered]
    exact .refl old
  · rw [entered]
    exact (valid.gains_add _).extends

end Table

end InternPool
