import InternPool.Proofs.Table.Valid

namespace InternPool

theorem total_append (left right : List Nat) : total (left ++ right) = total left + total right := by
  induction left with
  | nil => simp [total]
  | cons count rest ih =>
    simp only [total, List.cons_append, List.foldr_cons] at ih ⊢
    rw [ih, Nat.add_assoc]

theorem total_perm {left right : List Nat} (same : left.Perm right) : total left = total right := by
  apply same.foldr_eq'
  intro one _ other _ sum
  exact Nat.add_left_comm other one sum

theorem total_ones {α : Type} (list : List α) : total (list.map fun _ => 1) = list.length := by
  induction list with
  | nil => rfl
  | cons _ rest ih =>
    rw [List.map_cons, total, List.foldr_cons, List.length_cons, ← ih, total, Nat.add_comm]

theorem total_entries (shards : List Shard) (count : Handle → Nat) :
    total ((Shards.entries shards).map count) =
      total (shards.map fun shard => total (shard.entries.map count)) := by
  induction shards with
  | nil => rfl
  | cons shard rest ih =>
    rw [Shards.entries, List.flatMap_cons, List.map_append, total_append, List.map_cons]
    rw [Shards.entries] at ih
    rw [ih]
    rfl

theorem Shards.length_entries (shards : List Shard) :
    Shards.length shards = (Shards.entries shards).length := by
  rw [Shards.length, ← total_ones (Shards.entries shards), total_entries]
  simp only [total_ones]

theorem Shards.contentBytes_entries {shards : List Shard}
    (counted : ∀ shard ∈ shards,
      shard.contentBytes = total (shard.entries.map (·.content.length + 1))) :
    Shards.contentBytes shards = total ((Shards.entries shards).map (·.content.length + 1)) := by
  rw [Shards.contentBytes, total_entries]
  congr 1
  apply List.map_congr_left
  intro shard member
  exact counted shard member

namespace Table

variable {table : Table} {buffers : Nat}

theorem length_entries (table : Table) : table.length = table.entries.length :=
  Shards.length_entries table.shards

theorem shardLengths_total (table : Table) : total table.shardLengths = table.entries.length :=
  table.length_entries

variable [ContentHash]

theorem Valid.counted_mem (valid : table.Valid buffers) {shard : Shard}
    (member : shard ∈ table.shards) :
    shard.contentBytes = total (shard.entries.map (·.content.length + 1)) := by
  obtain ⟨number, inside, rfl⟩ := List.mem_iff_getElem.mp member
  rw [← shard_of_lt inside]
  exact valid.counted number

theorem Valid.contentBytes_entries (valid : table.Valid buffers) :
    Shards.contentBytes table.shards = total (table.entries.map (·.content.length + 1)) :=
  Shards.contentBytes_entries fun _ => valid.counted_mem

theorem Valid.stats_entries (valid : table.Valid buffers) :
    table.stats =
      { entries := table.entries.length
        contentBytes := total (table.entries.map (·.content.length + 1))
        shards := table.shards.length } := by
  rw [stats, Shards.stats, valid.contentBytes_entries, ← length_entries, length]

end Table

end InternPool
