import InternPool.Concurrent.TableSections
import InternPool.Hash.Xxh3
import InternPool.Proofs.Concurrent.Invariant
import InternPool.Proofs.Table.Observed
import InternPool.Proofs.Table.Sharding

namespace InternPool

-- A call that missed enters its content under the hash of it. The shard is picked by that hash alone,
-- so what another thread enters in between is found in the same place.
def Unfinished.Sound [ContentHash] (hasher : ContentHasher) : Unfinished → Prop
  | .missed hash content => hash = hasher.hash content ∧ Utf8.WellFormed content
  | .walking _ _ => True

structure Site.Sound [ContentHash] (options : Options) (site : Site) : Prop where
  valid : site.table.Valid site.process.buffers
  shaped : site.table.Shaped options

namespace Table

section
variable [ContentHash] {table : Table} {options : Options} {buffers : Nat}

structure Represents (table : Table) (options : Options) : Prop where
  shards : table.shards.length = options.shards.toNat
  placed : ∀ (number : Nat) (shard : Shard), table.shards[number]? = some shard →
    ∀ handle ∈ shard.entries, handle.buffer.bytes = handle.content ++ [0] ∧ Utf8.WellFormed handle.content ∧
      handle.hash = ContentHasher.hash ⟨options.hashSeed⟩ handle.content ∧
      number = (handle.hash >>> 32).toNat % options.shards.toNat
  contents : (table.entries.map Handle.content).Nodup
  buffers : (table.entries.map (·.buffer.number)).Nodup
  counted : ∀ shard ∈ table.shards,
    shard.contentBytes = total (shard.entries.map (·.content.length + 1))

theorem sections_keep (options : Options) :
    sections.Keeps (Site.Sound options) (Unfinished.Sound ⟨options.hashSeed⟩) := by
  have visits : ∀ {site : Site}, site.Sound options → ∀ request seen,
      (site.visit request seen).Leaves (Site.Sound options)
        (Unfinished.Sound ⟨options.hashSeed⟩) := by
    intro site sound request seen
    refine ⟨sound, ?_⟩
    intro further progress
    rw [Site.visit] at progress
    dsimp only at progress
    split at progress
    · cases progress
      trivial
    · cases progress
  constructor
  · intro site sound request
    cases request with
    | call call =>
      refine ⟨sound, ?_⟩
      intro further progress
      change (site.look call).progress = _ at progress
      rw [Site.look] at progress
      dsimp only at progress
      split at progress
      · cases progress
        exact ⟨by rw [sound.shaped.hasher], call.content_wellFormed⟩
      · cases progress
    | length | isEmpty | stats | shardLengths | entries => exact visits sound _ []
  · intro site further sound waits
    cases further with
    | missed hash content =>
      obtain ⟨rfl, wellFormed⟩ := waits
      rw [← sound.shaped.hasher]
      refine ⟨⟨sound.valid.enter wellFormed, sound.shaped.enter _ _ _⟩, ?_⟩
      intro further progress
      cases progress
    | walking request seen => exact visits sound request seen

theorem Valid.represents (valid : table.Valid buffers) (shaped : table.Shaped options)
    (accepted : options.validate = .ok ()) : table.Represents options := by
  refine ⟨shaped.shards, ?_, valid.contents, valid.distinct, fun _ => valid.counted_mem⟩
  intro number shard found handle member
  obtain ⟨inside, rfl⟩ := List.getElem?_eq_some_iff.mp found
  have placed := valid.placed number handle (by rwa [shard_of_lt inside])
  have canonical := valid.canonical handle
    (mem_entries.mpr ⟨number, inside, by rwa [shard_of_lt inside]⟩)
  refine ⟨canonical.terminated, canonical.wellFormed, ?_, ?_⟩
  · rw [← shaped.hasher]
    exact canonical.hashed
  · rw [← shaped.shardOf accepted, placed]

theorem built_sound (built : withOptions options = .ok table) (process : Process) :
    Site.Sound options ⟨table, process⟩ := by
  obtain ⟨_, rfl⟩ := withOptions_ok_iff.mp built
  exact ⟨built_valid built process.buffers, build_shaped options⟩

theorem threads_represent (built : withOptions options = .ok table) (process : Process)
    (requests : List (List Request)) {state : Threads Site Request Unfinished (Response Handle)}
    (path : Threads.Runs sections (table.threads process requests) state) :
    state.shared.table.Represents options := by
  obtain ⟨accepted, rfl⟩ := withOptions_ok_iff.mp built
  have begun : Site.Sound options ⟨build options, process⟩ :=
    ⟨built_valid built process.buffers, build_shaped options⟩
  have reached := (Threads.start_sound begun requests).runs (sections_keep options) path
  exact reached.shared.valid.represents reached.shared.shaped accepted

end

-- Both threads miss one content under two spellings; the second to enter it finds it in its shard.
theorem threads_represent_racing :
    let options : Options := { shards := 4, hashSeed := 7 }
    let requests : List (List Request) :=
      [[.call (.intern [0xFF])], [.call (.intern [0xC3]), .entries]]
    let state := ((build options).threads {} requests).run sections [0, 1, 1, 0, 1]
    let entry : Handle :=
      ⟨⟨0, [0xEF, 0xBF, 0xBD, 0]⟩, ContentHasher.hash ⟨7⟩ [0xEF, 0xBF, 0xBD]⟩
    withOptions options = .ok (build options) ∧
      Threads.Runs sections ((build options).threads {} requests) state ∧
      state.shared.table.Represents options ∧
      state.ended.map Ended.answer = [.handle (some entry), .handle (some entry)] ∧
      ∃ shard, state.shared.table.shards[2]? = some shard ∧ shard.entries = [entry] ∧
        shard.contentBytes = 4 ∧ entry.buffer.bytes = entry.content ++ [0] ∧
        2 = (entry.hash >>> 32).toNat % 4 := by
  intro options requests state entry
  have accepted : options.validate = .ok () := by decide
  have built : withOptions options = .ok (build options) := by rw [withOptions, accepted]
  have path : Threads.Runs sections ((build options).threads {} requests) state :=
    Threads.run_runs _ _
  have represents := threads_represent built {} requests path
  have lies : (state.shared.table.shards.map (·.entries))[2]? = some [entry] := by decide +kernel
  rw [List.getElem?_map, Option.map_eq_some_iff] at lies
  obtain ⟨shard, found, held⟩ := lies
  have counted := represents.counted shard (List.mem_of_getElem? found)
  obtain ⟨terminated, _, _, placed⟩ :=
    represents.placed 2 shard found entry (by rw [held]; exact List.mem_singleton_self entry)
  refine ⟨built, path, represents, by decide +kernel, shard, found, held, ?_, terminated, placed⟩
  rw [counted, held]
  decide

end Table

end InternPool
