import Mathlib.Data.List.Nodup
import InternPool.Proofs.Utf8.Decoding
import InternPool.Table.Observe

namespace InternPool

theorem find?_unique {α : Type} {list : List α} {test : α → Bool} {item : α} (member : item ∈ list)
    (passes : test item = true) (only : ∀ other ∈ list, test other = true → other = item) :
    list.find? test = some item := by
  cases found : list.find? test with
  | none => exact absurd passes (List.find?_eq_none.mp found item member)
  | some other =>
    rw [only other (List.mem_of_find?_eq_some found) (List.find?_some found)]

namespace Table

def add (table : Table) (handle : Handle) : Table :=
  let number := table.shardOf handle.hash
  { table with shards := table.shards.set number ((table.shard number).add handle) }

variable {table : Table} {process : Process} {hash : UInt64} {content : Bytes}

theorem shardOf_le (table : Table) (hash : UInt64) : table.shardOf hash ≤ table.mask.toNat := by
  rw [shardOf, UInt64.toNat_and]
  exact Nat.and_le_right

theorem shard_of_lt {number : Nat} (inside : number < table.shards.length) :
    table.shard number = table.shards[number] := by
  rw [shard, List.getD_eq_getElem?_getD, List.getElem?_eq_getElem inside, Option.getD_some]

theorem set_shard (table : Table) (number : Nat) :
    table.shards.set number (table.shard number) = table.shards := by
  by_cases inside : number < table.shards.length
  · rw [shard_of_lt inside, List.set_getElem_self]
  · exact List.set_eq_of_length_le (Nat.le_of_not_lt inside)

theorem shards_eq (table : Table) :
    table.shards = (List.range table.shards.length).map table.shard := by
  apply List.ext_getElem
  · rw [List.length_map, List.length_range]
  · intro number inside _
    rw [List.getElem_map, List.getElem_range, shard_of_lt inside]

theorem enter_known {winner : Handle} (known : table.probe hash content = some winner)
    (process : Process) : table.enter process hash content = ⟨winner, table, process⟩ := by
  rw [probe] at known
  simp only [enter, Shard.enter_known known, set_shard]

theorem enter_missing (missing : table.probe hash content = none) (process : Process) :
    table.enter process hash content =
      { handle := ⟨process.buffer content, hash⟩
        table := table.add ⟨process.buffer content, hash⟩
        process :=
          (process.allocated content).record
            (.canonicalized content.length hash (table.shardOf hash)) } := by
  rw [probe] at missing
  simp only [enter, Shard.enter_fresh missing, add]

theorem mem_entries {handle : Handle} :
    handle ∈ table.entries ↔
      ∃ number < table.shards.length, handle ∈ (table.shard number).entries := by
  rw [entries, Shards.entries, List.mem_flatMap]
  constructor
  · intro found
    obtain ⟨shard, member, holds⟩ := found
    obtain ⟨number, inside, rfl⟩ := List.mem_iff_getElem.mp member
    exact ⟨number, inside, by rwa [shard_of_lt inside]⟩
  · intro found
    obtain ⟨number, inside, holds⟩ := found
    rw [shard_of_lt inside] at holds
    exact ⟨_, List.getElem_mem inside, holds⟩

theorem shard_add {handle : Handle}
    (inside : table.shardOf handle.hash < table.shards.length) (number : Nat) :
    (table.add handle).shard number =
      if number = table.shardOf handle.hash then (table.shard number).add handle
      else table.shard number := by
  by_cases same : number = table.shardOf handle.hash
  · subst same
    rw [if_pos rfl, shard, List.getD_eq_getElem?_getD, add, List.getElem?_set_self inside]
    rfl
  · rw [if_neg same, shard, List.getD_eq_getElem?_getD, add,
      List.getElem?_set_ne (Ne.symm same)]
    rw [shard, List.getD_eq_getElem?_getD]

theorem entries_add {handle : Handle}
    (inside : table.shardOf handle.hash < table.shards.length) :
    (table.add handle).entries.Perm (handle :: table.entries) := by
  have front := List.take_append_drop (table.shardOf handle.hash) table.shards
  rw [List.drop_eq_getElem_cons inside] at front
  rw [entries, entries, Shards.entries, Shards.entries, add, List.set_eq_take_append_cons_drop,
    if_pos inside]
  conv => rhs; rw [← front]
  simp only [List.flatMap_append, List.flatMap_cons, shard_of_lt inside, Shard.add,
    List.cons_append]
  exact List.perm_middle

theorem build_entries (options : Options) : (build options).entries = [] := by
  rw [entries, Shards.entries, build, List.flatMap_eq_nil_iff]
  intro shard member
  rw [List.eq_of_mem_replicate member]
  rfl

theorem build_shard (options : Options) (number : Nat) :
    (build options).shard number = .empty := by
  rw [shard, List.getD_eq_getElem?_getD, build, List.getElem?_replicate]
  split <;> rfl

theorem withOptions_build {options : Options} (built : withOptions options = .ok table) :
    table = build options ∧ 0 < options.shards.toNat := by
  unfold withOptions at built
  split at built
  · rename_i accepted
    cases built
    refine ⟨rfl, ?_⟩
    unfold Options.validate at accepted
    split at accepted
    · cases accepted
    · rename_i valid
      simp only [Options.isPowerOfTwo, Bool.or_eq_true, Bool.not_eq_true', decide_eq_true_eq] at valid
      apply Nat.pos_of_ne_zero
      intro zero
      have none : options.shards = 0 := UInt64.toNat_inj.mp zero
      simp [none] at valid
  · cases built

end Table

structure Handle.Canonical [ContentHash] (hasher : ContentHasher) (handle : Handle) : Prop where
  terminated : handle.buffer.bytes = handle.content ++ [0]
  wellFormed : Utf8.WellFormed handle.content
  hashed : handle.hash = hasher.hash handle.content

namespace Table

variable [ContentHash] {table : Table} {process : Process} {content : Bytes} {buffers : Nat}

-- `buffers` is how many buffers the process has handed out.
structure Valid (table : Table) (buffers : Nat) : Prop where
  masked : table.mask.toNat < table.shards.length
  placed : ∀ number, ∀ handle ∈ (table.shard number).entries, table.shardOf handle.hash = number
  counted : ∀ number, (table.shard number).contentBytes =
    total ((table.shard number).entries.map (·.content.length + 1))
  canonical : ∀ handle ∈ table.entries, handle.Canonical table.hasher
  contents : (table.entries.map Handle.content).Nodup
  distinct : (table.entries.map (·.buffer.number)).Nodup
  allocated : ∀ handle ∈ table.entries, handle.buffer.number < buffers

def fresh (table : Table) (process : Process) (content : Bytes) : Handle :=
  ⟨process.buffer content, table.hasher.hash content⟩

theorem Valid.inside (valid : table.Valid buffers) (hash : UInt64) :
    table.shardOf hash < table.shards.length :=
  Nat.lt_of_le_of_lt (table.shardOf_le hash) valid.masked

-- The look before the entry changes nothing: an entry looks for itself.
theorem internContent_enter (table : Table) (process : Process) (content : Bytes) :
    table.internContent process content =
      table.enter process (table.hasher.hash content) content := by
  rw [internContent]
  cases found : table.probe (table.hasher.hash content) content with
  | none => rfl
  | some handle => rw [enter_known found]

theorem Valid.same_content (valid : table.Valid buffers) {left right : Handle}
    (first : left ∈ table.entries) (second : right ∈ table.entries)
    (same : left.content = right.content) : left = right :=
  List.inj_on_of_nodup_map valid.contents first second same

theorem Valid.probe_iff (valid : table.Valid buffers) {handle : Handle} :
    table.probe (table.hasher.hash content) content = some handle ↔
      handle ∈ table.entries ∧ handle.content = content := by
  rw [probe, Shard.find?_exact]
  constructor
  · intro found
    have holds := List.find?_some found
    simp only [Handle.holds, Bool.and_eq_true, beq_iff_eq] at holds
    exact ⟨mem_entries.mpr ⟨_, valid.inside _, List.mem_of_find?_eq_some found⟩, holds.2⟩
  · intro found
    obtain ⟨member, rfl⟩ := found
    -- The shard looked into is the one that the handle was placed in.
    have hashed := (valid.canonical handle member).hashed
    obtain ⟨number, _, placed⟩ := mem_entries.mp member
    have picked := valid.placed number handle placed
    rw [hashed] at picked
    rw [picked]
    apply find?_unique placed
    · simp only [Handle.holds, hashed, beq_self_eq_true, Bool.and_self]
    · intro other present holds
      simp only [Handle.holds, Bool.and_eq_true, beq_iff_eq] at holds
      have inside : number < table.shards.length := picked ▸ valid.inside _
      exact valid.same_content (mem_entries.mpr ⟨number, inside, present⟩) member holds.2

theorem Valid.probe_none_iff (valid : table.Valid buffers) :
    table.probe (table.hasher.hash content) content = none ↔
      ∀ handle ∈ table.entries, handle.content ≠ content := by
  constructor
  · intro missing handle member same
    have found := valid.probe_iff.mpr ⟨member, same⟩
    rw [missing] at found
    cases found
  · intro absent
    cases found : table.probe (table.hasher.hash content) content with
    | none => rfl
    | some handle =>
      obtain ⟨member, same⟩ := valid.probe_iff.mp found
      exact absurd same (absent handle member)

theorem fresh_canonical (table : Table) (process : Process)
    (wellFormed : Utf8.WellFormed content) :
    (table.fresh process content).Canonical table.hasher := by
  refine ⟨?_, ?_, ?_⟩
  · rw [fresh, Process.content_buffer, Process.bytes_buffer]
  · rwa [fresh, Process.content_buffer]
  · rw [fresh, Process.content_buffer]

theorem Valid.add {handle : Handle} (valid : table.Valid buffers)
    (canonical : handle.Canonical table.hasher)
    (absent : ∀ other ∈ table.entries, other.content ≠ handle.content)
    (number : handle.buffer.number = buffers) : (table.add handle).Valid (buffers + 1) := by
  have inside := valid.inside handle.hash
  have grown := entries_add inside
  refine ⟨?_, ?_, ?_, ?_, ?_, ?_, ?_⟩
  · rw [Table.add, List.length_set]
    exact valid.masked
  · intro place other member
    rw [shard_add inside] at member
    split at member
    · rename_i here
      rcases List.mem_cons.mp member with rfl | old
      · exact here.symm
      · exact valid.placed place other old
    · exact valid.placed place other member
  · intro place
    rw [shard_add inside]
    split
    · have terminated := congrArg List.length canonical.terminated
      rw [List.length_append, List.length_singleton] at terminated
      simp only [Shard.add, valid.counted place, terminated, List.map_cons, total,
        List.foldr_cons]
      exact Nat.add_comm _ _
    · exact valid.counted place
  · intro other member
    rcases List.mem_cons.mp (grown.mem_iff.mp member) with rfl | old
    · exact canonical
    · exact valid.canonical other old
  · rw [(grown.map Handle.content).nodup_iff, List.map_cons, List.nodup_cons, List.mem_map]
    refine ⟨?_, valid.contents⟩
    intro present
    obtain ⟨other, member, same⟩ := present
    exact absent other member same
  · rw [(grown.map (·.buffer.number)).nodup_iff, List.map_cons, List.nodup_cons, List.mem_map]
    refine ⟨?_, valid.distinct⟩
    intro present
    obtain ⟨other, member, same⟩ := present
    have old := valid.allocated other member
    omega
  · intro other member
    rcases List.mem_cons.mp (grown.mem_iff.mp member) with rfl | old
    · omega
    · exact Nat.lt_succ_of_lt (valid.allocated other old)

-- The two things an entry can do: give the handle that is there, or add one with the next buffer
-- and log it.
theorem Valid.enter_cases (valid : table.Valid buffers) (process : Process) (content : Bytes) :
    (∃ winner ∈ table.entries, winner.content = content ∧
        table.enter process (table.hasher.hash content) content = ⟨winner, table, process⟩) ∨
      ((∀ handle ∈ table.entries, handle.content ≠ content) ∧
        table.enter process (table.hasher.hash content) content =
          { handle := table.fresh process content
            table := table.add (table.fresh process content)
            process := (process.allocated content).record (.canonicalized content.length
              (table.hasher.hash content) (table.shardOf (table.hasher.hash content))) }) := by
  cases found : table.probe (table.hasher.hash content) content with
  | some winner =>
    obtain ⟨member, same⟩ := valid.probe_iff.mp found
    exact .inl ⟨winner, member, same, enter_known found process⟩
  | none => exact .inr ⟨valid.probe_none_iff.mp found, enter_missing found process⟩

theorem built_valid {options : Options} (built : withOptions options = .ok table) (buffers : Nat) :
    table.Valid buffers := by
  obtain ⟨rfl, positive⟩ := withOptions_build built
  refine ⟨?_, ?_, ?_, ?_, ?_, ?_, ?_⟩
  · have one : (1 : UInt64) ≤ options.shards := UInt64.le_iff_toNat_le.mpr positive
    rw [build, List.length_replicate, UInt64.toNat_sub_of_le _ _ one]
    exact Nat.sub_lt positive Nat.one_pos
  · intro number handle member
    rw [build_shard] at member
    cases member
  · intro number
    rw [build_shard]
    rfl
  · rw [build_entries]
    intro handle member
    cases member
  · rw [build_entries]
    exact List.nodup_nil
  · rw [build_entries]
    exact List.nodup_nil
  · rw [build_entries]
    intro handle member
    cases member

theorem call_interning {call : Call} (interns : call.interns = true) (table : Table)
    (process : Process) :
    table.call process call =
      let entered := table.enter process (table.hasher.hash call.content) call.content
      ⟨some entered.handle, entered.table, entered.process⟩ := by
  rw [Table.call, if_pos interns, internContent_enter]

theorem call_looking {call : Call} (interns : call.interns = false) (table : Table)
    (process : Process) :
    table.call process call =
      ⟨table.probe (table.hasher.hash call.content) call.content, table, process⟩ := by
  rw [Table.call, if_neg (by rw [interns]; decide), getContent]

theorem Valid.call_cases (valid : table.Valid buffers) (process : Process) (call : Call) :
    (∃ handle ∈ table.entries, handle.content = call.content ∧
        table.call process call = ⟨some handle, table, process⟩) ∨
      ((∀ handle ∈ table.entries, handle.content ≠ call.content) ∧ call.interns = false ∧
        table.call process call = ⟨none, table, process⟩) ∨
      ((∀ handle ∈ table.entries, handle.content ≠ call.content) ∧ call.interns = true ∧
        table.call process call =
          { handle := some (table.fresh process call.content)
            table := table.add (table.fresh process call.content)
            process := (process.allocated call.content).record (.canonicalized call.content.length
              (table.hasher.hash call.content)
              (table.shardOf (table.hasher.hash call.content))) }) := by
  cases interns : call.interns with
  | true =>
    rw [call_interning interns]
    rcases valid.enter_cases process call.content with ⟨winner, member, same, entered⟩ | ⟨absent, entered⟩
    · exact .inl ⟨winner, member, same, by rw [entered]⟩
    · exact .inr (.inr ⟨absent, rfl, by rw [entered]⟩)
  | false =>
    rw [call_looking interns]
    cases found : table.probe (table.hasher.hash call.content) call.content with
    | some handle =>
      obtain ⟨member, same⟩ := valid.probe_iff.mp found
      exact .inl ⟨handle, member, same, rfl⟩
    | none => exact .inr (.inl ⟨valid.probe_none_iff.mp found, rfl, rfl⟩)

end Table

theorem Call.content_wellFormed (call : Call) : Utf8.WellFormed call.content := by
  cases call with
  | intern bytes | get bytes => exact Utf8.repair_wellFormed bytes
  | internText text | getText text => exact Utf8.ofText_wellFormed text

namespace Table

variable [ContentHash] {table : Table} {process : Process}

theorem Valid.enter (valid : table.Valid process.buffers) {content : Bytes}
    (wellFormed : Utf8.WellFormed content) :
    (table.enter process (table.hasher.hash content) content).table.Valid
      (table.enter process (table.hasher.hash content) content).process.buffers := by
  rcases valid.enter_cases process content with ⟨winner, _, _, entered⟩ | ⟨absent, entered⟩
  · rw [entered]
    exact valid
  · rw [entered]
    dsimp only
    rw [Process.buffers_record, Process.buffers_allocated]
    refine valid.add (table.fresh_canonical process wellFormed) ?_ rfl
    intro other member
    rw [fresh, Process.content_buffer]
    exact absent other member

theorem Valid.call (valid : table.Valid process.buffers) (call : Call) :
    (table.call process call).table.Valid (table.call process call).process.buffers := by
  cases interns : call.interns with
  | true =>
    rw [call_interning interns]
    exact valid.enter call.content_wellFormed
  | false =>
    rw [call_looking interns]
    exact valid

end Table

end InternPool
