import Mathlib.Data.List.Dedup
import InternPool.Proofs.Concurrent.ExactlyOnce
import InternPool.Proofs.Concurrent.Representation
import InternPool.Proofs.Table.Tally

namespace InternPool

def Call.internedBy (calls : List (List Call)) : List Bytes :=
  (calls.flatten.filter Call.interns).map Call.content

namespace Threads

variable {σ κ π α : Type} {state : Threads σ κ π α} {calls : List (List κ)} {call : κ}

theorem isOver_left (finished : state.isOver = true) (number : Nat) : state.left number = [] := by
  rw [left]
  cases found : state.threads[number]? with
  | none => rfl
  | some thread =>
    have idle := List.all_eq_true.mp finished thread (List.mem_of_getElem? found)
    rw [Bool.and_eq_true, List.isEmpty_iff, Option.isNone_iff_eq_none] at idle
    rw [Option.map_some, Option.getD_some, Thread.left, idle.1, idle.2]
    rfl

theorem Accounts.mem_ended (accounts : state.Accounts calls) (finished : state.isOver = true) :
    call ∈ state.ended.map Ended.call ↔ call ∈ calls.flatten := by
  have whole : ∀ number, state.done number = calls.getD number [] := by
    intro number
    have account := accounts number
    rwa [isOver_left finished, List.append_nil] at account
  rw [List.mem_map, List.mem_flatten]
  constructor
  · intro ended
    obtain ⟨last, member, rfl⟩ := ended
    have done : last.call ∈ state.done last.thread :=
      List.mem_map_of_mem (List.mem_filter.mpr ⟨List.mem_reverse.mpr member, beq_self_eq_true _⟩)
    rw [whole, List.getD_eq_getElem?_getD] at done
    cases found : calls[last.thread]? with
    | none =>
      rw [found] at done
      cases done
    | some todo =>
      rw [found] at done
      exact ⟨todo, List.mem_of_getElem? found, done⟩
  · intro given
    obtain ⟨todo, member, called⟩ := given
    obtain ⟨number, found⟩ := List.mem_iff_getElem?.mp member
    have done : call ∈ state.done number := by
      rwa [whole, List.getD_eq_getElem?_getD, found]
    obtain ⟨last, kept, same⟩ := List.mem_map.mp done
    exact ⟨last, List.mem_reverse.mp (List.mem_filter.mp kept).1, same⟩

end Threads

theorem interned_calls (calls : List (List Call)) :
    interned (calls.map fun todo => todo.map Request.call).flatten = Call.internedBy calls := by
  rw [← List.map_flatten, Call.internedBy]
  induction calls.flatten with
  | nil => rfl
  | cons call rest ih =>
    rw [interned] at ih ⊢
    cases interns : call.interns with
    | true => simp [Request.interned, interns, ih]
    | false => simp [Request.interned, interns, ih]

theorem mem_interned {left right : List Request} (same : ∀ request, request ∈ left ↔ request ∈ right)
    (content : Bytes) : content ∈ interned left ↔ content ∈ interned right := by
  simp only [interned, List.mem_filterMap, same]

namespace Table

section
variable [ContentHash] {table : Table} {options : Options}
  {state : Threads Site Request Unfinished (Response Handle)}

theorem over_contents (built : withOptions options = .ok table) (process : Process)
    (calls : List (List Call))
    (path : Threads.Runs sections
      (table.threads process (calls.map fun todo => todo.map Request.call)) state)
    (finished : state.isOver = true) :
    (state.shared.table.entries.map Handle.content).Perm (Call.internedBy calls).dedup := by
  have answered := answerAll_replayed (table.threads_linear process calls path).replayed
  have accounts := (Threads.start_accounts (Site.mk table process) _).runs path
  obtain ⟨_, matched⟩ := (built_matches built process).answerAll
    (state.ended.reverse.map Ended.call)
  have arrivals := (Catalog.starts process.buffers).answerAll (state.ended.reverse.map Ended.call)
  rw [answered] at matched
  have same : ∀ request, request ∈ state.ended.reverse.map Ended.call ↔
      request ∈ (calls.map fun todo => todo.map Request.call).flatten := by
    intro request
    rw [List.map_reverse, List.mem_reverse, accounts.mem_ended finished]
  rw [List.perm_ext_iff_of_nodup matched.valid.contents (List.nodup_dedup _)]
  intro content
  rw [(matched.contents arrivals).mem_iff, List.nil_append, List.mem_eraseDups, List.mem_dedup,
    mem_interned same, interned_calls]

theorem over_tallies (built : withOptions options = .ok table) (process : Process)
    (calls : List (List Call))
    (path : Threads.Runs sections
      (table.threads process (calls.map fun todo => todo.map Request.call)) state)
    (finished : state.isOver = true) {contents : List Bytes}
    (same : ∀ content, content ∈ Call.internedBy calls ↔ content ∈ contents) :
    state.shared.table.Tallies options contents.dedup := by
  have accepted := (withOptions_ok_iff.mp built).1
  have begun := built_sound built process
  have reached := ((Threads.start_sound begun _).runs (sections_keep options) path).shared
  have alike : (Call.internedBy calls).dedup.Perm contents.dedup := by
    rw [List.perm_ext_iff_of_nodup (List.nodup_dedup _) (List.nodup_dedup _)]
    simp only [List.mem_dedup, same, implies_true]
  exact reached.valid.tallies reached.shaped accepted
    ((over_contents built process calls path finished).trans alike)

theorem end_state_unscheduled (built : withOptions options = .ok table)
    {left right : List (List Call)}
    (same : ∀ content, content ∈ Call.internedBy left ↔ content ∈ Call.internedBy right)
    (one other : Process) {ended last : Threads Site Request Unfinished (Response Handle)}
    (first : Threads.Runs sections
      (table.threads one (left.map fun todo => todo.map Request.call)) ended)
    (second : Threads.Runs sections
      (table.threads other (right.map fun todo => todo.map Request.call)) last)
    (finished : ended.isOver = true) (done : last.isOver = true) :
    ended.shared.table.length = last.shared.table.length ∧
      ended.shared.table.stats = last.shared.table.stats ∧
      ended.shared.table.shardLengths = last.shared.table.shardLengths ∧
      (ended.shared.table.entries.map fun handle => (handle.content, handle.hash)).Perm
        (last.shared.table.entries.map fun handle => (handle.content, handle.hash)) ∧
      ended.shared.table.length = (Call.internedBy left).dedup.length ∧
      ended.shared.table.shardLengths = options.spread (Call.internedBy left).dedup ∧
      total ended.shared.table.shardLengths = ended.shared.table.length := by
  have told : ended.shared.table.Tallies options (Call.internedBy left).dedup :=
    over_tallies built one left first finished fun content => Iff.rfl
  have also : last.shared.table.Tallies options (Call.internedBy left).dedup :=
    over_tallies built other right second done fun content => (same content).symm
  refine ⟨?_, ?_, ?_, told.entries.trans also.entries.symm, told.length, told.shardLengths, ?_⟩
  · rw [told.length, also.length]
  · rw [told.stats, also.stats]
  · rw [told.shardLengths, also.shardLengths]
  · rw [shardLengths_total, length_entries]

end

-- Three spellings of one repaired content and one other content, dealt out to two threads and to one.
theorem end_state_unscheduled_dealt :
    let left : List (List Call) := [[.intern [0xFF], .get [0x61]], [.intern [0xC3], .internText "a"]]
    let right : List (List Call) := [[.internText "a", .intern [0xE2, 0x82], .intern [0x61]]]
    let process : Process := { store := Array.replicate 5 [0] }
    withOptions { shards := 2, hashSeed := 7 } = .ok (build { shards := 2, hashSeed := 7 }) ∧
      (∀ content, content ∈ Call.internedBy left ↔ content ∈ Call.internedBy right) ∧
      ∃ ended last : Threads Site Request Unfinished (Response Handle),
        Threads.Runs sections ((build { shards := 2, hashSeed := 7 }).threads {}
          (left.map fun todo => todo.map Request.call)) ended ∧
        Threads.Runs sections ((build { shards := 2, hashSeed := 7 }).threads process
          (right.map fun todo => todo.map Request.call)) last ∧
        ended.isOver = true ∧ last.isOver = true ∧ ended.shared.table.length = 2 ∧
        ended.shared.table.shardLengths = last.shared.table.shardLengths := by
  intro left right process
  have built : withOptions { shards := 2, hashSeed := 7 } =
      .ok (build { shards := 2, hashSeed := 7 }) := rfl
  have contents : Call.internedBy left = [[0xEF, 0xBF, 0xBD], [0xEF, 0xBF, 0xBD], [0x61]] := by
    decide +kernel
  have others : Call.internedBy right = [[0x61], [0xEF, 0xBF, 0xBD], [0x61]] := by decide +kernel
  have same : ∀ content, content ∈ Call.internedBy left ↔ content ∈ Call.internedBy right := by
    intro content
    simp only [contents, others, List.mem_cons, List.not_mem_nil, or_false]
    tauto
  have first : Threads.Runs sections ((build { shards := 2, hashSeed := 7 }).threads {}
      (left.map fun todo => todo.map Request.call)) _ :=
    Threads.run_runs _ [0, 1, 1, 0, 1, 1, 0]
  have second : Threads.Runs sections ((build { shards := 2, hashSeed := 7 }).threads process
      (right.map fun todo => todo.map Request.call)) _ :=
    Threads.run_runs _ [0, 0, 0, 0, 0]
  obtain ⟨_, _, lengths, _, size, _⟩ :=
    end_state_unscheduled built same _ _ first second (by decide +kernel) (by decide +kernel)
  refine ⟨built, same, _, _, first, second, by decide +kernel, by decide +kernel, ?_, lengths⟩
  rw [size, contents]
  rfl

end Table

end InternPool
