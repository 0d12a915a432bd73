import Mathlib.Data.List.Forall2
import InternPool.Catalog
import InternPool.Proofs.Table.Observed

namespace InternPool

def Request.interned : Request → Option Bytes
  | .call made => if made.interns then some made.content else none
  | _ => none

def interned (requests : List Request) : List Bytes :=
  requests.filterMap Request.interned

-- A content that comes again adds nothing to the distinct ones.
theorem eraseDups_snoc (history : List Bytes) (content : Bytes) :
    (history ++ [content]).eraseDups =
      if content ∈ history then history.eraseDups else history.eraseDups ++ [content] := by
  rw [List.eraseDups_append, List.cons_removeAll, List.nil_removeAll]
  by_cases known : content ∈ history
  · rw [if_neg (by simpa using known), if_pos known, List.eraseDups_nil, List.append_nil]
  · rw [if_pos (by simpa using known), if_neg known]
    rfl

namespace Catalog

variable {catalog : Catalog} {content : Bytes}

-- A catalog lists the contents interned so far where each came first, and its buffers are those
-- handed out since the first, in order.
structure FirstArrivals (catalog : Catalog) (first : Nat) (history : List Bytes) : Prop where
  contents : catalog.items.map Item.content = history.eraseDups
  buffers : catalog.items.map Item.buffer = List.range' first catalog.items.length
  next : catalog.next = first + catalog.items.length

variable {first : Nat} {history : List Bytes}

theorem find?_some_of_mem (distinct : (catalog.items.map Item.content).Nodup) {item : Item}
    (member : item ∈ catalog.items) : catalog.find? item.content = some item := by
  apply find?_unique member (beq_self_eq_true item.content)
  intro other present same
  rw [beq_iff_eq] at same
  exact List.inj_on_of_nodup_map distinct present member same

theorem find?_none_iff :
    catalog.find? content = none ↔ ∀ item ∈ catalog.items, item.content ≠ content := by
  rw [find?, List.find?_eq_none]
  simp only [beq_iff_eq, ne_eq]

theorem FirstArrivals.find?_none_iff (arrivals : catalog.FirstArrivals first history) :
    catalog.find? content = none ↔ content ∉ history := by
  rw [Catalog.find?_none_iff, ← List.mem_eraseDups, ← arrivals.contents, List.mem_map]
  constructor
  · intro absent present
    obtain ⟨item, member, same⟩ := present
    exact absent item member same
  · intro absent item member same
    exact absent ⟨item, member, same⟩

theorem FirstArrivals.intern (arrivals : catalog.FirstArrivals first history) (content : Bytes) :
    (catalog.intern content).2.FirstArrivals first (history ++ [content]) := by
  have grown := eraseDups_snoc history content
  cases found : catalog.find? content with
  | some item =>
    have known : content ∈ history := by
      by_contra absent
      rw [arrivals.find?_none_iff.mpr absent] at found
      cases found
    rw [if_pos known] at grown
    rw [intern_known found]
    exact ⟨grown ▸ arrivals.contents, arrivals.buffers, arrivals.next⟩
  | none =>
    have absent := arrivals.find?_none_iff.mp found
    rw [if_neg absent] at grown
    rw [intern_fresh found]
    refine ⟨?_, ?_, ?_⟩
    · rw [List.map_append, arrivals.contents, grown]
      rfl
    · rw [List.map_append, arrivals.buffers, List.map_singleton, List.length_append,
        List.length_singleton, List.range'_1_concat, arrivals.next]
    · rw [List.length_append, List.length_singleton, arrivals.next, Nat.add_assoc]

theorem FirstArrivals.answer (arrivals : catalog.FirstArrivals first history) (request : Request) :
    (catalog.answer request).catalog.FirstArrivals first (history ++ request.interned.toList) := by
  cases request with
  | call call =>
    rw [Catalog.answer, Request.interned]
    split
    · exact arrivals.intern call.content
    · rwa [Option.toList_none, List.append_nil]
  | length | isEmpty | stats | shardLengths | entries =>
    simpa [Catalog.answer, Request.interned] using arrivals

theorem FirstArrivals.answerAll (arrivals : catalog.FirstArrivals first history)
    (requests : List Request) :
    (catalog.answerAll requests).2.FirstArrivals first (history ++ interned requests) := by
  induction requests generalizing catalog history with
  | nil =>
    rw [interned, List.filterMap_nil, List.append_nil]
    exact arrivals
  | cons request rest ih =>
    have further := ih (arrivals.answer request)
    rw [List.append_assoc] at further
    rw [interned, List.filterMap_cons]
    cases found : request.interned with
    | none =>
      rw [found] at further
      exact further
    | some content =>
      rw [found] at further
      exact further

theorem starts (first : Nat) : FirstArrivals { next := first } first [] :=
  ⟨rfl, rfl, rfl⟩

end Catalog

namespace Table

variable [ContentHash] {table : Table} {process : Process} {catalog : Catalog}

structure Matches (table : Table) (process : Process) (catalog : Catalog) : Prop where
  valid : table.Valid process.buffers
  items : (table.entries.map Handle.item).Perm catalog.items
  next : process.buffers = catalog.next

theorem Matches.distinct (matched : table.Matches process catalog) :
    (catalog.items.map Item.content).Nodup := by
  rw [← (matched.items.map Item.content).nodup_iff, List.map_map]
  exact matched.valid.contents

theorem Matches.find?_some (matched : table.Matches process catalog) {handle : Handle}
    (member : handle ∈ table.entries) : catalog.find? handle.content = some handle.item :=
  Catalog.find?_some_of_mem matched.distinct
    (matched.items.mem_iff.mp (List.mem_map.mpr ⟨handle, member, rfl⟩))

theorem Matches.find?_none (matched : table.Matches process catalog) {content : Bytes}
    (absent : ∀ handle ∈ table.entries, handle.content ≠ content) :
    catalog.find? content = none := by
  rw [Catalog.find?_none_iff]
  intro item member
  obtain ⟨handle, present, rfl⟩ := List.mem_map.mp (matched.items.mem_iff.mpr member)
  exact absent handle present

theorem fresh_item (table : Table) (process : Process) (content : Bytes) :
    (table.fresh process content).item = ⟨content, process.buffers⟩ := by
  rw [Handle.item, fresh, Process.content_buffer]
  rfl

theorem Matches.add (matched : table.Matches process catalog) {content : Bytes}
    (wellFormed : Utf8.WellFormed content)
    (absent : ∀ handle ∈ table.entries, handle.content ≠ content) (event : Event) :
    (table.add (table.fresh process content)).Matches ((process.allocated content).record event)
      ⟨catalog.items ++ [⟨content, catalog.next⟩], catalog.next + 1⟩ := by
  have absentFresh : ∀ other ∈ table.entries,
      other.content ≠ (table.fresh process content).content := by
    intro other member
    rw [fresh, Process.content_buffer]
    exact absent other member
  refine ⟨?_, ?_, ?_⟩
  · rw [Process.buffers_record, Process.buffers_allocated]
    exact matched.valid.add (table.fresh_canonical process wellFormed) absentFresh rfl
  · have grown := (entries_add (matched.valid.inside
      (table.fresh process content).hash)).map Handle.item
    rw [List.map_cons, fresh_item, matched.next] at grown
    exact (grown.trans (matched.items.cons _)).trans (List.perm_append_singleton _ _).symm
  · rw [Process.buffers_record, Process.buffers_allocated, matched.next]

theorem Matches.call (matched : table.Matches process catalog) (call : Call) :
    (Response.handle (table.call process call).handle).Agrees
        (catalog.answer (.call call)).response ∧
      (table.call process call).table.Matches (table.call process call).process
        (catalog.answer (.call call)).catalog := by
  rcases matched.valid.call_cases process call with
    ⟨handle, member, same, called⟩ | ⟨absent, looks, called⟩ | ⟨absent, interns, called⟩
  · have found := matched.find?_some member
    rw [same] at found
    have answered : catalog.answer (.call call) = ⟨.handle (some handle.item), catalog⟩ := by
      simp only [Catalog.answer, Catalog.intern_known found, found, ite_self]
    rw [called, answered]
    exact ⟨rfl, matched⟩
  · rw [called, Catalog.answer, looks, matched.find?_none absent]
    exact ⟨rfl, matched⟩
  · rw [called, Catalog.answer, interns, Catalog.intern_fresh (matched.find?_none absent)]
    refine ⟨?_, matched.add call.content_wellFormed absent _⟩
    change some (table.fresh process call.content).item = _
    rw [fresh_item, matched.next]

theorem Matches.answer (matched : table.Matches process catalog) (request : Request) :
    (table.answer process request).response.Agrees (catalog.answer request).response ∧
      (table.answer process request).table.Matches (table.answer process request).process
        (catalog.answer request).catalog := by
  have size : table.entries.length = catalog.items.length := by
    rw [← matched.items.length_eq, List.length_map]
  have bytes := total_perm (matched.items.map (·.content.length + 1))
  rw [List.map_map] at bytes
  cases request with
  | call call => exact matched.call call
  | length => exact ⟨table.length_entries.trans size, matched⟩
  | isEmpty =>
    refine ⟨?_, matched⟩
    change (table.length == 0) = catalog.items.isEmpty
    rw [length_entries, size]
    cases catalog.items <;> rfl
  | stats =>
    refine ⟨?_, matched⟩
    change table.stats.entries = _ ∧ table.stats.contentBytes = _
    rw [matched.valid.stats_entries]
    exact ⟨size, bytes⟩
  | shardLengths =>
    refine ⟨?_, matched⟩
    change total table.shardLengths = total [catalog.items.length]
    rw [shardLengths_total, size]
    rfl
  | entries => exact ⟨matched.items, matched⟩

theorem Matches.answerAll (matched : table.Matches process catalog) (requests : List Request) :
    List.Forall₂ Response.Agrees (table.answerAll process requests).responses
        (catalog.answerAll requests).1 ∧
      (table.answerAll process requests).table.Matches (table.answerAll process requests).process
        (catalog.answerAll requests).2 := by
  induction requests generalizing table process catalog with
  | nil => exact ⟨.nil, matched⟩
  | cons request rest ih =>
    obtain ⟨agrees, further⟩ := matched.answer request
    obtain ⟨others, last⟩ := ih further
    exact ⟨.cons agrees others, last⟩

theorem built_matches {options : Options} (built : withOptions options = .ok table)
    (process : Process) : table.Matches process { next := process.buffers } := by
  refine ⟨built_valid built process.buffers, ?_, rfl⟩
  rw [(withOptions_build built).1, build_entries]
  exact List.Perm.refl []

end Table

end InternPool
