import Mathlib.Data.Set.List
import InternPool.Proofs.Json.Members
import InternPool.Proofs.Keyed.Filing
import InternPool.Proofs.World.Documents
import InternPool.Proofs.World.Order

namespace InternPool

open Json (IsObject encoded inTurn inPairs textsOf)

abbrev Handle.contents : Handle × Handle → Bytes × Bytes :=
  Prod.map Handle.content Handle.content

namespace World

variable {world : World} {ledger : List (TableName × Handle)} {place : Placement} {texts : List Bytes}
  {members entries : List (List Char × List Char)} {pairs : List (Handle × Handle)}
  {handle : Handle} {handles : List Handle}

theorem toJson_isObject {map : OrderedMap place Handle}
    (contents : map.toList.map Handle.contents = entries.map encoded) :
    IsObject map.toJson entries := by
  have written := Json.writeObject_isObject entries
  rwa [← contents] at written

def AllShared (ledger : List (TableName × Handle)) (pairs : List (Handle × Handle)) : Prop :=
  ∀ handle ∈ inTurn pairs, (.shared, handle) ∈ ledger

theorem AllShared.keys (shared : AllShared ledger pairs) :
    ∀ pair ∈ pairs, (TableName.shared, pair.1) ∈ ledger := fun pair member =>
  shared pair.1 (Json.mem_inTurn.mpr ⟨pair, member, .inl rfl⟩)

theorem AllShared.mono {fewer : List (Handle × Handle)} {later : List (TableName × Handle)}
    (shared : AllShared ledger pairs) (among : fewer ⊆ pairs) (goes : ledger ⊆ later) :
    AllShared later fewer := by
  intro handle member
  obtain ⟨pair, held, same⟩ := Json.mem_inTurn.mp member
  exact goes (shared handle (Json.mem_inTurn.mpr ⟨pair, among held, same⟩))

section
variable [ContentHash]

theorem Keeps.apart (keeps : world.Keeps ledger) (place : Placement) :
    Handle.Apart place fun handle => (TableName.shared, handle) ∈ ledger where
  order first second := keeps.compare_table first second rfl
  same := by
    intro one other first second equal
    have same := (keeps.same_iff first second).mpr ⟨rfl, equal⟩
    exact congrArg Prod.snd (keeps.entry first second same)

theorem Keeps.internAll (keeps : world.Keeps ledger)
    (wellFormed : ∀ text ∈ texts, Utf8.WellFormed text) :
    (world.internAll texts).world.GoesOn ledger
        ((world.internAll texts).answer.map fun handle => (.shared, handle)) ∧
      (world.internAll texts).answer.map Handle.content = texts := by
  induction texts generalizing world ledger with
  | nil => exact ⟨keeps.goesOn (List.nil_subset ledger), rfl⟩
  | cons text texts ih =>
    obtain ⟨first, others⟩ := List.forall_mem_cons.mp wellFormed
    obtain ⟨⟨middle, goes, kept, shows⟩, content⟩ := keeps.internShared first
    obtain ⟨⟨last, further, held, known⟩, contents⟩ := ih kept others
    refine ⟨⟨last, List.Subset.trans goes further, held, ?_⟩, ?_⟩
    · exact List.append_subset.mpr ⟨List.Subset.trans shows further, known⟩
    · exact List.cons_eq_cons.mpr ⟨content, contents⟩

-- Interning texts is a run of actions, so all that holds after a run holds after it.
theorem internAll_run (world : World) (wellFormed : ∀ text ∈ texts, Utf8.WellFormed text) :
    (world.internAll texts).world =
      (world.run (texts.map fun text => .construct (.lenient .plain text))).world := by
  induction texts generalizing world with
  | nil => rfl
  | cons text texts ih =>
    obtain ⟨first, others⟩ := List.forall_mem_cons.mp wellFormed
    have arrived : (world.act (.construct (.lenient .plain text))).world =
        (world.internShared text).world := by
      rw [act_world, after, construct, arrive, Utf8.repair_kept first]
    change ((world.internShared text).world.internAll texts).world =
      ((world.act (.construct (.lenient .plain text))).world.run _).world
    rw [arrived, ih _ others]

theorem Keeps.internShared_listed (keeps : world.Keeps ledger)
    (known : (.shared, handle) ∈ ledger) : world.internShared handle.content = ⟨handle, world⟩ := by
  obtain ⟨table, made⟩ := Option.isSome_iff_exists.mp (keeps.known _ known)
  have found : world.find? .shared = some table := made
  exact internShared_known found
    ((keeps.valid found).probe_iff.mpr ⟨(keeps.listed found handle).mpr known, rfl⟩)

theorem Keeps.internAll_listed (keeps : world.Keeps ledger)
    (known : ∀ handle ∈ handles, (.shared, handle) ∈ ledger) :
    world.internAll (handles.map Handle.content) = ⟨handles, world⟩ := by
  induction handles with
  | nil => rfl
  | cons handle handles ih =>
    obtain ⟨first, others⟩ := List.forall_mem_cons.mp known
    simp only [List.map_cons, World.internAll, keeps.internShared_listed first, ih others]

-- What a map holds that was read of an object with those members, and what comes of it later; `entries`
-- is what is left of the members.
structure HoldsMembers (world : World) (map : OrderedMap place Handle)
    (members entries : List (List Char × List Char)) : Prop where
  files : Files Utf8.encode members entries
  size : map.size = (members.map Prod.fst).dedup.length
  contents : map.toList.map Handle.contents = entries.map encoded
  recalled : ∀ actions, ∀ handle ∈ inTurn map.toList, ∃ table,
    (world.run actions).world.Recalls .shared table handle
  found : ∀ actions {route scalars}, route.Reaches (Utf8.encode scalars) → ∃ handle after,
    (world.run actions).world.construct route = ⟨.ok handle, after⟩ ∧
      map[handle]?.map Handle.content = (members.reverse.lookup scalars).map Utf8.encode
  written : IsObject map.toJson entries
  again : ∀ actions, ∃ same : OrderedMap place Handle,
    (world.run actions).world.readMap place map.toJson = ⟨.ok same, (world.run actions).world⟩ ∧
      same.toList = map.toList ∧ same.toJson = map.toJson

theorem Keeps.readMap_again (keeps : world.Keeps ledger) {map : OrderedMap place Handle}
    (shared : AllShared ledger map.toList)
    (contents : map.toList.map Handle.contents = entries.map encoded) :
    world.readMap place map.toJson = ⟨.ok (.ofPairs place map.toList), world⟩ := by
  obtain ⟨rest, read, atEnd⟩ := Json.isObject_iff.mp (toJson_isObject contents)
  rw [textsOf, ← contents, ← Json.map_inTurn] at read
  have interned : world.internAll ((inTurn map.toList).map Handle.content) =
      ⟨inTurn map.toList, world⟩ := keeps.internAll_listed shared
  rw [readMap, read]
  dsimp only
  rw [interned, if_pos atEnd, Json.inPairs_inTurn]

section

variable (place : Placement) (keeps : world.Keeps ledger) (shared : AllShared ledger pairs)
  (contents : pairs.map Handle.contents = members.map encoded)

include keeps shared

theorem Keeps.files : Files Handle.content pairs (OrderedMap.ofPairs place pairs).toList :=
  OrderedMap.ofPairs_files (keeps.apart place) shared.keys

theorem Keeps.files_bytes :
    Files id (pairs.map Handle.contents)
      ((OrderedMap.ofPairs place pairs).toList.map Handle.contents) := by
  apply (keeps.files place shared).toBytes
  intro one first other second equal
  exact (keeps.apart place).same (shared.keys one first) (shared.keys other second) equal

include contents

theorem Keeps.entries_left : ∃ entries,
    (OrderedMap.ofPairs place pairs).toList.map Handle.contents = entries.map encoded ∧
      Files Utf8.encode members entries := by
  have files := keeps.files_bytes place shared
  rw [contents] at files
  have spelled : (OrderedMap.ofPairs place pairs).toList.map Handle.contents ∈
      Set.range (List.map encoded) := by
    rw [Set.range_list_map]
    intro pair member
    obtain ⟨entry, _, same⟩ := List.mem_map.mp (files.subset member)
    exact ⟨entry, same⟩
  obtain ⟨entries, left⟩ := spelled
  rw [← left] at files
  exact ⟨entries, left.symm, files.ofBytes (fun _ _ => Utf8.encode_injective)
    fun _ _ => Utf8.encode_injective⟩

theorem Keeps.getElem?_content (known : (.shared, handle) ∈ ledger) {scalars : List Char}
    (content : handle.content = Utf8.encode scalars) :
    (OrderedMap.ofPairs place pairs)[handle]?.map Handle.content =
      (members.reverse.lookup scalars).map Utf8.encode := by
  have apart := keeps.apart place
  rw [OrderedMap.getElem?_ofPairs apart shared.keys known]
  have byContent : (pairs.map Handle.contents).reverse.lookup handle.content =
      (pairs.reverse.lookup handle).map Handle.content :=
    lookup_reverse_map fun pair member => apart.same (shared.keys pair member) known
  rw [← byContent, contents, content]
  exact lookup_reverse_map fun _ _ => Utf8.encode_injective

theorem Keeps.holds : ∃ entries, world.HoldsMembers (OrderedMap.ofPairs place pairs) members entries := by
  obtain ⟨entries, left, files⟩ := keeps.entries_left place shared contents
  have filed := keeps.files place shared
  refine ⟨entries, files, ?_, left, ?_, ?_, toJson_isObject left, ?_⟩
  · rw [← Std.TreeMap.length_toList, ← files.count, ← List.length_map Handle.contents, left,
      List.length_map]
  · intro actions handle member
    obtain ⟨later, goes, kept, _⟩ := keeps.run actions
    exact kept.shared_recalls (shared.mono filed.subset goes handle member)
  · intro actions route scalars reaches
    obtain ⟨later, goes, kept, _⟩ := keeps.run actions
    obtain ⟨handle, after, content, meets⟩ := kept.meets ⟨scalars, rfl⟩
    have arrived := meets.first route reaches
    obtain ⟨last, further, held, shows⟩ := kept.construct route
    rw [arrived] at held shows
    have known : (TableName.shared, handle) ∈ last := shows List.mem_cons_self
    exact ⟨handle, after, arrived, held.getElem?_content place
      (shared.mono (List.Subset.refl pairs) (List.Subset.trans goes further)) contents known content⟩
  · intro actions
    obtain ⟨later, goes, kept, _⟩ := keeps.run actions
    have known := shared.mono filed.subset goes
    have same := OrderedMap.toList_ofPairs (kept.apart place) known.keys filed.ascends
    refine ⟨_, kept.readMap_again known left, same, ?_⟩
    rw [OrderedMap.toJson, same, OrderedMap.toJson]

end

-- How a world reads objects. What was read before a fault is interned as well.
structure ReadsObjects (world : World) (place : Placement) : Prop where
  accepted : ∀ source, (∃ map, (world.readMap place source).answer = .ok map) ↔
    ∃ members, IsObject source members
  interns : ∀ source, (world.readMap place source).world =
    (world.run ((Json.expectObject source).texts.map fun text =>
      .construct (.lenient .plain text))).world
  reads : ∀ {source members}, IsObject source members → ∃ map later entries,
    world.readMap place source = ⟨.ok map, later⟩ ∧ later.HoldsMembers map members entries

theorem Keeps.reads (keeps : world.Keeps ledger) (place : Placement) {source : Bytes}
    (isObject : IsObject source members) : ∃ map later entries,
      world.readMap place source = ⟨.ok map, later⟩ ∧ later.HoldsMembers map members entries := by
  obtain ⟨rest, read, atEnd⟩ := Json.isObject_iff.mp isObject
  have wellFormed : ∀ text ∈ (Json.expectObject source).texts, Utf8.WellFormed text :=
    Json.expectObject_wellFormed
  rw [read] at wellFormed
  obtain ⟨⟨later, _, kept, shows⟩, texts⟩ := keeps.internAll wellFormed
  have shared : AllShared later (inPairs (world.internAll (textsOf members)).answer) :=
    fun handle member => shows (List.mem_map_of_mem (Json.inTurn_inPairs_subset _ member))
  have contents : (inPairs (world.internAll (textsOf members)).answer).map Handle.contents =
      members.map encoded := by
    rw [Handle.contents, Json.map_inPairs, texts, textsOf, Json.inPairs_inTurn]
  obtain ⟨entries, holds⟩ := kept.holds place shared contents
  refine ⟨_, _, entries, ?_, holds⟩
  rw [readMap, read]
  dsimp only
  rw [if_pos atEnd]

theorem readMap_isObject {source : Bytes} {map : OrderedMap place Handle}
    (answered : (world.readMap place source).answer = .ok map) :
    ∃ members, IsObject source members := by
  rw [readMap] at answered
  dsimp only at answered
  split at answered
  · cases answered
  · rename_i rest ended
    split at answered
    · rename_i atEnd
      exact Json.isObject_of_ended ended atEnd
    · cases answered

theorem Keeps.readsObjects (keeps : world.Keeps ledger) (place : Placement) :
    world.ReadsObjects place where
  accepted source := by
    constructor
    · rintro ⟨map, answered⟩
      exact readMap_isObject answered
    · rintro ⟨members, isObject⟩
      obtain ⟨map, later, _, read, _⟩ := keeps.reads place isObject
      exact ⟨map, congrArg Outcome.answer read⟩
  interns source := world.internAll_run Json.expectObject_wellFormed
  reads isObject := keeps.reads place isObject

theorem objects_read (actions : List Action) (place : Placement) :
    (World.run {} actions).world.ReadsObjects place := by
  obtain ⟨ledger, keeps, _⟩ := run_keeps actions
  exact keeps.readsObjects place

end

-- A key comes twice, in two spellings, around a lower one; the buffers lie in the opposite order of
-- their making.
theorem objects_read_spellings :
    let members := [("b".toList, "1".toList), ("a".toList, "2".toList), ("b".toList, "3".toList)]
    let source := Utf8.ofText " \x7b\"b\" :\"1\", \"a\":\"2\",\"\\u0062\":\"3\"\x7d\n"
    let place : Placement := fun number => 1000 - number
    IsObject source members ∧ ∃ (map : OrderedMap place Handle) (later : World),
      World.readMap {} place source = ⟨.ok map, later⟩ ∧ map.size = 2 ∧
      map.toJson = Utf8.ofText "\x7b\"a\":\"2\",\"b\":\"3\"\x7d" ∧
      ∃ same : OrderedMap place Handle, later.readMap place map.toJson = ⟨.ok same, later⟩ ∧
        same.toList = map.toList := by
  intro members source place
  have isObject : IsObject source members :=
    Json.isObject_iff.mpr
      ⟨[0x0A], Json.Members.ext (by decide +kernel) (by decide +kernel), by decide +kernel⟩
  obtain ⟨map, later, entries, answered, holds⟩ := (objects_read [] place).reads isObject
  have read : World.readMap {} place source = ⟨.ok map, later⟩ := answered
  have written : (World.readMap {} place source).answer.map OrderedMap.toJson =
      .ok (Utf8.ofText "\x7b\"a\":\"2\",\"b\":\"3\"\x7d") := by
    decide +kernel
  rw [read] at written
  obtain ⟨same, again, equal, _⟩ := holds.again []
  exact ⟨isObject, map, later, read, holds.size, Except.ok.inj written, same, again, equal⟩

end World

end InternPool
