import InternPool.Proofs.Utf8.Measure
import InternPool.Proofs.World.ForeignView
import InternPool.Proofs.World.Meeting

namespace InternPool

namespace Handle

structure Measures (handle : Handle) (bytes : Bytes) : Prop where
  content : handle.content = (Utf8.repair bytes).value
  length : handle.length = (Utf8.sequences bytes).flatten.length + 3 * (Utf8.subparts bytes).length
  isEmpty : handle.isEmpty = true ↔ bytes = []
  terminated : handle.terminated.length = handle.length + 1

variable [ContentHash] {handle : Handle} {hasher : ContentHasher} {bytes : Bytes}

theorem Canonical.measures (canonical : handle.Canonical hasher)
    (repaired : handle.content = (Utf8.repair bytes).value) : handle.Measures bytes := by
  have measured := Utf8.measured bytes
  have length : handle.length = (Utf8.repair bytes).value.length := by
    rw [canonical.length, repaired]
  refine ⟨repaired, length.trans measured.length, ?_, ?_⟩
  · rw [Handle.isEmpty, beq_iff_eq, length, ← List.length_eq_zero_iff]
    have least := measured.least
    have most := measured.most
    omega
  · rw [Handle.terminated, canonical.terminated, canonical.length, List.length_append,
      List.length_singleton]

end Handle

namespace World

section
variable [ContentHash] {world : World} {ledger : List (TableName × Handle)} {name : TableName}
  {table : Table} {bytes : Bytes}

theorem Keeps.measures (keeps : world.Keeps ledger) {handle : Handle}
    (listed : (name, handle) ∈ ledger) (repaired : handle.content = (Utf8.repair bytes).value) :
    handle.Measures bytes := by
  obtain ⟨hasher, canonical⟩ := keeps.canonical _ listed
  exact canonical.measures repaired

theorem Keeps.construct_measures (keeps : world.Keeps ledger) {route : Route}
    (mends : route.Mends bytes) :
    ∃ handle, (world.construct route).answer = .ok handle ∧ handle.Measures bytes := by
  obtain ⟨⟨later, _, kept, shows⟩, repaired⟩ := keeps.internShared (Utf8.repair_wellFormed bytes)
  refine ⟨_, ?_, kept.measures (List.cons_subset.mp shows).1 repaired⟩
  rw [construct_content, mends.reaches.1, mends.reaches.2]
  rfl

theorem Keeps.ask_measures (keeps : world.Keeps ledger)
    (found : (world.ready name).find? name = some table) :
    ∃ handle, (world.ask name (.call (.intern bytes))).answer = some (.handle (some handle)) ∧
      handle.Measures bytes := by
  obtain ⟨⟨later, _, kept, shows⟩, repaired⟩ :=
    (keeps.ready name).enter found (Utf8.repair_wellFormed bytes)
  refine ⟨_, ?_, kept.measures (List.cons_subset.mp shows).1 repaired⟩
  have interns : (Call.intern bytes).interns = true := rfl
  rw [World.ask, found]
  simp only [Table.answer, Table.call_interning interns, Call.content]

theorem repair_measured (bytes : Bytes) :
    Utf8.Measured bytes ∧ ∀ actions : List Action,
      (∀ route : Route, route.Mends bytes → ∃ handle,
        ((World.run {} actions).world.construct route).answer = .ok handle ∧
          handle.Measures bytes) ∧
      (∀ name table, ((World.run {} actions).world.ready name).find? name = some table →
        ∃ handle, ((World.run {} actions).world.ask name (.call (.intern bytes))).answer =
          some (.handle (some handle)) ∧ handle.Measures bytes) ∧
      ∀ entry ∈ World.shown {} actions, entry.2.content = (Utf8.repair bytes).value →
        entry.2.Measures bytes := by
  refine ⟨Utf8.measured bytes, ?_⟩
  intro actions
  obtain ⟨ledger, keeps, shown⟩ := run_keeps actions
  refine ⟨fun route => keeps.construct_measures, fun name table => keeps.ask_measures, ?_⟩
  intro entry member repaired
  exact keeps.measures (shown member) repaired

end

-- Two sequences, one of them U+FFFD itself, around subparts of all three lengths.
theorem repair_measured_mixed :
    let bytes : Bytes := [0x61, 0xE2, 0x82, 0xEF, 0xBF, 0xBD, 0xFF, 0xF0, 0x9F, 0x98]
    let actions : List Action := [.create { shards := 2 }, .construct (.lenient .plain bytes)]
    let world := (World.run {} actions).world
    Utf8.sequences bytes = [[0x61], Utf8.replacement] ∧
      Utf8.subparts bytes = [[0xE2, 0x82], [0xFF], [0xF0, 0x9F, 0x98]] ∧
      (Utf8.repair bytes).value.length = 13 ∧ (Utf8.repairText bytes).value.length = 5 ∧
      (Utf8.repairText bytes).value.toList.count Utf8.replacementScalar = 4 ∧
      (∃ handle, (world.construct (.lenient .slice bytes)).answer = .ok handle ∧
        handle.length = 13) ∧
      (∃ handle, (world.ask (.numbered 0) (.call (.intern bytes))).answer =
        some (.handle (some handle)) ∧ handle.length = 13) ∧
      ∃ entry ∈ World.shown {} actions, entry.2.length = 13 := by
  intro bytes actions world
  have sequences : Utf8.sequences bytes = [[0x61], Utf8.replacement] := by decide +kernel
  have subparts : Utf8.subparts bytes = [[0xE2, 0x82], [0xFF], [0xF0, 0x9F, 0x98]] := by
    decide +kernel
  obtain ⟨measured, inWorlds⟩ := repair_measured bytes
  obtain ⟨routes, tables, shown⟩ := inWorlds actions
  have counted : ∀ {handle : Handle}, handle.Measures bytes → handle.length = 13 := by
    intro handle measures
    rw [measures.length, sequences, subparts]
    rfl
  obtain ⟨handle, constructed, measures⟩ := routes (.lenient .slice bytes) (.lenient .slice)
  obtain ⟨other, interned, also⟩ := tables (.numbered 0) _ rfl
  have first : ∃ entry ∈ World.shown {} actions, entry.2.content = (Utf8.repair bytes).value := by
    decide +kernel
  obtain ⟨entry, member, repaired⟩ := first
  refine ⟨sequences, subparts, ?_, ?_, ?_, ⟨handle, constructed, counted measures⟩,
    ⟨other, interned, counted also⟩, entry, member, counted (shown entry member repaired)⟩
  · rw [measured.length, sequences, subparts]
    rfl
  · rw [measured.codePoints, sequences, subparts]
    rfl
  · rw [measured.replacements, sequences, subparts]
    rfl

end World

end InternPool
