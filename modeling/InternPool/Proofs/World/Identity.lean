import InternPool.Proofs.World.Ledger

namespace InternPool

namespace World

section
variable [ContentHash] {world : World} {ledger : List (TableName × Handle)}
  {one other : TableName × Handle}

theorem Keeps.entry (keeps : world.Keeps ledger) (first : one ∈ ledger) (second : other ∈ ledger)
    (same : one.2.same other.2 = true) : one = other :=
  List.inj_on_of_nodup_map keeps.buffers first second (beq_iff_eq.mp same)

theorem Keeps.same_iff (keeps : world.Keeps ledger) (first : one ∈ ledger)
    (second : other ∈ ledger) :
    one.2.same other.2 = true ↔ one.1 = other.1 ∧ one.2.content = other.2.content := by
  constructor
  · intro same
    rw [keeps.entry first second same]
    exact ⟨rfl, rfl⟩
  · intro equal
    have entry : one = other :=
      List.inj_on_of_nodup_map keeps.contents first second (Prod.mk.injEq .. ▸ equal)
    rw [entry, Handle.same, beq_self_eq_true]

theorem run_keeps (actions : List Action) :
    ∃ ledger, (World.run {} actions).world.Keeps ledger ∧ World.shown {} actions ⊆ ledger := by
  obtain ⟨ledger, _, keeps, shown⟩ := start_keeps.run actions
  exact ⟨ledger, keeps, shown⟩

theorem identity_exact (actions : List Action) :
    (∀ one ∈ World.shown {} actions, ∀ other ∈ World.shown {} actions,
      (one.2.same other.2 = true ↔ one.1 = other.1 ∧ one.2.content = other.2.content) ∧
        (one.2.same other.2 = true → one.2.hash = other.2.hash)) ∧
    ∀ handle, (TableName.shared, handle) ∈ World.shown {} actions → ∀ text, ∃ fresh,
      ((World.run {} actions).world.construct (.text .plain text)).answer = .ok fresh ∧
        handle.same fresh = handle.equalsText text ∧
        handle.same fresh = Handle.textEquals text handle := by
  obtain ⟨ledger, keeps, shown⟩ := run_keeps actions
  constructor
  · intro one first other second
    refine ⟨keeps.same_iff (shown first) (shown second), ?_⟩
    intro same
    rw [keeps.entry (shown first) (shown second) same]
  · intro handle member text
    obtain ⟨⟨later, goes, kept, known⟩, content⟩ :=
      keeps.internShared (Utf8.ofText_wellFormed text)
    have exact := kept.same_iff (goes (shown member)) (List.cons_subset.mp known).1
    simp only [true_and, content] at exact
    refine ⟨_, rfl, ?_, ?_⟩
    · rw [Bool.eq_iff_iff, exact, Handle.equalsText, beq_iff_eq]
    · rw [Bool.eq_iff_iff, exact, Handle.textEquals, beq_iff_eq, eq_comm]

end

-- Three tables hold one content; the first was dropped before the second was made.
theorem identity_exact_dropped :
    let actions : List Action :=
      [.create { shards := 2 }, .ask (.numbered 0) (.call (.internText "a")), .drop 0, .create {},
        .ask (.numbered 1) (.call (.internText "a")), .construct (.lenient .plain [0x61])]
    let dropped : Handle := ⟨⟨0, [0x61, 0]⟩, ContentHasher.hash {} [0x61]⟩
    let kept : Handle := ⟨⟨1, [0x61, 0]⟩, ContentHasher.hash {} [0x61]⟩
    let shared : Handle := ⟨⟨2, [0x61, 0]⟩, ContentHasher.hash {} [0x61]⟩
    (.numbered 0, dropped) ∈ World.shown {} actions ∧
      (.numbered 1, kept) ∈ World.shown {} actions ∧
      (.shared, shared) ∈ World.shown {} actions ∧ dropped.same kept = false ∧
      ∃ fresh, ((World.run {} actions).world.construct (.text .plain "a")).answer = .ok fresh ∧
        shared.same fresh = shared.equalsText "a" := by
  intro actions dropped kept shared
  have first : (TableName.numbered 0, dropped) ∈ World.shown {} actions := by decide +kernel
  have second : (TableName.numbered 1, kept) ∈ World.shown {} actions := by decide +kernel
  have third : (TableName.shared, shared) ∈ World.shown {} actions := by decide +kernel
  obtain ⟨apart, joined⟩ := identity_exact actions
  obtain ⟨fresh, answered, equal, _⟩ := joined shared third "a"
  refine ⟨first, second, third, ?_, fresh, answered, equal⟩
  rw [Bool.eq_false_iff]
  intro same
  exact absurd ((apart _ first _ second).1.mp same).1 (by decide)

end World

end InternPool
