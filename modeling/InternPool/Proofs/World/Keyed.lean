import InternPool.Proofs.Keyed.FiniteMap
import InternPool.Proofs.World.Identity

namespace InternPool

-- What a hash map asks of its keys: that their equality is one, and that equal keys hash equally.
structure HandleMap.Lawful (keys : Handle → Prop) : Prop where
  equivalence : Equivalence fun one other : Handle => one.same other = true
  hashes : ∀ one other, keys one → keys other → one.same other = true → keyHash one = keyHash other

theorem Handle.same_equivalence : Equivalence fun one other : Handle => one.same other = true := by
  simp only [Handle.same, beq_iff_eq]
  exact ⟨fun _ => rfl, Eq.symm, Eq.trans⟩

namespace World

def identity (entry : TableName × Handle) : TableName × Bytes :=
  (entry.1, entry.2.content)

section
variable [ContentHash] {world : World} {ledger : List (TableName × Handle)}

theorem Keeps.lawful (keeps : world.Keeps ledger) :
    HandleMap.Lawful fun handle => ∃ name, (name, handle) ∈ ledger where
  equivalence := Handle.same_equivalence
  hashes := by
    rintro one other ⟨_, first⟩ ⟨_, second⟩ same
    cases keeps.entry first second same
    rfl

theorem Keeps.named (keeps : world.Keeps ledger) :
    HandleMap.Named Prod.snd identity (· ∈ ledger) := by
  intro one other first second
  rw [HandleMap.hits, Bool.and_eq_true, beq_iff_eq, identity, identity, Prod.mk.injEq,
    ← keeps.same_iff first second, and_iff_left_iff_imp]
  exact keeps.lawful.hashes one.2 other.2 ⟨_, first⟩ ⟨_, second⟩

theorem keyed_by_identity (actions : List Action) :
    (HandleMap.Lawful fun handle => ∃ name, (name, handle) ∈ World.shown {} actions) ∧
      HandleMap.KeyedBy Prod.snd identity (· ∈ World.shown {} actions) ∧
      ∀ name, HandleMap.KeyedBy Prod.snd (fun entry => entry.2.content)
        fun entry => entry ∈ World.shown {} actions ∧ entry.1 = name := by
  obtain ⟨ledger, keeps, listed⟩ := run_keeps actions
  refine ⟨?_, ?_, ?_⟩
  · refine ⟨Handle.same_equivalence, ?_⟩
    rintro one other ⟨name, first⟩ ⟨place, second⟩
    exact keeps.lawful.hashes one other ⟨name, listed first⟩ ⟨place, listed second⟩
  · apply HandleMap.Named.keyedBy
    intro one other first second
    exact keeps.named one other (listed first) (listed second)
  · intro name
    apply HandleMap.Named.keyedBy
    intro one other first second
    rw [keeps.named one other (listed first.1) (listed second.1), identity, identity, first.2,
      second.2, Prod.mk.injEq]
    exact and_iff_right rfl

end

-- Two contents that hash alike under the seed of two tables: both are in the first table, and one of
-- them is in the second too. All three hashes are equal, and the keys stay apart.
theorem keyed_by_identity_colliding :
    let options : Options := { shards := 1, hashSeed := 0x99D88DBC8B17D3BC }
    let left : Bytes := [0x75, 0x0D, 0x5A, 0x75, 0x38, 0x01, 0x5B, 0x01,
      0x7D, 0x7E, 0x7E, 0x7E, 0x7E, 0x2E, 0x7E, 0x15]
    let right : Bytes := [0x75, 0x0D, 0x5A, 0x75, 0x38, 0x01, 0x5B, 0x02,
      0x7E, 0x7E, 0x7E, 0x7E, 0x7E, 0x2E, 0x7E, 0x15]
    let actions : List Action :=
      [.create options, .create options, .ask (.numbered 0) (.call (.intern left)),
        .ask (.numbered 0) (.call (.intern right)), .ask (.numbered 1) (.call (.intern left))]
    let hash := ContentHasher.hash ⟨options.hashSeed⟩ left
    let one : TableName × Handle := (.numbered 0, ⟨⟨0, left ++ [0]⟩, hash⟩)
    let two : TableName × Handle := (.numbered 0, ⟨⟨1, right ++ [0]⟩, hash⟩)
    let three : TableName × Handle := (.numbered 1, ⟨⟨2, left ++ [0]⟩, hash⟩)
    let requests : List (MapRequest (TableName × Handle) Nat) :=
      [.insert one 1, .insert two 2, .insert three 3, .get one, .remove two, .get three]
    one ∈ World.shown {} actions ∧ two ∈ World.shown {} actions ∧
      three ∈ World.shown {} actions ∧
      Keeping.finmap.answerAll ∅ (requests.map (MapRequest.rename identity)) =
        ([none, none, none, some 1, some 2, some 3], 2) ∧
      Keeping.finmap.answerAll ∅ ([.insert one 1, .insert two 2, .get one].map
        (MapRequest.rename fun entry => entry.2.content)) = ([none, none, some 1], 2) := by
  intro options left right actions hash one two three requests
  have first : one ∈ World.shown {} actions := by decide +kernel
  have second : two ∈ World.shown {} actions := by decide +kernel
  have third : three ∈ World.shown {} actions := by decide +kernel
  obtain ⟨_, keyed, alone⟩ := keyed_by_identity actions
  refine ⟨first, second, third, ?_, ?_⟩
  · have known : ∀ request ∈ requests, request.key ∈ World.shown {} actions := by
      simp only [requests, List.forall_mem_cons, MapRequest.key]
      exact ⟨first, second, third, first, second, third, nofun⟩
    rw [← keyed.maps known]
    decide +kernel
  · rw [← (alone (.numbered 0)).maps]
    · decide +kernel
    · simp only [List.forall_mem_cons, MapRequest.key]
      exact ⟨⟨first, rfl⟩, ⟨second, rfl⟩, ⟨first, rfl⟩, nofun⟩

end World

end InternPool
