import InternPool.Proofs.Utf8.Cutting
import InternPool.Proofs.Utf8.Projection
import InternPool.Proofs.World.Permanence

namespace InternPool

namespace Handle

variable [ContentHash] {handle : Handle} {hasher : ContentHasher}

theorem Canonical.length (canonical : handle.Canonical hasher) :
    handle.length = handle.content.length := by
  rw [Handle.length, canonical.terminated, List.length_append, List.length_singleton,
    Nat.add_sub_cancel]

theorem Canonical.cut (canonical : handle.Canonical hasher) :
    cutAtNul handle.buffer.bytes = cutAtNul handle.content := by
  rw [canonical.terminated]
  exact cutAtNul_nul handle.content []

theorem Canonical.cString? (canonical : handle.Canonical hasher) :
    handle.cString? = if 0 ∈ handle.content then none else some handle.content := by
  have bytes : handle.buffer.bytes.length = handle.content.length + 1 := by
    rw [canonical.terminated, List.length_append, List.length_singleton]
  simp only [Handle.cString?, cView, canonical.cut, bytes, Nat.add_right_cancel_iff]
  by_cases zero : 0 ∈ handle.content
  · have shorter : (cutAtNul handle.content).length ≠ handle.content.length := by
      intro equal
      have whole := (List.takeWhile_prefix _).eq_of_length equal
      exact cutAtNul_eq_self_iff.mp whole zero
    rw [if_neg shorter, if_pos zero]
  · rw [cutAtNul_eq_self_iff.mpr zero, if_pos rfl, if_neg zero]

end Handle

theorem readMemory_handle (handle : Handle) :
    readMemory (some handle.buffer.bytes) handle.length = handle.content := by
  rw [readMemory, Handle.content]
  split
  · rename_i empty
    rw [empty, List.take_zero]
  · rfl

-- The action that does at home what a caller in C does from outside.
def Action.domestic : Action → Action
  | .foreignNew memory => .construct (.cString memory)
  | .foreignFromBytes memory length => .construct (.lenient .plain (readMemory memory length))
  | action => action

namespace World

section
variable [ContentHash] {world : World} {ledger : List (TableName × Handle)} {handle : Handle}
  {action : Action} {actions : List Action} {value one other : ForeignValue}

theorem act_domestic (world : World) (action : Action) :
    (world.act action.domestic).world = (world.act action).world := by
  cases action <;> rfl

theorem shownBy_domestic (world : World) (action : Action) :
    shownBy action (world.act action).answer ⊆
      shownBy action.domestic (world.act action.domestic).answer := by
  cases action with
  | foreignNew | foreignFromBytes => exact List.nil_subset _
  | create | drop | ask | useShared | configure | construct => exact List.Subset.refl _

-- A value for C comes of no other action than the two, and has a handle behind it.
theorem act_foreign (given : (world.act action).answer = .foreign value) :
    ∃ handle, value = .ofHandle handle ∧
      (.shared, handle) ∈ shownBy action.domestic (world.act action.domestic).answer := by
  cases action with
  | foreignNew | foreignFromBytes =>
    cases given
    exact ⟨_, rfl, List.mem_singleton.mpr rfl⟩
  | useShared => cases given
  | create | drop | ask | configure | construct =>
    rw [act] at given
    split at given <;> cases given

theorem run_domestic (world : World) (actions : List Action) :
    (world.run (actions.map Action.domestic)).world = (world.run actions).world := by
  induction actions generalizing world with
  | nil => rfl
  | cons action rest ih =>
    rw [List.map_cons, run, run, act_domestic]
    exact ih (world.act action).world

theorem shown_domestic (world : World) (actions : List Action) :
    world.shown actions ⊆ world.shown (actions.map Action.domestic) := by
  induction actions generalizing world with
  | nil => exact List.Subset.refl _
  | cons action rest ih =>
    rw [List.map_cons, shown_cons, shown_cons, act_domestic]
    exact List.append_subset.mpr
      ⟨List.subset_append_of_subset_left _ (world.shownBy_domestic action),
        List.subset_append_of_subset_right _ (ih (world.act action).world)⟩

theorem run_foreign (given : .foreign value ∈ (world.run actions).answer) :
    ∃ handle, value = .ofHandle handle ∧
      (.shared, handle) ∈ world.shown (actions.map Action.domestic) := by
  induction actions generalizing world with
  | nil => cases given
  | cons action rest ih =>
    rw [List.map_cons, shown_cons, act_domestic]
    rcases List.mem_cons.mp given with first | later
    · obtain ⟨handle, same, shown⟩ := act_foreign first.symm
      exact ⟨handle, same, List.mem_append_left _ shown⟩
    · obtain ⟨handle, same, shown⟩ := ih later
      exact ⟨handle, same, List.mem_append_right _ shown⟩

-- The values that a run has handed to C: what the calls from C came to, and what a handle of the
-- shared table was turned into.
inductive Handed (world : World) (actions : List Action) : ForeignValue → Prop where
  | called {value : ForeignValue} (given : .foreign value ∈ (world.run actions).answer) :
      Handed world actions value
  | converted {handle : Handle} (shown : (.shared, handle) ∈ world.shown actions) :
      Handed world actions (.ofHandle handle)

theorem Handed.behind (handed : world.Handed actions value) :
    ∃ handle, value = .ofHandle handle ∧
      (.shared, handle) ∈ world.shown (actions.map Action.domestic) := by
  cases handed with
  | called given => exact run_foreign given
  | converted shown => exact ⟨_, rfl, world.shown_domestic actions shown⟩

structure Faithful (world : World) (value : ForeignValue) : Prop where
  terminated : value.pointer.bytes = value.content ++ [0]
  measured : value.length = value.content.length
  empty : value.isEmpty = true ↔ value.length = 0
  blank : value.length = 0 ↔ value.content = []
  whole : world.foreignFromBytes (some value.pointer.bytes) value.length = ⟨value, world⟩
  cut : (world.foreignNew value.pointer.bytes).answer.content = cutAtNul value.content
  uncut : (world.foreignNew value.pointer.bytes).answer.same value = true ↔ 0 ∉ value.content

theorem Keeps.faithful (keeps : world.Keeps ledger) (known : (.shared, handle) ∈ ledger) :
    world.Faithful (.ofHandle handle) := by
  obtain ⟨table, recalls⟩ := keeps.shared_recalls known
  have canonical := recalls.canonical
  have wellFormed := canonical.wellFormed
  -- What stands before the first NUL is well formed, so interning it repairs nothing.
  have prefixed := cutAtNul_wellFormed wellFormed
  obtain ⟨⟨_, goes, kept, shows⟩, content⟩ := keeps.internShared prefixed
  have called : world.foreignNew handle.buffer.bytes =
      ⟨.ofHandle (world.internShared (cutAtNul handle.content)).answer,
        (world.internShared (cutAtNul handle.content)).world⟩ := by
    rw [foreignNew, canonical.cut, Utf8.repair_kept prefixed]
  refine ⟨canonical.terminated, canonical.length, beq_iff_eq, ?_, ?_, ?_, ?_⟩
  · change handle.length = 0 ↔ handle.content = []
    rw [canonical.length, List.length_eq_zero_iff]
  · apply recalls.foreignFromBytes rfl
    change (Utf8.repair (readMemory (some handle.buffer.bytes) handle.length)).value = handle.content
    rw [readMemory_handle, Utf8.repair_kept wellFormed]
  · change (world.foreignNew handle.buffer.bytes).answer.content = _
    rw [called]
    exact content
  · change (world.foreignNew handle.buffer.bytes).answer.same _ = true ↔ 0 ∉ handle.content
    rw [called]
    have exact := kept.same_iff (List.cons_subset.mp shows).1 (goes known)
    simp only [true_and, content] at exact
    exact exact.trans cutAtNul_eq_self_iff

-- The view that C has of a handle, as far as there is one, leads back to it.
theorem Keeps.cString (keeps : world.Keeps ledger) (known : (.shared, handle) ∈ ledger) :
    (handle.cString?.isSome = true ↔ 0 ∉ handle.content) ∧
      ∀ string, handle.cString? = some string → ∀ after,
        world.construct (.cString (string ++ 0 :: after)) = ⟨.ok handle, world⟩ := by
  obtain ⟨table, recalls⟩ := keeps.shared_recalls known
  have canonical := recalls.canonical
  rw [canonical.cString?]
  by_cases zero : 0 ∈ handle.content
  · rw [if_pos zero]
    exact ⟨iff_of_false Bool.false_ne_true (not_not_intro zero), nofun⟩
  · rw [if_neg zero]
    refine ⟨iff_of_true rfl zero, ?_⟩
    intro string present after
    cases present
    refine recalls.constructed rfl _ ?_
    rw [Route.content, cutAtNul_nul, cutAtNul_eq_self_iff.mpr zero,
      Utf8.repair_kept canonical.wellFormed]

theorem foreign_faithful (actions : List Action) :
    let world := (World.run {} actions).world
    (∀ one, World.Handed {} actions one → world.Faithful one ∧
      ∀ other, World.Handed {} actions other →
        (one.same other = true ↔ one.content = other.content) ∧
          (one.same other = true → one.hash = other.hash)) ∧
    ∀ handle, (TableName.shared, handle) ∈ World.shown {} actions →
      (handle.cString?.isSome = true ↔ 0 ∉ handle.content) ∧
        ∀ string, handle.cString? = some string → ∀ after,
          world.construct (.cString (string ++ 0 :: after)) = ⟨.ok handle, world⟩ := by
  intro world
  obtain ⟨ledger, keeps, listed⟩ := run_keeps (actions.map Action.domestic)
  rw [run_domestic] at keeps
  constructor
  · intro one first
    obtain ⟨left, rfl, shown⟩ := first.behind
    refine ⟨keeps.faithful (listed shown), ?_⟩
    intro other second
    obtain ⟨right, rfl, also⟩ := second.behind
    have exact := keeps.same_iff (listed shown) (listed also)
    simp only [true_and] at exact
    refine ⟨exact, ?_⟩
    intro same
    cases keeps.entry (listed shown) (listed also) same
    rfl
  · intro handle shown
    exact keeps.cString (listed (World.shown_domestic {} actions shown))

end

-- A content with a NUL inside comes from C and is not the string before the NUL, which came as a text
-- and then from C too.
theorem foreign_faithful_nul :
    let actions : List Action :=
      [.foreignFromBytes (some [0x61, 0, 0x62, 0xFF]) 3, .construct (.text .plain "a"),
        .foreignNew [0x61, 0, 0x62]]
    let world := (World.run {} actions).world
    let long : ForeignValue := ⟨⟨0, [0x61, 0, 0x62, 0]⟩, 3, ContentHasher.hash {} [0x61, 0, 0x62]⟩
    let short : Handle := ⟨⟨1, [0x61, 0]⟩, ContentHasher.hash {} [0x61]⟩
    World.Handed {} actions long ∧ World.Handed {} actions (.ofHandle short) ∧
      (TableName.shared, short) ∈ World.shown {} actions ∧
      long.same (.ofHandle short) = false ∧
      (world.foreignNew long.pointer.bytes).answer.content = [0x61] ∧
      (world.foreignNew long.pointer.bytes).answer.same long = false ∧
      world.foreignFromBytes (some long.pointer.bytes) long.length = ⟨long, world⟩ ∧
      short.cString? = some [0x61] ∧
      world.construct (.cString [0x61, 0, 0xFF]) = ⟨.ok short, world⟩ := by
  intro actions world long short
  have called : .foreign long ∈ (World.run {} actions).answer := by decide +kernel
  have shown : (TableName.shared, short) ∈ World.shown {} actions := by decide +kernel
  obtain ⟨values, handles⟩ := foreign_faithful actions
  obtain ⟨faithful, others⟩ := values long (.called called)
  refine ⟨.called called, .converted shown, shown, ?_, ?_, ?_, faithful.whole, rfl,
    (handles short shown).2 _ rfl [0xFF]⟩
  · rw [Bool.eq_false_iff, ne_eq, (others _ (.converted shown)).1]
    decide
  · exact faithful.cut.trans (by decide)
  · rw [Bool.eq_false_iff, ne_eq, faithful.uncut]
    decide

end World

end InternPool
