import InternPool.Proofs.World.ForeignView
import InternPool.Proofs.World.Meeting
import InternPool.Proofs.World.SharedTable

namespace InternPool

-- The value that a caller in C has of a result: the one given, or what its handle is turned into.
def Result.value? : Result → Option ForeignValue
  | .foreign value => some value
  | .handle given | .response (.handle (some given)) => some (.ofHandle given)
  | _ => none

namespace Action

-- The shared table is given all of the bytes, whatever NULs are among them.
inductive HandsOver (bytes : Bytes) : Action → Prop where
  | asked : HandsOver bytes (.ask .shared (.call (.intern bytes)))
  | mended {route : Route} (mends : route.Mends bytes) : HandsOver bytes (.construct route)
  | read {memory : Option Bytes} {length : Nat} (read : readMemory memory length = bytes) :
      HandsOver bytes (.foreignFromBytes memory length)

-- The action interns the content in the shared table and gives the handle.
inductive Brings (content : Bytes) : Action → Prop where
  | asked {call : Call} (interns : call.interns = true) (same : call.content = content) :
      Brings content (.ask .shared (.call call))
  | routed {route : Route} (reaches : route.Reaches content) : Brings content (.construct route)
  | cut {memory : Bytes} (same : (Utf8.repair (cutAtNul memory)).value = content) :
      Brings content (.foreignNew memory)
  | read {memory : Option Bytes} {length : Nat}
      (same : (Utf8.repair (readMemory memory length)).value = content) :
      Brings content (.foreignFromBytes memory length)

variable {action : Action} {bytes content : Bytes}

theorem HandsOver.brings (hands : action.HandsOver bytes) :
    action.Brings (Utf8.repair bytes).value := by
  cases hands with
  | asked => exact .asked rfl rfl
  | mended mends => exact .routed mends.reaches
  | read same => exact .read (by rw [same])

theorem Brings.unique {other : Bytes} (first : action.Brings content)
    (second : action.Brings other) : content = other := by
  cases first with
  | asked _ same =>
    cases second with
    | asked _ also => exact same.symm.trans also
  | routed reaches =>
    cases second with
    | routed also => exact Except.ok.inj (reaches.1.symm.trans also.1)
  | cut same =>
    cases second with
    | cut also => exact same.symm.trans also
  | read same =>
    cases second with
    | read also => exact same.symm.trans also

theorem Brings.wellFormed (brings : action.Brings content) : Utf8.WellFormed content := by
  cases brings with
  | asked _ same => exact same ▸ Call.content_wellFormed _
  | routed reaches => exact Route.content_wellFormed reaches.1
  | cut same | read same => exact same ▸ Utf8.repair_wellFormed _

end Action

namespace World

def ValueListed (ledger : List (TableName × Handle)) (content : Bytes) (result : Result) : Prop :=
  ∃ handle, result.value? = some (.ofHandle handle) ∧ handle.content = content ∧
    (.shared, handle) ∈ ledger

section
variable [ContentHash] {world : World} {ledger : List (TableName × Handle)} {action : Action}
  {content : Bytes}

theorem act_brings (brings : action.Brings content) :
    (world.act action).answer.value? = some (.ofHandle (world.internShared content).answer) ∧
      (world.act action).world = (world.internShared content).world := by
  cases brings with
  | @asked call interns same =>
    subst same
    obtain ⟨table, found⟩ := world.useShared_found
    have reached : (world.ready .shared).find? .shared = some table := found
    simp only [act, ask, reached, Table.answer, Table.call_interning interns, internShared,
      sharedTable_found found, Table.internContent_enter, Result.value?]
    exact ⟨rfl, rfl⟩
  | routed reaches =>
    rw [act, construct_content, reaches.1, reaches.2]
    exact ⟨rfl, rfl⟩
  | cut same | read same =>
    subst same
    exact ⟨rfl, rfl⟩

theorem Keeps.brings (keeps : world.Keeps ledger) (brings : action.Brings content) :
    ∃ later, ledger ⊆ later ∧ (world.act action).world.Keeps later ∧
      ValueListed later content (world.act action).answer := by
  obtain ⟨value, same⟩ := world.act_brings brings
  obtain ⟨⟨later, goes, kept, shows⟩, equal⟩ := keeps.internShared brings.wellFormed
  rw [same]
  exact ⟨later, goes, kept, _, value, equal, (List.cons_subset.mp shows).1⟩

-- One ledger lists all that a run brought.
theorem Keeps.history (keeps : world.Keeps ledger) (actions : List Action) :
    ∃ later, ledger ⊆ later ∧ (world.run actions).world.Keeps later ∧
      ∀ entry ∈ world.history actions, ∀ content, entry.1.Brings content →
        ValueListed later content entry.2 := by
  induction actions generalizing world ledger with
  | nil =>
    refine ⟨ledger, List.Subset.refl ledger, keeps, ?_⟩
    intro entry member
    exact absurd member List.not_mem_nil
  | cons action rest ih =>
    have first : ∃ middle, ledger ⊆ middle ∧ (world.act action).world.Keeps middle ∧
        ∀ content, action.Brings content → ValueListed middle content (world.act action).answer := by
      by_cases brought : ∃ content, action.Brings content
      · obtain ⟨content, brings⟩ := brought
        obtain ⟨middle, goes, kept, lists⟩ := keeps.brings brings
        refine ⟨middle, goes, kept, ?_⟩
        intro other also
        rwa [← brings.unique also]
      · obtain ⟨middle, goes, kept, _⟩ := keeps.act action
        exact ⟨middle, goes, kept, fun content brings => absurd ⟨content, brings⟩ brought⟩
    obtain ⟨middle, goes, kept, lists⟩ := first
    obtain ⟨last, further, held, others⟩ := ih kept
    refine ⟨last, List.Subset.trans goes further, held, ?_⟩
    intro entry member content brings
    rw [history_cons] at member
    rcases List.mem_cons.mp member with rfl | later
    · obtain ⟨handle, value, same, listed⟩ := lists content brings
      exact ⟨handle, value, same, further listed⟩
    · exact others entry later content brings

theorem cut_commutes (bytes : Bytes) :
    (Utf8.repair (cutAtNul bytes)).value = cutAtNul (Utf8.repair bytes).value ∧
      (0 ∈ (Utf8.repair bytes).value ↔ 0 ∈ bytes) ∧
      ∀ actions, ∀ one ∈ World.history {} actions, ∀ other ∈ World.history {} actions,
        ∀ after, one.1 = .foreignNew (bytes ++ 0 :: after) → other.1.HandsOver bytes →
          ∃ short whole, one.2.value? = some short ∧ other.2.value? = some whole ∧
            short.content = whole.cString ∧ whole.cString = cutAtNul whole.content ∧
            (short.same whole = true ↔ 0 ∉ bytes) := by
  refine ⟨Utf8.repair_cutAtNul bytes, Utf8.zero_mem_repair, ?_⟩
  intro actions one first other second after called hands
  obtain ⟨ledger, _, keeps, lists⟩ := start_keeps.history actions
  have brings : one.1.Brings (cutAtNul (Utf8.repair bytes).value) := by
    rw [called]
    exact .cut (by rw [cutAtNul_nul, Utf8.repair_cutAtNul])
  obtain ⟨short, given, content, listed⟩ := lists one first _ brings
  obtain ⟨whole, also, repaired, known⟩ := lists other second _ hands.brings
  obtain ⟨hasher, canonical⟩ := keeps.canonical _ known
  have exact := keeps.same_iff listed known
  simp only [true_and, content, repaired] at exact
  have view : cutAtNul whole.buffer.bytes = cutAtNul whole.content := canonical.cut
  refine ⟨_, _, given, also, ?_, view, exact.trans ?_⟩
  · change short.content = cutAtNul whole.buffer.bytes
    rw [view, content, repaired]
  · rw [cutAtNul_eq_self_iff, Utf8.zero_mem_repair]

end

-- The NUL stands behind a sequence that is not complete: it is truncated in the one input, and
-- broken off in the other.
theorem cut_commutes_broken :
    let given : Action := .foreignFromBytes (some [0xE2, 0x82, 0x00, 0x61]) 4
    let cut : Action := .foreignNew [0xE2, 0x82, 0x00, 0x61, 0x00]
    ∃ whole short,
      World.history {} [given, cut] = [(given, .foreign whole), (cut, .foreign short)] ∧
      whole.content = Utf8.replacement ++ [0x00, 0x61] ∧ short.content = whole.cString ∧
      whole.cString = Utf8.replacement ∧ short.same whole = false := by
  intro given cut
  obtain ⟨_, _, sees⟩ := cut_commutes [0xE2, 0x82, 0x00, 0x61]
  obtain ⟨short, whole, answer, before, view, same⟩ := sees [given, cut] (cut, _)
    (List.mem_cons_of_mem _ (List.mem_singleton.mpr rfl)) (given, _) List.mem_cons_self [] rfl
    (.read rfl)
  cases answer
  cases before
  refine ⟨_, _, rfl, ?_, view, ?_, ?_⟩
  · decide +kernel
  · decide +kernel
  · exact Bool.eq_false_iff.mpr fun equal => same.2.mp equal (by decide)

end World

end InternPool
