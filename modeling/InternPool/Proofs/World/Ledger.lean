import InternPool.Proofs.Table.Account
import InternPool.Proofs.World.Arrival
import InternPool.World.History

namespace InternPool

theorem Table.Valid.mono [ContentHash] {table : Table} {buffers later : Nat}
    (valid : table.Valid buffers) (grown : buffers ≤ later) : table.Valid later :=
  { valid with
    allocated := fun handle member => Nat.lt_of_lt_of_le (valid.allocated handle member) grown }

namespace World

variable {world later : World} {name other : TableName} {table : Table} {content : Bytes}
  {ledger : List (TableName × Handle)}

-- The name was given to a table, which may have been dropped since.
def Knows (world : World) : TableName → Prop
  | .numbered number => number < world.tables.length
  | .shared => world.shared.isSome = true

theorem find?_slot {number : Nat} :
    world.find? (.numbered number) = some table ↔ world.tables[number]? = some (some table) := by
  rw [find?, Option.join_eq_some_iff]

theorem find?_knows (found : world.find? name = some table) : world.Knows name := by
  cases name with
  | numbered number => exact (List.getElem?_eq_some_iff.mp (find?_slot.mp found)).1
  | shared =>
    change world.shared = some table at found
    rw [Knows, found, Option.isSome_some]

theorem find?_process (world : World) (process : Process) (name : TableName) :
    ({ world with process } : World).find? name = world.find? name := by
  cases name <;> rfl

theorem knows_process (world : World) (process : Process) (name : TableName) :
    ({ world with process } : World).Knows name ↔ world.Knows name := by
  cases name <;> exact Iff.rfl

theorem find?_put {old : Table} (found : world.find? name = some old) (table : Table)
    (other : TableName) :
    (world.put name table).find? other = if other = name then some table else world.find? other := by
  cases name with
  | numbered number =>
    have inside : number < world.tables.length := find?_knows found
    cases other with
    | numbered place =>
      rw [put, find?, List.getElem?_set]
      by_cases same : number = place
      · subst same
        rw [if_pos rfl, if_pos inside, if_pos rfl]
        rfl
      · have differs : TableName.numbered place ≠ .numbered number := by
          intro equal
          cases equal
          exact same rfl
        rw [if_neg same, if_neg differs]
        rfl
    | shared => rfl
  | shared => cases other <;> rfl

theorem knows_put {old : Table} (found : world.find? name = some old) (table : Table)
    (other : TableName) : (world.put name table).Knows other ↔ world.Knows other := by
  have known := find?_knows found
  cases name with
  | numbered number =>
    cases other with
    | numbered place => rw [Knows, Knows, put, List.length_set]
    | shared => exact Iff.rfl
  | shared =>
    cases other with
    | numbered place => exact Iff.rfl
    | shared => exact iff_of_true rfl known

theorem put_unchanged (found : world.find? name = some table) :
    ({ world.put name table with process := world.process } : World) = world := by
  cases name with
  | numbered number =>
    obtain ⟨inside, same⟩ := List.getElem?_eq_some_iff.mp (find?_slot.mp found)
    rw [put, ← same, List.set_getElem_self]
  | shared =>
    change world.shared = some table at found
    rw [put, ← found]

theorem useShared_found (world : World) : ∃ table, world.useShared.find? .shared = some table := by
  rw [useShared]
  split
  · rename_i table made
    exact ⟨table, made⟩
  · exact ⟨_, rfl⟩

theorem sharedTable_found (found : world.find? .shared = some table) :
    world.sharedTable = table := by
  change world.shared = some table at found
  rw [sharedTable, found, Option.getD_some]

variable [ContentHash]

-- All handles that the tables of a world ever made, each with the name of its table, those of dropped
-- tables included.
structure Keeps (world : World) (ledger : List (TableName × Handle)) : Prop where
  valid : ∀ {name table}, world.find? name = some table → table.Valid world.process.buffers
  listed : ∀ {name table}, world.find? name = some table → ∀ handle,
    handle ∈ table.entries ↔ (name, handle) ∈ ledger
  known : ∀ entry ∈ ledger, world.Knows entry.1
  canonical : ∀ entry ∈ ledger, ∃ hasher, entry.2.Canonical hasher
  stored : ∀ entry ∈ ledger,
    world.process.read? entry.2.buffer.number = some entry.2.buffer.bytes
  buffers : (ledger.map (·.2.buffer.number)).Nodup
  contents : (ledger.map fun entry => (entry.1, entry.2.content)).Nodup

-- The ledger of the world goes on from the given one and has what was shown.
def GoesOn (world : World) (ledger shown : List (TableName × Handle)) : Prop :=
  ∃ later, ledger ⊆ later ∧ world.Keeps later ∧ shown ⊆ later

theorem start_keeps : ({} : World).Keeps [] := by
  have nothing : ∀ {name table}, ({} : World).find? name ≠ some table := by
    intro name table found
    cases name <;> cases found
  refine ⟨?_, ?_, ?_, ?_, ?_, List.nodup_nil, List.nodup_nil⟩
  · intro name table found
    exact absurd found nothing
  · intro name table found
    exact absurd found nothing
  all_goals
    intro entry member
    cases member

theorem Keeps.allocated (keeps : world.Keeps ledger) :
    ∀ entry ∈ ledger, entry.2.buffer.number < world.process.buffers :=
  fun entry member => Process.lt_buffers (keeps.stored entry member)

theorem Keeps.goesOn (keeps : world.Keeps ledger) {shown : List (TableName × Handle)}
    (known : shown ⊆ ledger) : world.GoesOn ledger shown :=
  ⟨ledger, List.Subset.refl ledger, keeps, known⟩

-- A world in which every table was there before, or is new and empty, has made no handle.
theorem Keeps.carry (keeps : world.Keeps ledger)
    (store : later.process.store = world.process.store)
    (known : ∀ name, world.Knows name → later.Knows name)
    (tables : ∀ {name table}, later.find? name = some table → world.find? name = some table ∨
      (¬ world.Knows name ∧ ∃ options, Table.withOptions options = .ok table)) :
    later.Keeps ledger := by
  have count : later.process.buffers = world.process.buffers := congrArg Array.size store
  refine ⟨?_, ?_, ?_, keeps.canonical, ?_, keeps.buffers, keeps.contents⟩
  · intro name table found
    rw [count]
    rcases tables found with old | ⟨_, options, built⟩
    · exact keeps.valid old
    · exact Table.built_valid built world.process.buffers
  · intro name table found handle
    rcases tables found with old | ⟨fresh, options, built⟩
    · exact keeps.listed old handle
    · rw [(Table.withOptions_build built).1, Table.build_entries]
      constructor
      · intro member
        cases member
      · intro member
        exact absurd (keeps.known _ member) fresh
  · intro entry member
    exact known entry.1 (keeps.known entry member)
  · intro entry member
    exact Process.retains_store store _ _ (keeps.stored entry member)

theorem Keeps.log (keeps : world.Keeps ledger) {process : Process}
    (store : process.store = world.process.store) :
    ({ world with process } : World).Keeps ledger := by
  refine keeps.carry store ?_ ?_
  · intro name known
    exact (knows_process world process name).mpr known
  · intro name table found
    rw [find?_process] at found
    exact .inl found

theorem Keeps.install (keeps : world.Keeps ledger) {options : Options} {table : Table}
    (built : Table.withOptions options = .ok table) (vacant : world.shared = none) :
    (world.install options).Keeps ledger := by
  refine keeps.carry rfl ?_ ?_
  · intro name known
    cases name with
    | numbered number => exact known
    | shared => rfl
  · intro name table found
    cases name with
    | numbered number => exact .inl found
    | shared =>
      cases found
      refine .inr ⟨?_, options, ?_⟩
      · rw [Knows, vacant]
        exact Bool.false_ne_true
      · rw [built, (Table.withOptions_build built).1]

theorem Keeps.useShared (keeps : world.Keeps ledger) : world.useShared.Keeps ledger := by
  rw [World.useShared]
  split
  · exact keeps
  · rename_i vacant
    have logged : ({ world with process := world.process.record .initializing } : World).Keeps
        ledger := keeps.log rfl
    exact logged.install (rfl : Table.withOptions {} = .ok (Table.build {})) vacant

theorem Keeps.create (keeps : world.Keeps ledger) (options : Options) :
    (world.create options).world.Keeps ledger := by
  rw [World.create]
  split
  · exact keeps
  · rename_i table built
    refine keeps.carry rfl ?_ ?_
    · intro name known
      cases name with
      | numbered number =>
        change number < (world.tables ++ [some table]).length
        rw [List.length_append]
        exact Nat.lt_add_right _ known
      | shared => exact known
    · intro name other found
      cases name with
      | numbered number =>
        have slot := find?_slot.mp found
        change (world.tables ++ [some table])[number]? = some (some other) at slot
        rcases Nat.lt_or_ge number world.tables.length with inside | outside
        · rw [List.getElem?_append_left inside] at slot
          exact .inl (find?_slot.mpr slot)
        · rw [List.getElem?_append_right outside] at slot
          obtain ⟨_, same⟩ := List.getElem?_eq_some_iff.mp slot
          rw [List.getElem_singleton] at same
          cases same
          exact .inr ⟨Nat.not_lt.mpr outside, options, built⟩
      | shared => exact .inl found

theorem Keeps.drop (keeps : world.Keeps ledger) (number : Nat) :
    (world.drop number).world.Keeps ledger := by
  rw [World.drop]
  split
  · exact keeps
  · exact keeps
  · refine keeps.carry rfl ?_ ?_
    · intro name known
      cases name with
      | numbered place =>
        change place < (world.tables.set number none).length
        rw [List.length_set]
        exact known
      | shared => exact known
    · intro name table found
      cases name with
      | numbered place =>
        have slot := find?_slot.mp found
        change (world.tables.set number none)[place]? = some (some table) at slot
        rw [List.getElem?_set] at slot
        split at slot
        · split at slot <;> cases slot
        · exact .inl (find?_slot.mpr slot)
      | shared => exact .inl found

theorem Keeps.configure (keeps : world.Keeps ledger) (options : Options) :
    (world.configure options).world.Keeps ledger := by
  rw [World.configure]
  split
  · exact keeps
  · rename_i accepted
    split
    · exact keeps
    · rename_i vacant
      have built : Table.withOptions options = .ok (Table.build options) := by
        rw [Table.withOptions, accepted]
      exact (keeps.install built vacant).log rfl

theorem Keeps.add (keeps : world.Keeps ledger) (found : world.find? name = some table)
    (wellFormed : Utf8.WellFormed content)
    (absent : ∀ handle ∈ table.entries, handle.content ≠ content) (event : Event) :
    ({ world.put name (table.add (table.fresh world.process content)) with
        process := (world.process.allocated content).record event } : World).Keeps
      ((name, table.fresh world.process content) :: ledger) := by
  have valid := keeps.valid found
  have same : (table.fresh world.process content).content = content :=
    Process.content_buffer _ _ _
  have canonical := table.fresh_canonical world.process wellFormed
  have grown := Table.entries_add (valid.inside (table.fresh world.process content).hash)
  refine ⟨?_, ?_, ?_, ?_, ?_, ?_, ?_⟩
  · intro place held here
    rw [find?_process, find?_put found] at here
    split at here
    · cases here
      rw [Process.buffers_record, Process.buffers_allocated]
      exact valid.add canonical (by rwa [same]) rfl
    · rw [Process.buffers_record, Process.buffers_allocated]
      exact (keeps.valid here).mono (Nat.le_succ _)
  · intro place held here handle
    rw [find?_process, find?_put found] at here
    rw [List.mem_cons, Prod.mk.injEq]
    split at here
    · rename_i named
      cases here
      rw [grown.mem_iff, List.mem_cons, keeps.listed found, named]
      simp only [true_and]
    · rename_i differs
      rw [keeps.listed here]
      simp only [differs, false_and, false_or]
  · intro entry member
    rw [knows_process, knows_put found]
    rcases List.mem_cons.mp member with rfl | old
    · exact find?_knows found
    · exact keeps.known entry old
  · intro entry member
    rcases List.mem_cons.mp member with rfl | old
    · exact ⟨table.hasher, canonical⟩
    · exact keeps.canonical entry old
  · intro entry member
    rcases List.mem_cons.mp member with rfl | old
    · rw [canonical.terminated, same]
      exact world.process.read?_allocated content
    · exact world.process.retains_allocated content _ _ (keeps.stored entry old)
  · rw [List.map_cons, List.nodup_cons, List.mem_map]
    refine ⟨?_, keeps.buffers⟩
    intro taken
    obtain ⟨entry, member, number⟩ := taken
    exact Nat.ne_of_lt (keeps.allocated entry member) number
  · rw [List.map_cons, List.nodup_cons, List.mem_map]
    refine ⟨?_, keeps.contents⟩
    intro taken
    obtain ⟨⟨place, handle⟩, member, equal⟩ := taken
    obtain ⟨rfl, equal⟩ := Prod.mk.inj equal
    exact absent handle ((keeps.listed found handle).mpr member) (equal.trans same)

-- An entry gives a handle of its table with the content, whether it was there or is new.
theorem Keeps.enter (keeps : world.Keeps ledger) (found : world.find? name = some table)
    (wellFormed : Utf8.WellFormed content) :
    let entered := table.enter world.process (table.hasher.hash content) content
    ({ world.put name entered.table with process := entered.process } : World).GoesOn ledger
        [(name, entered.handle)] ∧ entered.handle.content = content := by
  intro entered
  rcases (keeps.valid found).enter_cases world.process content with
    ⟨winner, member, same, result⟩ | ⟨absent, result⟩
  · have known := (keeps.listed found winner).mp member
    simp only [entered, result, put_unchanged found]
    exact ⟨keeps.goesOn (List.cons_subset.mpr ⟨known, List.nil_subset ledger⟩), same⟩
  · simp only [entered, result]
    exact ⟨⟨_, List.subset_cons_self _ _, keeps.add found wellFormed absent _,
      List.cons_subset.mpr ⟨List.mem_cons_self, List.nil_subset _⟩⟩, Process.content_buffer _ _ _⟩

theorem Keeps.internShared (keeps : world.Keeps ledger) (wellFormed : Utf8.WellFormed content) :
    (world.internShared content).world.GoesOn ledger
        [(.shared, (world.internShared content).answer)] ∧
      (world.internShared content).answer.content = content := by
  obtain ⟨table, found⟩ := world.useShared_found
  rw [World.internShared, sharedTable_found found, Table.internContent_enter]
  exact keeps.useShared.enter found wellFormed

theorem Keeps.construct (keeps : world.Keeps ledger) (route : Route) :
    (world.construct route).world.GoesOn ledger
      ((world.construct route).answer.toOption.toList.map fun handle => (.shared, handle)) := by
  rw [construct_content]
  cases arrives : route.content with
  | error rejection => exact keeps.goesOn (List.nil_subset ledger)
  | ok content =>
    obtain ⟨⟨later, goes, kept, shows⟩, _⟩ := keeps.internShared (Route.content_wellFormed arrives)
    refine ⟨later, goes, kept, ?_⟩
    cases route.isWhole with
    | true => exact shows
    | false => exact List.nil_subset later

theorem Keeps.ready (keeps : world.Keeps ledger) (name : TableName) :
    (world.ready name).Keeps ledger := by
  cases name with
  | numbered number => exact keeps
  | shared => exact keeps.useShared

theorem Keeps.call (keeps : world.Keeps ledger) (found : world.find? name = some table)
    (call : Call) :
    let called := table.call world.process call
    ({ world.put name called.table with process := called.process } : World).GoesOn ledger
      (called.handle.toList.map fun handle => (name, handle)) := by
  intro called
  rcases (keeps.valid found).call_cases world.process call with
    ⟨handle, member, _, result⟩ | ⟨_, _, result⟩ | ⟨absent, _, result⟩
  · have known := (keeps.listed found handle).mp member
    simp only [called, result, put_unchanged found]
    exact keeps.goesOn (List.cons_subset.mpr ⟨known, List.nil_subset ledger⟩)
  · simp only [called, result, put_unchanged found]
    exact keeps.goesOn (List.nil_subset ledger)
  · simp only [called, result]
    exact ⟨_, List.subset_cons_self _ _, keeps.add found call.content_wellFormed absent _,
      List.cons_subset.mpr ⟨List.mem_cons_self, List.nil_subset _⟩⟩

theorem Keeps.ask (keeps : world.Keeps ledger) (name : TableName) (request : Request) :
    (world.act (.ask name request)).world.GoesOn ledger
      (shownBy (.ask name request) (world.act (.ask name request)).answer) := by
  have ready := keeps.ready name
  rw [act, World.ask]
  cases found : (world.ready name).find? name with
  | none => exact ready.goesOn (List.nil_subset ledger)
  | some table =>
    cases request with
    | call call => exact ready.call found call
    | length | isEmpty | stats | shardLengths =>
      change ({ (world.ready name).put name table with
        process := (world.ready name).process } : World).GoesOn ledger []
      rw [put_unchanged found]
      exact ready.goesOn (List.nil_subset ledger)
    | entries =>
      change ({ (world.ready name).put name table with
        process := (world.ready name).process } : World).GoesOn ledger
          (table.entries.map fun handle => (name, handle))
      rw [put_unchanged found]
      apply ready.goesOn
      intro entry member
      obtain ⟨handle, held, rfl⟩ := List.mem_map.mp member
      exact (ready.listed found handle).mp held

theorem Keeps.act (keeps : world.Keeps ledger) (action : Action) :
    (world.act action).world.GoesOn ledger (shownBy action (world.act action).answer) := by
  cases action with
  | create options =>
    have created := keeps.create options
    rw [World.act]
    split <;> exact created.goesOn (List.nil_subset ledger)
  | drop number =>
    have dropped := keeps.drop number
    rw [World.act]
    split <;> exact dropped.goesOn (List.nil_subset ledger)
  | ask name request => exact keeps.ask name request
  | useShared => exact keeps.useShared.goesOn (List.nil_subset ledger)
  | configure options =>
    have configured := keeps.configure options
    rw [World.act]
    split <;> exact configured.goesOn (List.nil_subset ledger)
  | construct route =>
    have constructed := keeps.construct route
    rw [World.act]
    split
    · rename_i handle answered
      rw [answered] at constructed
      exact constructed
    · rename_i rejection answered
      rw [answered] at constructed
      exact constructed
  | foreignNew memory =>
    obtain ⟨⟨later, goes, kept, _⟩, _⟩ :=
      keeps.internShared (Utf8.repair_wellFormed (cutAtNul memory))
    exact ⟨later, goes, kept, List.nil_subset later⟩
  | foreignFromBytes memory length =>
    obtain ⟨⟨later, goes, kept, _⟩, _⟩ :=
      keeps.internShared (Utf8.repair_wellFormed (readMemory memory length))
    exact ⟨later, goes, kept, List.nil_subset later⟩

theorem shown_cons (world : World) (action : Action) (rest : List Action) :
    world.shown (action :: rest) =
      shownBy action (world.act action).answer ++ (world.act action).world.shown rest := by
  rw [shown, run, List.zip_cons_cons, List.flatMap_cons]
  rfl

theorem run_append (world : World) (first second : List Action) :
    (world.run (first ++ second)).world = ((world.run first).world.run second).world := by
  induction first generalizing world with
  | nil => rfl
  | cons action rest ih => exact ih (world.act action).world

theorem shown_append (world : World) (first second : List Action) :
    world.shown (first ++ second) = world.shown first ++ (world.run first).world.shown second := by
  induction first generalizing world with
  | nil => rfl
  | cons action rest ih =>
    rw [List.cons_append, shown_cons, shown_cons, ih, List.append_assoc]
    rfl

theorem Keeps.run (keeps : world.Keeps ledger) (actions : List Action) :
    (world.run actions).world.GoesOn ledger (world.shown actions) := by
  induction actions generalizing world ledger with
  | nil => exact keeps.goesOn (List.nil_subset ledger)
  | cons action rest ih =>
    obtain ⟨middle, first, kept, seen⟩ := keeps.act action
    obtain ⟨last, second, held, shown⟩ := ih kept
    refine ⟨last, List.Subset.trans first second, held, ?_⟩
    rw [shown_cons]
    exact List.append_subset.mpr ⟨List.Subset.trans seen second, shown⟩

end World

end InternPool
