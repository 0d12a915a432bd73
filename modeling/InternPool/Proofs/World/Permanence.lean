import InternPool.Proofs.Table.Growth
import InternPool.Proofs.World.Identity

namespace InternPool

-- The content that an action interns, and into which table; a failed route may intern nothing.
def Action.interned? : Action → Option (TableName × Bytes)
  | .ask name (.call call) => if call.interns then some (name, call.content) else none
  | .construct route => route.content.toOption.map fun content => (.shared, content)
  | .foreignNew memory => some (.shared, (Utf8.repair (cutAtNul memory)).value)
  | .foreignFromBytes memory length => some (.shared, (Utf8.repair (readMemory memory length)).value)
  | _ => none

namespace Table

theorem enter_retains (table : Table) (process : Process) (hash : UInt64) (content : Bytes) :
    process.Retains (table.enter process hash content).process := by
  cases found : table.probe hash content with
  | some winner =>
    rw [enter_known found]
    exact .refl process
  | none =>
    rw [enter_missing found]
    exact process.retains_allocated content

variable [ContentHash] {table new : Table} {buffers : Nat} {content : Bytes}

-- A table has interned a content: it has the content already and is unchanged, or has one handle
-- more, in the shard that the hash of the content picks.
inductive TakesIn (old : Table) (content : Bytes) : Table → Prop where
  | known (handle : Handle) (member : handle ∈ old.entries) (same : handle.content = content) :
    TakesIn old content old
  | fresh {new : Table} (handle : Handle) (absent : ∀ other ∈ old.entries, other.content ≠ content)
    (same : handle.content = content) (hashed : handle.hash = old.hasher.hash content)
    (gains : old.Gains new handle) : TakesIn old content new

theorem TakesIn.extends (takes : table.TakesIn content new) : table.Extends new := by
  cases takes with
  | known => exact .refl table
  | fresh handle _ _ _ gains => exact gains.extends

theorem Valid.enter_takes (valid : table.Valid buffers) (process : Process) (content : Bytes) :
    table.TakesIn content (table.enter process (table.hasher.hash content) content).table := by
  rcases valid.enter_cases process content with ⟨winner, member, same, entered⟩ | ⟨absent, entered⟩
  · rw [entered]
    exact .known winner member same
  · rw [entered]
    exact .fresh _ absent (Process.content_buffer _ _ _) rfl (valid.gains_add _)

end Table

namespace World

variable {world later : World} {name other : TableName} {table : Table} {content : Bytes}
  {ledger : List (TableName × Handle)} {handle : Handle}

def Steady (world later : World) : Prop :=
  ∀ name, world.Knows name → later.Knows name ∧ later.find? name = world.find? name

theorem Steady.refl (world : World) : world.Steady world :=
  fun _ known => ⟨known, rfl⟩

theorem Steady.trans {middle : World} (first : world.Steady middle) (second : middle.Steady later) :
    world.Steady later := by
  intro name known
  obtain ⟨reached, same⟩ := first name known
  obtain ⟨kept, still⟩ := second name reached
  exact ⟨kept, still.trans same⟩

theorem steady_process (world : World) (process : Process) :
    world.Steady { world with process } := by
  intro name known
  exact ⟨(knows_process world process name).mpr known, find?_process world process name⟩

theorem steady_install (vacant : world.shared = none) (options : Options) :
    world.Steady (world.install options) := by
  intro name known
  cases name with
  | numbered number => exact ⟨known, rfl⟩
  | shared =>
    rw [Knows, vacant] at known
    cases known

theorem steady_useShared (world : World) : world.Steady world.useShared := by
  rw [useShared]
  split
  · exact .refl world
  · rename_i vacant
    exact (steady_process world _).trans (steady_install vacant {})

theorem steady_ready (world : World) (name : TableName) : world.Steady (world.ready name) := by
  cases name with
  | numbered number => exact .refl world
  | shared => exact world.steady_useShared

theorem ready_store (world : World) (name : TableName) :
    (world.ready name).process.store = world.process.store := by
  cases name with
  | numbered number => rfl
  | shared =>
    rw [ready, useShared]
    split <;> rfl

theorem steady_create (world : World) (options : Options) :
    world.Steady (world.create options).world := by
  intro name known
  rw [create]
  split
  · exact ⟨known, rfl⟩
  · rename_i table built
    cases name with
    | numbered number =>
      have inside : number < world.tables.length := known
      constructor
      · change number < (world.tables ++ [some table]).length
        rw [List.length_append]
        exact Nat.lt_add_right _ inside
      · change ((world.tables ++ [some table])[number]?).join = (world.tables[number]?).join
        rw [List.getElem?_append_left inside]
    | shared => exact ⟨known, rfl⟩

theorem steady_configure (world : World) (options : Options) :
    world.Steady (world.configure options).world := by
  rw [configure]
  split
  · exact .refl world
  · split
    · exact .refl world
    · rename_i vacant
      exact (steady_install vacant options).trans (steady_process _ _)

theorem find?_drop (world : World) (number : Nat) (name : TableName) :
    (world.drop number).world.find? name =
      if name = .numbered number then none else world.find? name := by
  cases name with
  | shared =>
    rw [if_neg nofun, drop]
    split <;> rfl
  | numbered place =>
    by_cases same : place = number
    · subst same
      rw [if_pos rfl, drop]
      split
      · rename_i missing
        rw [find?, missing, Option.join_none]
      · rename_i gone
        rw [find?, gone, Option.join_some]
      · rename_i table there
        obtain ⟨inside, _⟩ := List.getElem?_eq_some_iff.mp there
        rw [find?, List.getElem?_set_self inside, Option.join_some]
    · have differs : TableName.numbered place ≠ .numbered number := by
        intro equal
        cases equal
        exact same rfl
      rw [if_neg differs, drop]
      split
      · rfl
      · rfl
      · rw [find?, List.getElem?_set_ne (Ne.symm same)]
        rfl

theorem knows_drop (world : World) (number : Nat) (name : TableName) :
    (world.drop number).world.Knows name ↔ world.Knows name := by
  rw [drop]
  split
  · exact Iff.rfl
  · exact Iff.rfl
  · cases name with
    | numbered place => rw [Knows, Knows, List.length_set]
    | shared => exact Iff.rfl

theorem ready_found (found : world.find? name = some table) : world.ready name = world := by
  cases name with
  | numbered number => rfl
  | shared =>
    change world.shared = some table at found
    rw [ready, useShared, found]

theorem find?_ready (differs : other ≠ name) :
    (world.ready name).find? other = world.find? other := by
  cases name with
  | numbered number => rfl
  | shared =>
    cases other with
    | shared => exact absurd rfl differs
    | numbered number =>
      rw [ready, useShared]
      split <;> rfl

-- What is left of a table, or of none: a table grows until it is dropped, and is not made again.
inductive Lasts (dropped : Prop) : Option Table → Option Table → Prop where
  | gone : Lasts dropped none none
  | dropped {old : Table} (drops : dropped) : Lasts dropped (some old) none
  | grown {old new : Table} (further : old.Extends new) : Lasts dropped (some old) (some new)

theorem Lasts.refl (dropped : Prop) (slot : Option Table) : Lasts dropped slot slot := by
  cases slot with
  | none => exact .gone
  | some table => exact .grown (.refl table)

theorem Lasts.trans {first second dropped : Prop} {old middle new : Option Table}
    (before : Lasts first old middle) (after : Lasts second middle new)
    (early : first → dropped) (late : second → dropped) : Lasts dropped old new := by
  cases before with
  | gone =>
    cases after
    exact .gone
  | dropped drops =>
    cases after
    exact .dropped (early drops)
  | grown further =>
    cases after with
    | dropped drops => exact .dropped (late drops)
    | grown again => exact .grown (further.trans again)

def Drops (actions : List Action) (name : TableName) : Prop :=
  ∃ number, name = .numbered number ∧ .drop number ∈ actions

section
variable [ContentHash]

def interning (world : World) (name : TableName) (content : Bytes) : World :=
  let world := world.ready name
  match world.find? name with
  | none => world
  | some table =>
    let entered := table.enter world.process (table.hasher.hash content) content
    { world.put name entered.table with process := entered.process }

theorem find?_interning (found : (world.ready name).find? name = some table) (content : Bytes)
    (other : TableName) :
    (world.interning name content).find? other =
      if other = name then
        some (table.enter (world.ready name).process (table.hasher.hash content) content).table
      else (world.ready name).find? other := by
  simp only [interning, found, find?_process]
  exact find?_put found _ other

theorem interning_other (differs : other ≠ name) (content : Bytes) :
    (world.interning name content).find? other = world.find? other := by
  cases found : (world.ready name).find? name with
  | none =>
    simp only [interning, found]
    exact find?_ready differs
  | some table =>
    rw [find?_interning found, if_neg differs]
    exact find?_ready differs

theorem knows_interning (known : world.Knows other) (name : TableName) (content : Bytes) :
    (world.interning name content).Knows other := by
  have reached := (world.steady_ready name other known).1
  cases found : (world.ready name).find? name with
  | none =>
    simp only [interning, found]
    exact reached
  | some table =>
    simp only [interning, found]
    rw [knows_process, knows_put found]
    exact reached

theorem interning_retains (world : World) (name : TableName) (content : Bytes) :
    world.process.Retains (world.interning name content).process := by
  have ready := Process.retains_store (world.ready_store name)
  rw [interning]
  cases (world.ready name).find? name with
  | none => exact ready
  | some table => exact ready.trans (table.enter_retains _ _ content)

theorem internShared_interning (world : World) (content : Bytes) :
    (world.internShared content).world = world.interning .shared content := by
  obtain ⟨table, found⟩ := world.useShared_found
  have reached : (world.ready .shared).find? .shared = some table := found
  simp only [internShared, sharedTable_found found, Table.internContent_enter, interning, reached]
  rfl

theorem construct_interning {route : Route} (arrives : route.content = .ok content) :
    (world.construct route).world = world.interning .shared content := by
  rw [construct_content, arrives]
  exact world.internShared_interning content

theorem ask_interning {call : Call} (interns : call.interns = true) (name : TableName) :
    (world.ask name (.call call)).world = world.interning name call.content := by
  rw [ask, interning]
  cases (world.ready name).find? name with
  | none => rfl
  | some table => simp only [Table.answer, Table.call_interning interns]

theorem ask_looking {request : Request}
    (looks : (Action.ask name request).interned? = none) :
    (world.ask name request).world = world.ready name := by
  rw [ask]
  cases found : (world.ready name).find? name with
  | none => rfl
  | some table =>
    have same := put_unchanged found
    cases request with
    | call call =>
      have looking : call.interns = false := by
        cases interns : call.interns with
        | false => rfl
        | true =>
          rw [Action.interned?, if_pos interns] at looks
          cases looks
      simp only [Table.answer, Table.call_looking looking, same]
    | length | isEmpty | stats | shardLengths | entries => exact same

def after (world : World) : Action → World
  | .create options => (world.create options).world
  | .drop number => (world.drop number).world
  | .ask name request => (world.ask name request).world
  | .useShared => world.useShared
  | .configure options => (world.configure options).world
  | .construct route => (world.construct route).world
  | .foreignNew memory => (world.foreignNew memory).world
  | .foreignFromBytes memory length => (world.foreignFromBytes memory length).world

theorem act_world (world : World) (action : Action) :
    (world.act action).world = world.after action := by
  cases action with
  | useShared | foreignNew | foreignFromBytes => rfl
  | create | drop | ask | configure | construct =>
    rw [act]
    split <;> rfl

theorem act_interned {action : Action} (interned : action.interned? = some (name, content)) :
    (world.act action).world = world.interning name content := by
  rw [act_world]
  cases action with
  | create | drop | useShared | configure => cases interned
  | ask place request =>
    cases request with
    | call call =>
      rw [Action.interned?] at interned
      split at interned
      · rename_i interns
        cases interned
        exact ask_interning interns name
      · cases interned
    | length | isEmpty | stats | shardLengths | entries => cases interned
  | construct route =>
    cases arrives : route.content with
    | error rejection =>
      rw [Action.interned?, arrives] at interned
      cases interned
    | ok content =>
      rw [Action.interned?, arrives] at interned
      cases interned
      exact construct_interning arrives
  | foreignNew memory =>
    cases interned
    exact world.internShared_interning _
  | foreignFromBytes memory length =>
    cases interned
    exact world.internShared_interning _

theorem act_steady {action : Action} (nothing : action.interned? = none)
    (keeps : ∀ number, action ≠ .drop number) : world.Steady (world.act action).world := by
  rw [act_world]
  cases action with
  | create options => exact world.steady_create options
  | drop number => exact absurd rfl (keeps number)
  | ask name request =>
    rw [after, ask_looking nothing]
    exact world.steady_ready name
  | useShared => exact world.steady_useShared
  | configure options => exact world.steady_configure options
  | construct route =>
    rw [after, construct_content]
    cases arrives : route.content with
    | error rejection => exact .refl world
    | ok content =>
      rw [Action.interned?, arrives] at nothing
      cases nothing
  | foreignNew | foreignFromBytes => cases nothing

-- Only interning takes room in the store, and nothing gives any back: a table is dropped, and its
-- buffers stay.
theorem act_stored {action : Action} (nothing : action.interned? = none) :
    (world.act action).world.process.store = world.process.store := by
  rw [act_world]
  cases action with
  | create options =>
    rw [after, create]
    split <;> rfl
  | drop number =>
    rw [after, drop]
    split <;> rfl
  | ask name request =>
    rw [after, ask_looking nothing]
    exact world.ready_store name
  | useShared => exact world.ready_store .shared
  | configure options =>
    rw [after, configure]
    split
    · rfl
    · split <;> rfl
  | construct route =>
    rw [after, construct_content]
    cases arrives : route.content with
    | error rejection => rfl
    | ok content =>
      rw [Action.interned?, arrives] at nothing
      cases nothing
  | foreignNew | foreignFromBytes => cases nothing

theorem act_retains (world : World) (action : Action) :
    world.process.Retains (world.act action).world.process := by
  cases interned : action.interned? with
  | some taken =>
    rw [act_interned interned]
    exact world.interning_retains _ _
  | none => exact Process.retains_store (act_stored interned)

theorem run_retains (world : World) (actions : List Action) :
    world.process.Retains (world.run actions).world.process := by
  induction actions generalizing world with
  | nil => exact .refl _
  | cons action rest ih => exact (world.act_retains action).trans (ih (world.act action).world)

structure Advances (world : World) (action : Action) : Prop where
  takes : ∀ {name content}, action.interned? = some (name, content) →
    ∀ {old}, (world.ready name).find? name = some old →
      ∃ new, (world.act action).world.find? name = some new ∧ old.TakesIn content new
  others : ∀ {name content}, action.interned? = some (name, content) →
    ∀ other, other ≠ name → (world.act action).world.find? other = world.find? other
  drops : ∀ {number}, action = .drop number → ∀ name,
    (world.act action).world.find? name =
      if name = .numbered number then none else world.find? name
  leaves : action.interned? = none → (∀ number, action ≠ .drop number) →
    ∀ name, world.Knows name → (world.act action).world.find? name = world.find? name
  stored : action.interned? = none →
    (world.act action).world.process.store = world.process.store
  retains : world.process.Retains (world.act action).world.process

theorem Keeps.advances (keeps : world.Keeps ledger) (action : Action) :
    world.Advances action := by
  refine ⟨?_, ?_, ?_, ?_, act_stored, world.act_retains action⟩
  · intro name content interned old found
    rw [act_interned interned]
    refine ⟨_, (find?_interning found content name).trans (if_pos rfl), ?_⟩
    exact ((keeps.ready name).valid found).enter_takes _ content
  · intro name content interned other differs
    rw [act_interned interned]
    exact interning_other differs content
  · intro number dropping name
    rw [dropping, act_world]
    exact world.find?_drop number name
  · intro nothing staying name known
    exact (act_steady nothing staying name known).2

theorem act_knows (known : world.Knows name) (action : Action) :
    (world.act action).world.Knows name := by
  cases interned : action.interned? with
  | some taken =>
    rw [act_interned interned]
    exact knows_interning known _ _
  | none =>
    by_cases dropping : ∃ number, action = .drop number
    · obtain ⟨number, rfl⟩ := dropping
      rw [act_world]
      exact (world.knows_drop number name).mpr known
    · exact (act_steady interned (not_exists.mp dropping) name known).1

theorem Keeps.act_lasts (keeps : world.Keeps ledger) (known : world.Knows name) (action : Action) :
    Lasts (Drops [action] name) (world.find? name) ((world.act action).world.find? name) := by
  have advances := keeps.advances action
  cases interned : action.interned? with
  | some taken =>
    obtain ⟨place, content⟩ := taken
    by_cases here : name = place
    · subst here
      have same := (world.steady_ready name name known).2
      cases found : world.find? name with
      | none =>
        -- The table was dropped, so there is none to intern into.
        rw [act_interned interned, interning, same, found]
        dsimp only
        rw [same, found]
        exact .gone
      | some old =>
        obtain ⟨new, reached, takes⟩ := advances.takes interned (same.trans found)
        rw [reached]
        exact .grown takes.extends
    · rw [advances.others interned name here]
      exact .refl _ _
  | none =>
    by_cases dropping : ∃ number, action = .drop number
    · obtain ⟨number, rfl⟩ := dropping
      rw [advances.drops rfl]
      by_cases here : name = .numbered number
      · rw [if_pos here]
        cases world.find? name with
        | none => exact .gone
        | some old => exact .dropped ⟨number, here, List.mem_singleton.mpr rfl⟩
      · rw [if_neg here]
        exact .refl _ _
    · rw [advances.leaves interned (not_exists.mp dropping) name known]
      exact .refl _ _

theorem Keeps.run_lasts (keeps : world.Keeps ledger) (known : world.Knows name)
    (actions : List Action) :
    Lasts (Drops actions name) (world.find? name) ((world.run actions).world.find? name) := by
  induction actions generalizing world ledger with
  | nil => exact .refl _ _
  | cons action rest ih =>
    obtain ⟨further, _, kept, _⟩ := keeps.act action
    have step := keeps.act_lasts known action
    refine step.trans (ih kept (act_knows known action)) ?_ ?_
    · intro drops
      obtain ⟨number, named, dropping⟩ := drops
      exact ⟨number, named, List.mem_cons.mpr (.inl (List.mem_singleton.mp dropping))⟩
    · intro drops
      obtain ⟨number, named, dropping⟩ := drops
      exact ⟨number, named, List.mem_cons_of_mem _ dropping⟩

-- A table that a handle is of lists it, and gives it for every input that comes to its content,
-- whether that is looked up or interned; the world is left as it was.
structure Recalls (world : World) (name : TableName) (table : Table) (handle : Handle) :
    Prop where
  canonical : handle.Canonical table.hasher
  held : handle ∈ table.entries
  listed : world.ask name .entries = ⟨some (.entries table.entries), world⟩
  called : ∀ call, call.content = handle.content →
    world.ask name (.call call) = ⟨some (.handle (some handle)), world⟩
  constructed : name = .shared → ∀ route, route.content = .ok handle.content →
    world.construct route = ⟨if route.isWhole then .ok handle else .error .malformed, world⟩
  foreignNew : name = .shared → ∀ memory, (Utf8.repair (cutAtNul memory)).value = handle.content →
    world.foreignNew memory = ⟨.ofHandle handle, world⟩
  foreignFromBytes : name = .shared → ∀ memory length,
    (Utf8.repair (readMemory memory length)).value = handle.content →
      world.foreignFromBytes memory length = ⟨.ofHandle handle, world⟩

theorem internShared_known (found : world.find? .shared = some table)
    (known : table.probe (table.hasher.hash content) content = some handle) :
    world.internShared content = ⟨handle, world⟩ := by
  have used : world.useShared = world := ready_found found
  simp only [internShared, used, sharedTable_found found, Table.internContent_enter,
    Table.enter_known known]
  exact congrArg (Outcome.mk handle) (put_unchanged found)

theorem Keeps.recalls (keeps : world.Keeps ledger) (found : world.find? name = some table)
    (known : (name, handle) ∈ ledger) : world.Recalls name table handle := by
  have valid := keeps.valid found
  have member := (keeps.listed found handle).mpr known
  have probed := valid.probe_iff.mpr ⟨member, rfl⟩
  have same := put_unchanged found
  refine ⟨valid.canonical handle member, member, ?_, ?_, ?_, ?_, ?_⟩
  · simp only [World.ask, ready_found found, found, Table.answer, same]
  · intro call content
    have called : table.call world.process call = ⟨some handle, table, world.process⟩ := by
      cases interns : call.interns with
      | true => rw [Table.call_interning interns, content, Table.enter_known probed]
      | false => rw [Table.call_looking interns, content, probed]
    simp only [World.ask, ready_found found, found, Table.answer, called, same]
  · intro shared route arrives
    subst shared
    rw [construct_content, arrives]
    simp only [internShared_known found probed]
  · intro shared memory content
    subst shared
    simp only [World.foreignNew, content, internShared_known found probed]
  · intro shared memory length content
    subst shared
    simp only [World.foreignFromBytes, content, internShared_known found probed]

-- There is no way to drop the shared table.
theorem Keeps.shared_recalls (keeps : world.Keeps ledger) (known : (.shared, handle) ∈ ledger) :
    ∃ table, world.Recalls .shared table handle := by
  obtain ⟨table, found⟩ := Option.isSome_iff_exists.mp (keeps.known _ known)
  exact ⟨table, keeps.recalls found known⟩

-- A handle that was given out, later: its buffer has its bytes, the terminator at the end, and is of
-- no other; its table, if it lives, still gives it.
structure Permanent (world : World) (shown : List (TableName × Handle)) (name : TableName)
    (handle : Handle) : Prop where
  terminated : handle.terminated = handle.content ++ [0]
  stored : world.process.read? handle.buffer.number = some handle.terminated
  alone : ∀ other ∈ shown, other.2.same handle = true → other = (name, handle)
  recalled : ∀ table, world.find? name = some table → world.Recalls name table handle

theorem Keeps.permanent (keeps : world.Keeps ledger) {shown : List (TableName × Handle)}
    (listed : shown ⊆ ledger) (known : (name, handle) ∈ ledger) :
    world.Permanent shown name handle := by
  refine ⟨?_, keeps.stored _ known, ?_, ?_⟩
  · obtain ⟨hasher, canonical⟩ := keeps.canonical _ known
    exact canonical.terminated
  · intro other member same
    exact keeps.entry (listed member) known same
  · intro table found
    exact keeps.recalls found known

theorem append_only (before later : List Action) :
    (∀ given ∈ World.shown {} before, (World.run {} (before ++ later)).world.Permanent
      (World.shown {} (before ++ later)) given.1 given.2) ∧
    (World.run {} before).world.process.Retains (World.run {} (before ++ later)).world.process ∧
    (∀ name old, (World.run {} before).world.find? name = some old →
      ((World.run {} (before ++ later)).world.find? name = none ∧ Drops later name) ∨
        ∃ new, (World.run {} (before ++ later)).world.find? name = some new ∧ old.Extends new ∧
          old.length ≤ new.length ∧ List.Forall₂ (· ≤ ·) old.shardLengths new.shardLengths ∧
          old.stats.contentBytes ≤ new.stats.contentBytes) ∧
    ∀ action, (World.run {} before).world.Advances action := by
  refine ⟨?_, ?_, ?_, ?_⟩
  · intro given member
    obtain ⟨ledger, keeps, listed⟩ := run_keeps (before ++ later)
    refine keeps.permanent listed (listed ?_)
    rw [shown_append]
    exact List.mem_append_left _ member
  · rw [run_append]
    exact run_retains _ later
  · intro name old found
    obtain ⟨ledger, keeps, _⟩ := run_keeps before
    have lasts := keeps.run_lasts (find?_knows found) later
    rw [← run_append, found] at lasts
    cases reached : (World.run {} (before ++ later)).world.find? name with
    | none =>
      rw [reached] at lasts
      cases lasts with
      | dropped drops => exact .inl ⟨rfl, drops⟩
    | some new =>
      rw [reached] at lasts
      cases lasts with
      | grown further =>
        exact .inr ⟨new, rfl, further, further.length_le, further.lengths_le,
          further.contentBytes_le⟩
  · intro action
    obtain ⟨ledger, keeps, _⟩ := run_keeps before
    exact keeps.advances action

end

-- Two tables hold one content; one is dropped, and its buffer stays; the other takes in more and still
-- gives its handle.
theorem append_only_dropped :
    let before : List Action :=
      [.create { shards := 2 }, .ask (.numbered 0) (.call (.internText "a")), .create { shards := 1 },
        .ask (.numbered 1) (.call (.internText "a"))]
    let later : List Action :=
      [.ask (.numbered 1) (.call (.intern [0x61, 0xFF])), .drop 0, .construct (.text .plain "a"),
        .ask (.numbered 1) .entries]
    let dropped : Handle := ⟨⟨0, [0x61, 0]⟩, ContentHasher.hash {} [0x61]⟩
    let kept : Handle := ⟨⟨1, [0x61, 0]⟩, ContentHasher.hash {} [0x61]⟩
    (World.run {} (before ++ later)).world.find? (.numbered 0) = none ∧
      (World.run {} (before ++ later)).world.process.read? 0 = some [0x61, 0] ∧
      (∀ other ∈ World.shown {} (before ++ later), other.2.same dropped = true →
        other = (.numbered 0, dropped)) ∧
      ∃ table, (World.run {} (before ++ later)).world.find? (.numbered 1) = some table ∧
        (World.run {} (before ++ later)).world.Recalls (.numbered 1) table kept := by
  intro before later dropped kept
  obtain ⟨permanent, _, lasting, _⟩ := append_only before later
  have first : (TableName.numbered 0, dropped) ∈ World.shown {} before := by decide +kernel
  have second : (TableName.numbered 1, kept) ∈ World.shown {} before := by decide +kernel
  have gone : ((World.run {} (before ++ later)).world.find? (.numbered 0)).isNone = true := by
    decide +kernel
  have there : ((World.run {} before).world.find? (.numbered 1)).isSome = true := by
    decide +kernel
  refine ⟨Option.isNone_iff_eq_none.mp gone, (permanent _ first).stored,
    (permanent _ first).alone, ?_⟩
  obtain ⟨old, found⟩ := Option.isSome_iff_exists.mp there
  rcases lasting _ old found with ⟨_, number, named, drops⟩ | ⟨table, reached, _⟩
  · cases named
    exact absurd drops (by decide)
  · exact ⟨table, reached, (permanent _ second).recalled table reached⟩

end World

end InternPool
