import InternPool.Proofs.Concurrent.ChosenOnce
import InternPool.Proofs.World.Ledger

namespace InternPool

-- The options that the shared table gets if nothing before this got at it; `none` if this does not
-- get at it either, as a refused configuration and a route that fails before it has a content.
def Action.settles? (action : Action) (result : Result) : Option Options :=
  match action, result with
  | .configure options, .configured _ => some options
  | .useShared, _ | .foreignNew _, _ | .foreignFromBytes _ _, _ | .ask .shared _, _ => some {}
  | .construct route, _ => if route.content.isOk then some {} else none
  | _, _ => none

namespace World

variable {world : World} {settled : Option Options} {options : Options}

def Settled (world : World) : Option Options → Prop
  | none => world.shared = none
  | some options => ∃ table, world.shared = some table ∧ table.Shaped options

theorem Settled.useShared (holds : world.Settled settled) :
    world.useShared.Settled (some (settled.getD {})) := by
  rw [World.useShared]
  cases settled with
  | none =>
    change world.shared = none at holds
    rw [holds]
    exact ⟨Table.build {}, rfl, Table.build_shaped {}⟩
  | some options =>
    obtain ⟨table, made, shaped⟩ := holds
    rw [made]
    exact ⟨table, made, shaped⟩

theorem Settled.configure_answer (holds : world.Settled settled)
    (accepted : options.validate = .ok ()) :
    (world.configure options).answer =
      if settled.isNone then .ok () else .error .alreadyInitialized := by
  rw [World.configure, accepted]
  cases settled with
  | none =>
    change world.shared = none at holds
    rw [holds]
    rfl
  | some chosen =>
    obtain ⟨table, made, _⟩ := holds
    rw [made]
    rfl

section
variable [ContentHash]

def history (world : World) (actions : List Action) : List (Action × Result) :=
  actions.zip (world.run actions).answer

theorem Settled.internShared (holds : world.Settled settled) (content : Bytes) :
    (world.internShared content).world.Settled (some (settled.getD {})) := by
  obtain ⟨table, made, shaped⟩ := holds.useShared
  rw [World.internShared, sharedTable, made, Option.getD_some, Table.internContent_enter]
  exact ⟨_, rfl, shaped.enter _ _ _⟩

theorem Settled.construct (holds : world.Settled settled) (route : Route) :
    (world.construct route).world.Settled
      (settled.or (if route.content.isOk then some {} else none)) := by
  rw [construct_content]
  cases route.content with
  | error rejection =>
    rw [Except.isOk, Except.toBool, if_neg Bool.false_ne_true, Option.or_none]
    exact holds
  | ok content =>
    rw [Except.isOk, Except.toBool, if_pos rfl, Option.or_some]
    exact holds.internShared content

theorem Settled.ask (holds : world.Settled settled) (name : TableName) (request : Request) :
    (world.ask name request).world.Settled
      (settled.or (if name = .shared then some {} else none)) := by
  cases name with
  | numbered number =>
    rw [if_neg nofun, Option.or_none, World.ask]
    cases (world.ready (.numbered number)).find? (.numbered number) with
    | none => exact holds
    | some table => cases settled <;> exact holds
  | shared =>
    rw [if_pos rfl, Option.or_some, World.ask]
    obtain ⟨table, made, shaped⟩ := holds.useShared
    have found : (world.ready .shared).find? .shared = some table := made
    rw [found]
    exact ⟨_, rfl, shaped.answer _ request⟩

theorem Settled.configure (holds : world.Settled settled) (options : Options) :
    (world.act (.configure options)).world.Settled
      (settled.or
        ((Action.configure options).settles? (world.act (.configure options)).answer)) := by
  rw [World.act, World.configure]
  cases options.validate with
  | error refusal =>
    change world.Settled (settled.or none)
    rwa [Option.or_none]
  | ok accepted =>
    cases settled with
    | none =>
      change world.shared = none at holds
      rw [holds]
      exact ⟨Table.build options, rfl, Table.build_shaped options⟩
    | some chosen =>
      obtain ⟨table, made, shaped⟩ := holds
      rw [made]
      exact ⟨table, made, shaped⟩

theorem Settled.act (holds : world.Settled settled) (action : Action) :
    (world.act action).world.Settled
      (settled.or (action.settles? (world.act action).answer)) := by
  cases action with
  | create options =>
    change (world.act (.create options)).world.Settled (settled.or none)
    rw [Option.or_none, World.act, World.create]
    cases Table.withOptions options with
    | error refusal => exact holds
    | ok table => cases settled <;> exact holds
  | drop number =>
    change (world.act (.drop number)).world.Settled (settled.or none)
    rw [Option.or_none, World.act, World.drop]
    cases world.tables[number]? with
    | none => exact holds
    | some slot =>
      cases slot with
      | none => exact holds
      | some table => cases settled <;> exact holds
  | ask name request =>
    have asked := holds.ask name request
    have settles : (Action.ask name request).settles? (world.act (.ask name request)).answer =
        if name = .shared then some {} else none := by
      cases name <;> rfl
    rw [settles, World.act]
    cases (world.ask name request).answer <;> exact asked
  | useShared =>
    change world.useShared.Settled (settled.or (some {}))
    rw [Option.or_some]
    exact holds.useShared
  | configure options => exact holds.configure options
  | construct route =>
    have constructed := holds.construct route
    change (world.act (.construct route)).world.Settled
      (settled.or (if route.content.isOk then some {} else none))
    rw [World.act]
    cases (world.construct route).answer <;> exact constructed
  | foreignNew memory =>
    change (world.foreignNew memory).world.Settled (settled.or (some {}))
    rw [Option.or_some]
    exact holds.internShared _
  | foreignFromBytes memory length =>
    change (world.foreignFromBytes memory length).world.Settled (settled.or (some {}))
    rw [Option.or_some]
    exact holds.internShared _

theorem history_cons (world : World) (action : Action) (rest : List Action) :
    world.history (action :: rest) =
      (action, (world.act action).answer) :: (world.act action).world.history rest := by
  rw [history, run, List.zip_cons_cons]
  rfl

theorem Settled.run (holds : world.Settled settled) (actions : List Action) :
    (world.run actions).world.Settled
      (settled.or ((world.history actions).findSome? fun done => done.1.settles? done.2)) := by
  induction actions generalizing world settled with
  | nil =>
    change world.Settled (settled.or none)
    rwa [Option.or_none]
  | cons action rest ih =>
    have reached := ih (holds.act action)
    rw [Option.or_assoc] at reached
    rw [history_cons, List.findSome?_cons]
    cases settles : action.settles? (world.act action).answer with
    | none =>
      rw [settles] at reached
      exact reached
    | some options =>
      rw [settles] at reached
      exact reached

-- How a configuration with valid options would end in a world that has come that far, and what its
-- shared table is.
structure ChosenFirst (actions : List Action) : Prop where
  answered : ∀ options, options.validate = .ok () →
    (((World.run {} actions).world.configure options).answer = .ok () ↔
      ∀ done ∈ World.history {} actions, done.1.settles? done.2 = none) ∧
    (((World.run {} actions).world.configure options).answer = .error .alreadyInitialized ↔
      ∃ done ∈ World.history {} actions, done.1.settles? done.2 ≠ none)
  settled : (World.run {} actions).world.Settled
    ((World.history {} actions).findSome? fun done => done.1.settles? done.2)

theorem run_chosenFirst (actions : List Action) : ChosenFirst actions := by
  have holds : ({} : World).Settled none := rfl
  have reached := holds.run actions
  rw [Option.none_or] at reached
  refine ⟨?_, reached⟩
  intro options accepted
  rw [reached.configure_answer accepted]
  cases first : (World.history {} actions).findSome? fun done => done.1.settles? done.2 with
  | none =>
    have unused := List.findSome?_eq_none_iff.mp first
    refine ⟨iff_of_true rfl unused, iff_of_false nofun ?_⟩
    rintro ⟨done, member, settles⟩
    exact settles (unused done member)
  | some chosen =>
    obtain ⟨done, member, settles⟩ := List.exists_of_findSome?_eq_some first
    have used : done.1.settles? done.2 ≠ none := by
      rw [settles]
      nofun
    refine ⟨iff_of_false nofun ?_, iff_of_true rfl ⟨done, member, used⟩⟩
    intro unused
    exact used (unused done member)

theorem shared_chosen_once (calls : List (List CellCall))
    {state : Threads SharedCell CellCall Configuring SharedCell.Answer}
    (path : Threads.Runs SharedCell.sections (Threads.start {} calls) state)
    (actions : List Action) :
    SharedCell.ChosenOnce state ∧ ChosenFirst actions ∧
      ∀ options refusal, options.validate = .error refusal →
        (∀ cell, SharedCell.sections.first cell (.configure options) =
          ⟨cell, .ended (.error refusal)⟩) ∧
        ∀ world : World, world.configure options = ⟨.error refusal, world⟩ := by
  refine ⟨SharedCell.runs_chosenOnce path, run_chosenFirst actions, ?_⟩
  intro options refusal refused
  refine ⟨SharedCell.configure_refused refused, ?_⟩
  intro world
  rw [World.configure, refused]

end

-- Two configurations find the cell empty, and the one that began later fills it.
theorem shared_chosen_once_racing :
    let calls : List (List CellCall) :=
      [[.configure { shards := 2 }], [.configure { shards := 8 }, .use]]
    let state := (Threads.start {} calls).run SharedCell.sections [0, 1, 0, 1, 0, 1, 1, 0, 1, 1]
    let actions : List Action :=
      [.construct (.strict [0xFF]), .configure { shards := 3 }, .configure { shards := 2 }]
    Threads.Runs SharedCell.sections (Threads.start {} calls) state ∧ state.isOver = true ∧
      SharedCell.ChosenOnce state ∧ state.shared.content = some ⟨1, { shards := 8 }⟩ ∧
      (state.ended.countP fun last => SharedCell.wins last.call last.answer) = 1 ∧
      ((World.run {} actions).world.configure {}).answer = .error .alreadyInitialized ∧
      (World.run {} actions).world.Settled (some { shards := 2 }) := by
  intro calls state actions
  have path : Threads.Runs SharedCell.sections (Threads.start {} calls) state :=
    Threads.run_runs _ _
  obtain ⟨once, first, _⟩ := shared_chosen_once calls path actions
  have used : ∃ done ∈ World.history {} actions, done.1.settles? done.2 ≠ none := by
    decide +kernel
  have settled : (World.history {} actions).findSome? (fun done => done.1.settles? done.2) =
      some { shards := 2 } := by
    decide +kernel
  refine ⟨path, by decide +kernel, once, by decide +kernel, by decide +kernel,
    (first.answered {} rfl).2.mpr used, ?_⟩
  rw [← settled]
  exact first.settled

end World

end InternPool
