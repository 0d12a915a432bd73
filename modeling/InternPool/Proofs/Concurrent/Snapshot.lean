import InternPool.Hash.Xxh3
import InternPool.Proofs.Concurrent.Representation
import InternPool.Proofs.Concurrent.Turns
import InternPool.Proofs.Table.Growth

namespace InternPool

-- How many sections are still to come after the one that is waited for.
def Unfinished.rank (shards : Nat) : Unfinished → Nat
  | .missed _ _ => 0
  | .walking _ seen => shards - 1 - seen.length

def Request.turns (shards : Nat) : Request → Nat
  | .call _ => 2
  | _ => shards

namespace Table

variable {old new later : Table} {seen : List Shard} {shard : Shard} {handles : List Handle}
  {buffers : Nat} {options : Options} {site : Site} {request : Request} {answer : Response Handle}

structure Snapshot (old new : Table) (handles : List Handle) : Prop where
  lower : old.entries.Sublist handles
  upper : handles.Sublist new.entries
  contents : (handles.map Handle.content).Nodup
  buffers : (handles.map (·.buffer.number)).Nodup

-- What can be said to a request that began with the one table and ended with the other.
inductive Told (old new : Table) : Request → Response Handle → Prop where
  | missing {call : Call} (looks : call.interns = false) : Told old new (.call call) (.handle none)
  | found {call : Call} {handle : Handle} (member : handle ∈ new.entries)
      (same : handle.content = call.content) : Told old new (.call call) (.handle (some handle))
  | length {handles : List Handle} (snapshot : old.Snapshot new handles) :
      Told old new .length (.count handles.length)
  | isEmpty {handles : List Handle} (snapshot : old.Snapshot new handles) :
      Told old new .isEmpty (.flag (handles.length == 0))
  | stats {handles : List Handle} (snapshot : old.Snapshot new handles) :
      Told old new .stats (.stats
        { entries := handles.length
          contentBytes := total (handles.map (·.content.length + 1))
          shards := new.shards.length })
  | shardLengths {handles : List Handle} {lengths : List Nat} (snapshot : old.Snapshot new handles)
      (each : lengths.length = new.shards.length) (sum : total lengths = handles.length) :
      Told old new .shardLengths (.lengths lengths)
  | entries {handles : List Handle} (snapshot : old.Snapshot new handles) :
      Told old new .entries (.entries handles)

theorem Extends.entries (grown : old.Extends new) : old.entries.Sublist new.entries := by
  rw [Table.entries, Table.entries, old.shards_eq, new.shards_eq, grown.count, Shards.entries,
    Shards.entries]
  induction List.range old.shards.length with
  | nil => exact .slnil
  | cons number rest ih =>
    simp only [List.map_cons, List.flatMap_cons]
    exact (grown.shards number).entries.sublist.append ih

theorem Snapshot.mono (snapshot : old.Snapshot new handles) (grown : new.Extends later) :
    old.Snapshot later handles :=
  { snapshot with upper := snapshot.upper.trans grown.entries }

theorem Told.mono (told : old.Told new request answer) (grown : new.Extends later) :
    old.Told later request answer := by
  cases told with
  | missing looks => exact .missing looks
  | found member same => exact .found (grown.entries.subset member) same
  | length snapshot => exact .length (snapshot.mono grown)
  | isEmpty snapshot => exact .isEmpty (snapshot.mono grown)
  | stats snapshot =>
    rw [← grown.count]
    exact .stats (snapshot.mono grown)
  | shardLengths snapshot each sum =>
    exact .shardLengths (snapshot.mono grown) (each.trans grown.count.symm) sum
  | entries snapshot => exact .entries (snapshot.mono grown)

-- Shards as a walk has seen them, the latest first: each lies between what it was when the walk began
-- and what it is now.
inductive Seen (old new : Table) : List Shard → Prop where
  | nil : Seen old new []
  | cons {shard : Shard} {seen : List Shard} (rest : Seen old new seen)
      (lower : (old.shard seen.length).Extends shard)
      (upper : shard.Extends (new.shard seen.length))
      (counted : shard.contentBytes = total (shard.entries.map (·.content.length + 1))) :
      Seen old new (shard :: seen)

theorem Seen.mono (walked : old.Seen new seen) (grown : new.Extends later) :
    old.Seen later seen := by
  induction walked with
  | nil => exact .nil
  | cons _ lower upper counted ih => exact .cons ih lower (upper.trans (grown.shards _)) counted

theorem Seen.counted (walked : old.Seen new seen) : ∀ shard ∈ seen,
    shard.contentBytes = total (shard.entries.map (·.content.length + 1)) := by
  induction walked with
  | nil =>
    intro shard member
    cases member
  | cons _ _ _ counted ih => exact List.forall_mem_cons.mpr ⟨counted, ih⟩

theorem Seen.between (walked : old.Seen new seen) :
    (Shards.entries ((List.range seen.length).map old.shard)).Sublist
        (Shards.entries seen.reverse) ∧
      (Shards.entries seen.reverse).Sublist
        (Shards.entries ((List.range seen.length).map new.shard)) := by
  induction walked with
  | nil => exact ⟨.slnil, .slnil⟩
  | cons rest lower upper _ ih =>
    simp only [Shards.entries, List.length_cons, List.range_succ, List.reverse_cons,
      List.map_append, List.flatMap_append, List.map_singleton, List.flatMap_singleton] at ih ⊢
    exact ⟨ih.1.append lower.entries.sublist, ih.2.append upper.entries.sublist⟩

inductive Waits (old new : Table) : Request → Unfinished → Prop where
  | missed {call : Call} {hash : UInt64} (interns : call.interns = true) :
      Waits old new (.call call) (.missed hash call.content)
  | walking {observer : Request} {seen : List Shard} (observes : ∀ call, observer ≠ .call call)
      (walked : old.Seen new seen) (left : seen.length < new.shards.length) :
      Waits old new observer (.walking observer seen)

theorem Waits.mono {further : Unfinished} (waits : old.Waits new request further)
    (grown : new.Extends later) : old.Waits later request further := by
  cases waits with
  | missed interns => exact .missed interns
  | walking observes walked left =>
    exact .walking observes (walked.mono grown) (grown.count.symm ▸ left)

-- What holds of a call that has ended, if it began at the time of `old` or later.
def ToldSince (old : Table) (since : Nat) (site : Site) (last : Ended Request (Response Handle)) :
    Prop :=
  since ≤ last.began → old.Told site.table last.call last.answer

def CarriesOn (old : Table) (request : Request)
    (left : Section.Left Site Unfinished (Response Handle)) : Prop :=
  match left.progress with
  | .pending further => old.Waits left.shared.table request further
  | .ended answer => old.Told left.shared.table request answer

def Interns (request : Request) : Prop :=
  ∃ call, request = .call call ∧ call.interns = true

def Gives (last : Ended Request (Response Handle)) (handle : Handle) : Prop :=
  Interns last.call ∧ last.answer = .handle (some handle)

-- What a table has over what it had before a section is the handle that an intern is then given.
def AddsGiven (site : Site) (request : Request)
    (left : Section.Left Site Unfinished (Response Handle)) : Prop :=
  ∀ handle ∈ left.shared.table.entries, handle ∈ site.table.entries ∨
    (Interns request ∧ left.progress = .ended (.handle (some handle)))

theorem turns_observer {observer : Request} (observes : ∀ call, observer ≠ .call call)
    (shards : Nat) : observer.turns shards = shards := by
  cases observer with
  | call call => exact absurd rfl (observes call)
  | length | isEmpty | stats | shardLengths | entries => rfl

theorem visit_further {observer : Request} {further : Unfinished}
    (pending : (site.visit observer seen).progress = .pending further) :
    further.rank site.table.shards.length + 1 + (seen.length + 1) = site.table.shards.length := by
  rw [Site.visit] at pending
  dsimp only at pending
  split at pending
  · rename_i more
    cases pending
    rw [Unfinished.rank]
    rw [List.length_cons] at more ⊢
    omega
  · cases pending

section
variable [ContentHash]

structure GrownFrom (options : Options) (old : Table) (site : Site) : Prop where
  sound : site.Sound options
  grown : old.Extends site.table

def WaitsSince (options : Options) (old : Table) (since : Nat) (site : Site)
    (pending : Pending Request Unfinished) : Prop :=
  pending.left.Sound ⟨options.hashSeed⟩ ∧
    (since ≤ pending.began → old.Waits site.table pending.call pending.left)

theorem Seen.visit (walked : old.Seen new seen) (grown : old.Extends new)
    (valid : new.Valid buffers) : old.Seen new (new.shard seen.length :: seen) :=
  .cons walked (grown.shards seen.length) (.refl _) (valid.counted seen.length)

theorem Seen.snapshot (walked : old.Seen new seen) (grown : old.Extends new)
    (valid : new.Valid buffers) (whole : seen.length = new.shards.length) :
    old.Snapshot new (Shards.entries seen.reverse) := by
  obtain ⟨lower, upper⟩ := walked.between
  rw [whole, ← new.shards_eq] at upper
  rw [whole, grown.count, ← old.shards_eq] at lower
  exact ⟨lower, upper, valid.contents.sublist (upper.map _), valid.distinct.sublist (upper.map _)⟩

theorem Seen.told (walked : old.Seen new seen) (grown : old.Extends new)
    (valid : new.Valid buffers) (whole : seen.length = new.shards.length) {observer : Request}
    (observes : ∀ call, observer ≠ .call call) :
    old.Told new observer (observer.observe seen.reverse) := by
  have snapshot := walked.snapshot grown valid whole
  have length := Shards.length_entries seen.reverse
  have counted : ∀ shard ∈ seen.reverse,
      shard.contentBytes = total (shard.entries.map (·.content.length + 1)) := by
    intro shard member
    exact walked.counted shard (List.mem_reverse.mp member)
  cases observer with
  | call call => exact absurd rfl (observes call)
  | length =>
    rw [Request.observe, length]
    exact .length snapshot
  | isEmpty =>
    rw [Request.observe, length]
    exact .isEmpty snapshot
  | stats =>
    rw [Request.observe, Shards.stats, length, Shards.contentBytes_entries counted,
      List.length_reverse, whole]
    exact .stats snapshot
  | shardLengths =>
    refine .shardLengths snapshot ?_ length
    rw [Shards.lengths, List.length_map, List.length_reverse, whole]
  | entries => exact .entries snapshot

theorem look_carries (sound : site.Sound options) (call : Call) :
    CarriesOn old (.call call) (site.look call) := by
  rw [CarriesOn, Site.look]
  dsimp only
  cases found : site.table.probe (site.table.hasher.hash call.content) call.content with
  | some handle =>
    obtain ⟨member, same⟩ := sound.valid.probe_iff.mp found
    simpa using Told.found member same
  | none =>
    cases interns : call.interns with
    | true => simpa using Waits.missed interns
    | false => simpa using Told.missing interns

theorem enter_carries (sound : site.Sound options) (call : Call) :
    CarriesOn old (.call call)
      (site.enter (ContentHasher.hash ⟨options.hashSeed⟩ call.content) call.content) := by
  rw [← sound.shaped.hasher, CarriesOn, Site.enter]
  dsimp only
  rcases sound.valid.enter_cases site.process call.content with
    ⟨winner, member, same, entered⟩ | ⟨_, entered⟩
  · rw [entered]
    exact .found member same
  · rw [entered]
    refine .found ?_ (Process.content_buffer _ _ _)
    exact (entries_add (sound.valid.inside _)).mem_iff.mpr List.mem_cons_self

theorem visit_carries (held : GrownFrom options old site) {observer : Request}
    (observes : ∀ call, observer ≠ .call call) (walked : old.Seen site.table seen)
    (left : seen.length < site.table.shards.length) :
    CarriesOn old observer (site.visit observer seen) := by
  have further := walked.visit held.grown held.sound.valid
  rw [CarriesOn, Site.visit]
  dsimp only
  by_cases more : (site.table.shard seen.length :: seen).length < site.table.shards.length
  · rw [if_pos more]
    exact .walking observes further more
  · rw [if_neg more]
    refine further.told held.grown held.sound.valid ?_ observes
    rw [List.length_cons] at more ⊢
    omega

theorem CarriesOn.tracks {left : Section.Left Site Unfinished (Response Handle)} {since began : Nat}
    (held : GrownFrom options old site)
    (kept : left.Leaves (Site.Sound options) (Unfinished.Sound ⟨options.hashSeed⟩))
    (grown : site.table.Extends left.shared.table)
    (carries : since ≤ began → CarriesOn old request left) :
    left.Tracks (GrownFrom options old) (WaitsSince options old since) (ToldSince old since) site
      request began where
  held := ⟨kept.1, held.grown.trans grown⟩
  waiting pending pends := ⟨pends.1, fun late => (pends.2 late).mono grown⟩
  ended last answers late := (answers late).mono grown
  further further progress := by
    refine ⟨kept.2 further progress, ?_⟩
    intro late
    have carries := carries late
    rwa [CarriesOn, progress] at carries
  answer answer progress number time := by
    intro late
    have carries := carries late
    rwa [CarriesOn, progress] at carries

theorem sections_track (options : Options) (old : Table) (since : Nat) :
    sections.Tracks (GrownFrom options old) (WaitsSince options old since) (ToldSince old since) := by
  constructor
  · intro site held request began
    have positive : ([] : List Shard).length < site.table.shards.length :=
      Nat.zero_lt_of_lt held.sound.valid.masked
    have kept := (sections_keep options).first held.sound request
    cases request with
    | call call => exact CarriesOn.tracks held kept (.refl _) fun _ => look_carries held.sound call
    | length | isEmpty | stats | shardLengths | entries =>
      exact CarriesOn.tracks held kept (.refl _) fun _ => visit_carries held nofun .nil positive
  · rintro site ⟨request, began, further⟩ held ⟨sound, waits⟩
    have kept := (sections_keep options).later held.sound sound
    dsimp only at sound waits kept ⊢
    cases further with
    | missed hash content =>
      obtain ⟨rfl, _⟩ := sound
      have grown := held.sound.valid.enter_extends site.process content
      rw [held.sound.shaped.hasher] at grown
      refine CarriesOn.tracks held kept grown ?_
      intro late
      cases waits late
      exact enter_carries held.sound _
    | walking observer seen =>
      refine CarriesOn.tracks held kept (.refl _) ?_
      intro late
      cases waits late with
      | walking observes walked left => exact visit_carries held observes walked left

theorem sections_bounded (positive : 0 < old.shards.length) :
    sections.Bounded (GrownFrom options old) (WaitsSince options old 0)
      (Unfinished.rank old.shards.length) (Request.turns old.shards.length) where
  positive request := by
    cases request with
    | call call => exact Nat.succ_pos 1
    | length | isEmpty | stats | shardLengths | entries => exact positive
  first := by
    intro site request further held pending
    cases request with
    | call call =>
      change (site.look call).progress = _ at pending
      rw [Site.look] at pending
      dsimp only at pending
      split at pending <;> cases pending
      exact Nat.lt_succ_self 1
    | length | isEmpty | stats | shardLengths | entries =>
      have left := visit_further pending
      rw [held.grown.count, List.length_nil] at left
      change further.rank old.shards.length + 1 < old.shards.length
      omega
  later := by
    rintro site ⟨request, began, waiting⟩ further held ⟨_, waits⟩ pending
    dsimp only at waits pending
    cases waits (Nat.zero_le began) with
    | missed => cases pending
    | walking observes walked left =>
      have left := visit_further pending
      rw [held.grown.count] at left
      dsimp only [Unfinished.rank] at left ⊢
      omega
  waiting := by
    rintro site ⟨request, began, waiting⟩ held ⟨_, waits⟩
    dsimp only at waits
    cases waits (Nat.zero_le began) with
    | missed => exact Nat.succ_pos 1
    | walking observes walked left =>
      rw [turns_observer observes, Unfinished.rank]
      omega

theorem first_adds (site : Site) (request : Request) :
    AddsGiven site request (sections.first site request) := by
  intro handle member
  cases request <;> exact .inl member

theorem later_adds {further : Unfinished} (sound : site.Sound options)
    (hashed : further.Sound ⟨options.hashSeed⟩) (waits : old.Waits site.table request further) :
    AddsGiven site request (sections.later site further) := by
  intro handle member
  cases waits with
  | walking => exact .inl member
  | missed interns =>
    rename_i call hash
    obtain ⟨rfl, _⟩ := hashed
    have entering := sound.valid.enter_cases site.process call.content
    rw [sound.shaped.hasher] at entering
    change handle ∈ (site.table.enter site.process _ call.content).table.entries at member
    rcases entering with ⟨winner, _, _, entered⟩ | ⟨_, entered⟩
    · rw [entered] at member
      exact .inl member
    · rw [entered] at member
      have grown := entries_add (sound.valid.inside (site.table.fresh site.process call.content).hash)
      rcases List.mem_cons.mp (grown.mem_iff.mp member) with rfl | known
      · refine .inr ⟨⟨call, rfl, interns⟩, ?_⟩
        change Progress.ended (Response.handle (some (site.table.enter site.process _ _).handle)) = _
        rw [entered]
      · exact .inl known

variable {table : Table} {process : Process} {requests : List (List Request)}
  {state before next : Threads Site Request Unfinished (Response Handle)} {number : Nat}

-- Nothing is said at first of the calls that began earlier.
theorem moment_tracked
    (sound : before.Sound (Site.Sound options) (Unfinished.Sound ⟨options.hashSeed⟩))
    (timed : before.Timed) :
    before.Tracked (GrownFrom options before.shared.table)
      (WaitsSince options before.shared.table before.clock)
      (ToldSince before.shared.table before.clock) where
  shared := ⟨sound.shared, .refl _⟩
  waiting thread member pending present := by
    refine ⟨sound.waiting thread member pending present, ?_⟩
    intro late
    exact absurd (timed.begun thread member pending present) (Nat.not_lt.mpr late)
  ended last member := by
    intro late
    have length := timed.spans last member
    have past := timed.past last member
    omega

theorem given_step
    (tracked : before.Tracked (GrownFrom options old) (WaitsSince options old 0) (ToldSince old 0))
    (given : ∀ handle ∈ before.shared.table.entries, ∃ last ∈ before.ended, Gives last handle)
    (step : Threads.Step sections before number next) :
    ∀ handle ∈ next.shared.table.entries, ∃ last ∈ next.ended, Gives last handle := by
  intro handle member
  have kept := step.keeps_ended
  obtain ⟨thread, call, rest, began, left, found, _, rfl, moved⟩ := step.moves
  have adds : AddsGiven before.shared call left := by
    rcases moved with ⟨_, rfl⟩ | ⟨further, pending, rfl⟩
    · exact first_adds before.shared call
    · obtain ⟨hashed, waits⟩ :=
        tracked.waiting thread (List.mem_of_getElem? found) ⟨call, began, further⟩ pending.symm
      exact later_adds tracked.shared.sound hashed (waits (Nat.zero_le began))
  rw [Threads.after_shared] at member
  rcases adds handle member with known | ⟨interns, ended⟩
  · obtain ⟨last, earlier, gives⟩ := given handle known
    exact ⟨last, kept earlier, gives⟩
  · exact ⟨_, before.mem_ended_after rest call began ended, interns, rfl⟩

section
variable (built : withOptions options = .ok table)
  (path : Threads.Runs sections (table.threads process requests) state)
include built path

theorem reached_sound : state.Sound (Site.Sound options) (Unfinished.Sound ⟨options.hashSeed⟩) :=
  (Threads.start_sound (built_sound built process) requests).runs (sections_keep options) path

theorem entries_given (handle : Handle) :
    handle ∈ state.shared.table.entries ↔ ∃ last ∈ state.ended, Gives last handle := by
  have begun : Threads.Runs sections (table.threads process requests) _ := .nil
  have start := moment_tracked (reached_sound built begun) (Threads.start_timed _ requests)
  obtain ⟨_, rfl⟩ := withOptions_ok_iff.mp built
  have track := sections_track options (build options) 0
  constructor
  · induction path generalizing handle with
    | nil =>
      intro member
      change handle ∈ (build options).entries at member
      rw [build_entries] at member
      cases member
    | step path moved ih => exact given_step (start.runs track path) ih moved handle
  · rintro ⟨last, ended, ⟨call, interns, _⟩, answer⟩
    have told := (start.runs track path).ended last ended (Nat.zero_le _)
    rw [interns, answer] at told
    cases told with
    | found member => exact member

end

theorem request_between (built : withOptions options = .ok table) (process : Process)
    (requests : List (List Request))
    {state : Threads Site Request Unfinished (Response Handle)}
    (path : Threads.Runs sections (table.threads process requests) state)
    {last : Ended Request (Response Handle)} (member : last ∈ state.ended) :
    (∃ before after,
      Threads.Spans sections (table.threads process requests) state last before after) ∧
    ∀ before after,
      Threads.Spans sections (table.threads process requests) state last before after →
        Told before.shared.table after.shared.table last.call last.answer ∧
        (∀ handle, handle ∈ before.shared.table.entries ↔
          ∃ other ∈ state.ended, other.ended < last.began ∧ Gives other handle) ∧
        ∀ handle, handle ∈ after.shared.table.entries ↔
          ∃ other ∈ state.ended, other.ended ≤ last.ended ∧ Gives other handle := by
  have timed := (Threads.start_timed _ requests).runs path
  refine ⟨timed.spans_exist path rfl member, ?_⟩
  intro before after spans
  have reached := spans.reached.append spans.during
  have earlier := (Threads.start_timed _ requests).runs spans.reached
  have later := (Threads.start_timed _ requests).runs reached
  refine ⟨?_, ?_, ?_⟩
  · have tracked := moment_tracked (reached_sound built spans.reached) earlier
    have ended : last ∈ after.ended := by
      rw [later.mem_ended_iff spans.onward, spans.ended]
      exact ⟨member, Nat.lt_succ_self _⟩
    exact (tracked.runs (sections_track options _ _) spans.during).ended last ended
      (Nat.le_of_eq spans.began)
  · intro handle
    rw [entries_given built spans.reached]
    simp only [earlier.mem_ended_iff (spans.during.append spans.onward), spans.began, and_assoc]
  · intro handle
    rw [entries_given built reached]
    simp only [later.mem_ended_iff spans.onward, spans.ended, Nat.lt_succ_iff, and_assoc]

theorem request_ends (built : withOptions options = .ok table) (process : Process)
    (requests : List (List Request))
    {state : Threads Site Request Unfinished (Response Handle)}
    (path : Threads.Runs sections (table.threads process requests) state) {request : Request}
    {rest : List Request} {schedule : List Nat} (first : state.left number = request :: rest)
    (enough : request.turns table.shards.length ≤ schedule.count number) :
    ∃ front, front <+: schedule ∧ front.count number ≤ request.turns table.shards.length ∧
      (state.run sections front).Over state.clock number request rest := by
  have begun : Threads.Runs sections (table.threads process requests) _ := .nil
  have start := moment_tracked (reached_sound built begun) (Threads.start_timed _ requests)
  have positive := Nat.zero_lt_of_lt start.shared.sound.valid.masked
  exact (start.runs (sections_track options _ 0) path).call_ends (sections_bounded positive)
    (sections_track options _ 0) first enough

-- All that is said to a request is of the table between two moments, right before its first section
-- and right after its last; and the table at the two is told by which interns had ended. It is said
-- after as many turns of the thread as the request has sections, whatever other threads do.
theorem observers_between (built : withOptions options = .ok table) (process : Process)
    (requests : List (List Request))
    {state : Threads Site Request Unfinished (Response Handle)}
    (path : Threads.Runs sections (table.threads process requests) state) :
    (∀ last ∈ state.ended,
      (∃ before after,
        Threads.Spans sections (table.threads process requests) state last before after) ∧
      ∀ before after,
        Threads.Spans sections (table.threads process requests) state last before after →
          Told before.shared.table after.shared.table last.call last.answer ∧
          (∀ handle, handle ∈ before.shared.table.entries ↔
            ∃ other ∈ state.ended, other.ended < last.began ∧ Gives other handle) ∧
          ∀ handle, handle ∈ after.shared.table.entries ↔
            ∃ other ∈ state.ended, other.ended ≤ last.ended ∧ Gives other handle) ∧
    ∀ number request rest schedule, state.left number = request :: rest →
      request.turns table.shards.length ≤ schedule.count number →
        ∃ front, front <+: schedule ∧ front.count number ≤ request.turns table.shards.length ∧
          (state.run sections front).Over state.clock number request rest :=
  ⟨fun _ member => request_between built process requests path member,
    fun _ _ _ _ first enough => request_ends built process requests path first enough⟩

end

-- "b" is there when four walks begin; then "a" comes into the shard that they have left behind, and
-- "g" into the one that they have yet to see. They tell of "b" and "g", which were never all the table
-- held. Before that a fifth walk did not see "b" come in behind it.
theorem observers_between_passed :
    let requests : List (List Request) :=
      [[.entries], [.stats], [.length], [.shardLengths], [.isEmpty],
        [.call (.internText "b"), .call (.internText "a"), .call (.internText "g")]]
    let start := (build { shards := 2 }).threads {} requests
    let schedule := [4, 5, 5, 4, 0, 1, 2, 3, 5, 5, 5, 5, 0, 1, 2, 3]
    let state := start.run sections schedule
    let first : Handle := ⟨⟨0, [0x62, 0]⟩, ContentHasher.hash {} [0x62]⟩
    let passed : Handle := ⟨⟨1, [0x61, 0]⟩, ContentHasher.hash {} [0x61]⟩
    let last : Handle := ⟨⟨2, [0x67, 0]⟩, ContentHasher.hash {} [0x67]⟩
    let early : Ended Request (Response Handle) := ⟨4, .isEmpty, .flag true, 0, 3⟩
    let walks : List (Ended Request (Response Handle)) :=
      [⟨0, .entries, .entries [first, last], 4, 12⟩, ⟨1, .stats, .stats ⟨2, 4, 2⟩, 5, 13⟩,
        ⟨2, .length, .count 2, 6, 14⟩, ⟨3, .shardLengths, .lengths [1, 1], 7, 15⟩]
    withOptions { shards := 2 } = .ok (build { shards := 2 }) ∧
      Threads.Runs sections start state ∧
      (∀ walk ∈ walks, walk ∈ state.ended ∧
        ∃ before after, Threads.Spans sections start state walk before after ∧
          Told before.shared.table after.shared.table walk.call walk.answer ∧
          first ∈ before.shared.table.entries ∧ passed ∉ before.shared.table.entries ∧
          passed ∈ after.shared.table.entries) ∧
      (early ∈ state.ended ∧
        ∃ before after, Threads.Spans sections start state early before after ∧
          Told before.shared.table after.shared.table .isEmpty (.flag true) ∧
          first ∉ before.shared.table.entries ∧ first ∈ after.shared.table.entries) ∧
      ∃ front, front <+: schedule ∧ front.count 1 ≤ 2 ∧
        (start.run sections front).Over 0 1 .stats [] := by
  intro requests start schedule state first passed last early walks
  have built : withOptions { shards := 2 } = .ok (build { shards := 2 }) := rfl
  have path : Threads.Runs sections start state := Threads.run_runs _ _
  have ended : state.ended = walks.reverse ++
      [⟨5, .call (.internText "g"), .handle (some last), 10, 11⟩,
        ⟨5, .call (.internText "a"), .handle (some passed), 8, 9⟩, early,
        ⟨5, .call (.internText "b"), .handle (some first), 1, 2⟩] := by decide +kernel
  have givesFirst : Gives ⟨5, .call (.internText "b"), .handle (some first), 1, 2⟩ first :=
    ⟨⟨_, rfl, rfl⟩, rfl⟩
  have givesPassed : Gives ⟨5, .call (.internText "a"), .handle (some passed), 8, 9⟩ passed :=
    ⟨⟨_, rfl, rfl⟩, rfl⟩
  have onlyFirst : ∀ other ∈ state.ended, other.answer = .handle (some first) → other.ended = 2 := by
    rw [ended]
    decide +kernel
  have onlyPassed : ∀ other ∈ state.ended, other.answer = .handle (some passed) →
      other.ended = 9 := by
    rw [ended]
    decide +kernel
  have inside : ∀ walk ∈ walks, walk ∈ state.ended ∧ 2 < walk.began ∧ walk.began < 9 ∧
      9 ≤ walk.ended := by
    rw [ended]
    decide +kernel
  obtain ⟨holds, ends⟩ := observers_between built {} requests path
  refine ⟨built, path, ?_, ?_, ?_⟩
  · intro walk member
    obtain ⟨present, late, soon, long⟩ := inside walk member
    obtain ⟨⟨before, after, spans⟩, holds⟩ := holds walk present
    obtain ⟨told, began, gone⟩ := holds before after spans
    refine ⟨present, before, after, spans, told, ?_, ?_, ?_⟩
    · rw [began, ended]
      exact ⟨_, by simp, late, givesFirst⟩
    · rw [began]
      rintro ⟨other, member, early, _, answered⟩
      have time := onlyPassed other member answered
      omega
    · rw [gone, ended]
      exact ⟨_, by simp, long, givesPassed⟩
  · have present : early ∈ state.ended := by
      rw [ended]
      simp
    obtain ⟨⟨before, after, spans⟩, holds⟩ := holds early present
    obtain ⟨told, began, gone⟩ := holds before after spans
    refine ⟨present, before, after, spans, told, ?_, ?_⟩
    · rw [began]
      rintro ⟨other, _, soon, _⟩
      cases soon
    · rw [gone, ended]
      exact ⟨_, by simp, by decide, givesFirst⟩
  · exact (observers_between built {} requests .nil).2 1 .stats [] schedule rfl (by decide)

end Table

end InternPool
