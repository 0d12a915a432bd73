import Mathlib.Data.List.GetD
import InternPool.Concurrent.TableSections
import InternPool.Hash.Xxh3
import InternPool.Proofs.Concurrent.Linear
import InternPool.Proofs.Table.Account

namespace InternPool

namespace Site

def whole [ContentHash] (site : Site) (request : Request) : Site × Response Handle :=
  let answered := site.table.answer site.process request
  (⟨answered.table, answered.process⟩, answered.response)

end Site

-- What is left of an interning call that missed: its own content, under the hash of that.
inductive Missed [ContentHash] (hasher : ContentHasher) : Request → Unfinished → Prop where
  | missed {call : Call} (interns : call.interns = true) :
      Missed hasher (.call call) (.missed (hasher.hash call.content) call.content)

namespace Table

section
variable [ContentHash] {table : Table} {process : Process}

theorem call_found {call : Call} {handle : Handle}
    (found : table.probe (table.hasher.hash call.content) call.content = some handle) :
    table.call process call = ⟨some handle, table, process⟩ := by
  cases interns : call.interns with
  | true => rw [call_interning interns, enter_known found]
  | false => rw [call_looking interns, found]

theorem call_hasher (table : Table) (process : Process) (call : Call) :
    (table.call process call).table.hasher = table.hasher := by
  cases interns : call.interns with
  | true =>
    rw [call_interning interns]
    rfl
  | false => rw [call_looking interns]

theorem sections_atomic (hasher : ContentHasher) :
    sections.Atomic Site.whole (fun site => site.table.hasher = hasher)
      (fun request => ∃ call, request = .call call) (Missed hasher) := by
  refine ⟨?_, ?_, ?_⟩
  · intro site request same called
    obtain ⟨call, rfl⟩ := called
    change (site.look call).Settles Site.whole (Missed hasher) site (.call call)
    rw [Site.look, Section.Left.Settles, Site.whole, Table.answer]
    cases found : site.table.probe (site.table.hasher.hash call.content) call.content with
    | some handle =>
      rw [call_found found, Option.isNone_some, Bool.and_false]
      rfl
    | none =>
      cases interns : call.interns with
      | true =>
        refine ⟨rfl, ?_⟩
        rw [same]
        exact .missed interns
      | false =>
        rw [call_looking interns, found]
        rfl
  -- Others may have entered the content since it was missed; the entry looks again.
  · intro site request further same called waits
    cases waits with
    | missed interns =>
      rename_i call
      change (site.enter (hasher.hash call.content) call.content).Settles Site.whole
        (Missed hasher) site (.call call)
      rw [Site.enter, Section.Left.Settles, Site.whole, Table.answer, call_interning interns, same]
  · intro site request same called
    obtain ⟨call, rfl⟩ := called
    rw [← same]
    exact call_hasher site.table site.process call

theorem answerAll_append (table : Table) (process : Process) (left right : List Request) :
    table.answerAll process (left ++ right) =
      let first := table.answerAll process left
      let others := first.table.answerAll first.process right
      ⟨first.responses ++ others.responses, others.table, others.process⟩ := by
  induction left generalizing table process with
  | nil => rfl
  | cons request rest ih =>
    rw [List.cons_append, answerAll, ih]
    rfl

theorem answerAll_replayed {ended : List (Ended Request (Response Handle))} {site : Site}
    (replayed : Replayed Site.whole ⟨table, process⟩ ended site) :
    table.answerAll process (ended.reverse.map Ended.call) =
      ⟨ended.reverse.map Ended.answer, site.table, site.process⟩ := by
  induction replayed with
  | nil => rfl
  | cons _ made ih =>
    obtain ⟨rfl, answered⟩ := Prod.mk.inj made
    rw [List.reverse_cons, List.map_append, answerAll_append, ih, List.map_append]
    rw [List.map_singleton, List.map_singleton, ← answered]
    rfl

theorem Valid.same_handle {buffers : Nat} (valid : table.Valid buffers) {one other : Call}
    {left right : Response Handle} (first : (Request.call one).Fits table.entries left)
    (second : (Request.call other).Fits table.entries right) (interns : one.interns = true)
    (too : other.interns = true) (same : one.content = other.content) :
    ∃ handle ∈ table.entries, handle.content = one.content ∧
      left = .handle (some handle) ∧ right = .handle (some handle) := by
  obtain ⟨handle, member, content, rfl⟩ := first.interning interns
  obtain ⟨twin, present, equal, rfl⟩ := second.interning too
  have same : twin = handle := by
    apply valid.same_content present member
    rw [equal, content, same]
  subst same
  exact ⟨twin, member, content, rfl, rfl⟩

theorem missed_ends {hasher : ContentHasher} (site : Site) {request : Request}
    {further : Unfinished} (missed : Missed hasher request further) :
    ∃ answer, (sections.later site further).progress = .ended answer := by
  cases missed with
  | missed _ => exact ⟨_, rfl⟩

theorem threads_linear (table : Table) (process : Process) (calls : List (List Call))
    {state : Threads Site Request Unfinished (Response Handle)}
    (path : Threads.Runs sections
      (table.threads process (calls.map fun todo => todo.map Request.call)) state) :
    state.Linear Site.whole (fun site => site.table.hasher = table.hasher)
      (fun request => ∃ call, request = .call call) (Missed table.hasher) ⟨table, process⟩ := by
  have admitted : ∀ todo ∈ calls.map fun todo => todo.map Request.call, ∀ request ∈ todo,
      ∃ call, request = .call call := by
    intro todo member request present
    obtain ⟨made, _, rfl⟩ := List.mem_map.mp member
    obtain ⟨call, _, rfl⟩ := List.mem_map.mp present
    exact ⟨call, rfl⟩
  have started : (table.threads process (calls.map fun todo => todo.map Request.call)).Linear
      Site.whole (fun site => site.table.hasher = table.hasher)
      (fun request => ∃ call, request = .call call) (Missed table.hasher) ⟨table, process⟩ :=
    Threads.start_linear rfl admitted
  exact started.runs (sections_atomic table.hasher) path

theorem calls_linearize {options : Options} (built : withOptions options = .ok table)
    (process : Process) (calls : List (List Call))
    {state : Threads Site Request Unfinished (Response Handle)}
    (path : Threads.Runs sections
      (table.threads process (calls.map fun todo => todo.map Request.call)) state) :
    (∃ order : List (Ended Request (Response Handle)), order.Perm state.ended ∧
      order.Pairwise (fun earlier later => ¬later.ended < earlier.began) ∧
      (∀ number, (order.filter (·.thread == number)).map Ended.call ++ state.left number =
        (calls.getD number []).map Request.call) ∧
      table.answerAll process (order.map Ended.call) =
        ⟨order.map Ended.answer, state.shared.table, state.shared.process⟩ ∧
      List.Forall₂ Response.Agrees (order.map Ended.answer)
        (Catalog.answerAll { next := process.buffers } (order.map Ended.call)).1 ∧
      (state.shared.table.entries.map Handle.content).Perm
        (interned (order.map Ended.call)).eraseDups) ∧
    (state.shared.table.entries.map Handle.content).Nodup ∧
    (state.shared.table.entries.map (·.buffer.number)).Perm
      (List.range' process.buffers (state.shared.process.buffers - process.buffers)) ∧
    (∀ left ∈ state.ended, ∀ right ∈ state.ended, ∀ one other : Call,
      left.call = .call one → right.call = .call other → one.interns = true →
      other.interns = true → one.content = other.content →
      ∃ handle ∈ state.shared.table.entries, handle.content = one.content ∧
        left.answer = .handle (some handle) ∧ right.answer = .handle (some handle)) ∧
    ∀ number request rest, state.left number = request :: rest →
      ∃ next, Threads.Step sections state number next ∧ (next.left number = rest ∨
        ∃ last, Threads.Step sections next number last ∧ last.left number = rest) := by
  have linear := table.threads_linear process calls path
  have answered := answerAll_replayed linear.replayed
  have timed := (Threads.start_timed (Site.mk table process) _).runs path
  have accounts := (Threads.start_accounts (Site.mk table process) _).runs path
  obtain ⟨agrees, matched⟩ := (built_matches built process).answerAll
    (state.ended.reverse.map Ended.call)
  have fits := (built_valid built process.buffers).answerAll_fits
    (state.ended.reverse.map Ended.call)
  have arrivals := (Catalog.starts process.buffers).answerAll (state.ended.reverse.map Ended.call)
  rw [answered] at agrees matched fits
  rw [List.forall₂_map_left_iff, List.forall₂_map_right_iff, List.forall₂_same] at fits
  -- The order is that of the last sections.
  refine ⟨⟨state.ended.reverse, List.reverse_perm _, timed.respects, ?_, answered, agrees,
    matched.contents arrivals⟩, matched.valid.contents, matched.buffers arrivals, ?_, ?_⟩
  · intro number
    exact (accounts number).trans (List.getD_map calls [] _)
  · intro left first right second one other asked begged interns too same
    have left := fits left (List.mem_reverse.mpr first)
    have right := fits right (List.mem_reverse.mpr second)
    rw [asked] at left
    rw [begged] at right
    exact matched.valid.same_handle left right interns too same
  · intro number request rest first
    exact linear.soon (sections_atomic table.hasher) missed_ends first

end

-- Two spellings of one repaired content, both looked for before either is entered.
theorem calls_linearize_racing :
    withOptions {} = .ok (build {}) ∧
      ∃ (state : Threads Site Request Unfinished (Response Handle))
        (order : List (Ended Request (Response Handle))),
        state = ((build {}).threads {}
          [[.call (.intern [0xFF])], [.call (.intern [0xC3])]]).run sections [0, 1, 0, 1] ∧
        Threads.Runs sections
          ((build {}).threads {} [[.call (.intern [0xFF])], [.call (.intern [0xC3])]]) state ∧
        order.Perm state.ended ∧
        (build {}).answerAll {} (order.map Ended.call) =
          ⟨order.map Ended.answer, state.shared.table, state.shared.process⟩ ∧
        (state.shared.table.entries.map Handle.content).Nodup ∧
        ∀ left ∈ state.ended, ∀ right ∈ state.ended, left.call = .call (.intern [0xFF]) →
          right.call = .call (.intern [0xC3]) → left.answer = right.answer := by
  have built : withOptions {} = .ok (build {}) := rfl
  have path : Threads.Runs sections
      ((build {}).threads {} [[.call (.intern [0xFF])], [.call (.intern [0xC3])]]) _ :=
    Threads.run_runs _ [0, 1, 0, 1]
  obtain ⟨⟨order, all, _, _, answered, _⟩, distinct, _, once, _⟩ :=
    calls_linearize built {} [[.intern [0xFF]], [.intern [0xC3]]] path
  refine ⟨built, _, order, rfl, path, all, answered, distinct, ?_⟩
  intro left first right second one other
  have same : (Call.intern [0xFF]).content = (Call.intern [0xC3]).content := by
    change (Utf8.repair [0xFF]).value = (Utf8.repair [0xC3]).value
    rw [Utf8.repair_mended, Utf8.repair_mended, Utf8.mend_decoding, Utf8.mend_decoding]
    decide
  obtain ⟨handle, _, _, begun, joined⟩ := once left first right second _ _ one other rfl rfl same
  rw [begun, joined]

end Table

end InternPool
