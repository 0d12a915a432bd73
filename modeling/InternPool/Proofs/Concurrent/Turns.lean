import InternPool.Proofs.Concurrent.Moments

namespace InternPool

variable {σ κ π α : Type}

-- Bounds on the turns that a call takes, whatever becomes of the shared state in between: its height
-- from the first section on, and one more than its rank while it waits.
structure Sections.Bounded (sections : Sections σ κ π α) (holds : σ → Prop)
    (waits : σ → Pending κ π → Prop) (rank : π → Nat) (height : κ → Nat) : Prop where
  positive : ∀ call, 0 < height call
  first : ∀ {shared call further}, holds shared →
    (sections.first shared call).progress = .pending further → rank further + 1 < height call
  later : ∀ {shared pending further}, holds shared → waits shared pending →
    (sections.later shared pending.left).progress = .pending further →
      rank further < rank pending.left
  waiting : ∀ {shared pending}, holds shared → waits shared pending →
    rank pending.left < height pending.call

def Thread.turns (rank : π → Nat) (height : κ → Nat) (thread : Thread κ π) : Nat :=
  match thread.pending, thread.todo with
  | some pending, _ => rank pending.left + 1
  | none, call :: _ => height call
  | none, [] => 0

namespace Threads

variable {sections : Sections σ κ π α} {before next state : Threads σ κ π α} {thread : Thread κ π}
  {number other since : Nat} {call : κ} {rest : List κ} {schedule : List Nat}

structure Over (state : Threads σ κ π α) (since number : Nat) (call : κ) (rest : List κ) : Prop where
  left : state.left number = rest
  ended : ∃ last ∈ state.ended, last.thread = number ∧ last.call = call ∧ since ≤ last.ended

theorem Over.earlier (ending : state.Over since number call rest) {time : Nat} (early : time ≤ since) :
    state.Over time number call rest := by
  obtain ⟨left, last, member, own, same, late⟩ := ending
  exact ⟨left, last, member, own, same, Nat.le_trans early late⟩

theorem over_ended {began : Nat} {left : Section.Left σ π α} {answer : α}
    (inside : number < state.threads.length) (ended : left.progress = .ended answer) :
    (state.after number rest call began left).Over state.clock number call rest :=
  ⟨left_ended inside ended, _, state.mem_ended_after rest call began ended, rfl, rfl, Nat.le_refl _⟩

theorem run_step (step : Step sections before number next) (schedule : List Nat) :
    before.run sections (number :: schedule) = next.run sections schedule := by
  rw [run, List.foldl_cons, advance_exact.mpr step]
  rfl

theorem turn_other (sections : Sections σ κ π α) (state : Threads σ κ π α)
    (differs : other ≠ number) :
    ∃ next, Runs sections state next ∧ next.threads[number]? = state.threads[number]? ∧
      ∀ schedule, state.run sections (other :: schedule) = next.run sections schedule := by
  cases ran : state.advance sections other with
  | none =>
    refine ⟨state, .nil, rfl, ?_⟩
    intro schedule
    rw [run, List.foldl_cons, ran]
    rfl
  | some next =>
    have step := advance_exact.mp ran
    refine ⟨next, .step .nil step, ?_, run_step step⟩
    obtain ⟨_, call, rest, began, left, _, _, rfl, _⟩ := step.moves
    rw [after]
    split <;> exact List.getElem?_set_ne differs

section
variable {holds : σ → Prop} {waits : σ → Pending κ π → Prop} {answers : σ → Ended κ α → Prop}
  {rank : π → Nat} {height : κ → Nat} (bounded : sections.Bounded holds waits rank height)
include bounded

theorem turns_positive (first : thread.left = call :: rest) : 0 < thread.turns rank height := by
  obtain ⟨todo, pending⟩ := thread
  cases pending with
  | some pending => exact Nat.succ_pos _
  | none =>
    cases first
    exact bounded.positive call

theorem Tracked.turns_le (tracked : state.Tracked holds waits answers)
    (found : state.threads[number]? = some thread) (first : thread.left = call :: rest) :
    thread.turns rank height ≤ height call := by
  obtain ⟨todo, pending⟩ := thread
  cases pending with
  | some pending =>
    cases first
    exact bounded.waiting tracked.shared
      (tracked.waiting _ (List.mem_of_getElem? found) pending rfl)
  | none =>
    cases first
    exact Nat.le_refl _

theorem Tracked.turn_own (tracked : state.Tracked holds waits answers)
    (found : state.threads[number]? = some thread) (first : thread.left = call :: rest) :
    ∃ next, Step sections state number next ∧ (next.Over state.clock number call rest ∨
      ∃ later, next.threads[number]? = some later ∧ later.left = call :: rest ∧
        later.turns rank height < thread.turns rank height) := by
  have inside := (List.getElem?_eq_some_iff.mp found).1
  obtain ⟨todo, pending⟩ := thread
  cases pending with
  | some pending =>
    cases first
    have waits := tracked.waiting _ (List.mem_of_getElem? found) pending rfl
    refine ⟨_, .later found, ?_⟩
    cases progress : (sections.later state.shared pending.left).progress with
    | ended answer => exact .inl (over_ended inside progress)
    | pending further =>
      have lower := bounded.later tracked.shared waits progress
      exact .inr ⟨_, found_pending inside progress, rfl, Nat.succ_lt_succ lower⟩
  | none =>
    cases first
    refine ⟨_, .first found, ?_⟩
    cases progress : (sections.first state.shared call).progress with
    | ended answer => exact .inl (over_ended inside progress)
    | pending further =>
      have lower := bounded.first tracked.shared progress
      exact .inr ⟨_, found_pending inside progress, rfl, lower⟩

variable (tracks : sections.Tracks holds waits answers)
include tracks

-- By the schedule: a turn of another thread leaves the call where it is.
theorem Tracked.thread_ends (tracked : state.Tracked holds waits answers)
    (found : state.threads[number]? = some thread) (first : thread.left = call :: rest)
    (enough : thread.turns rank height ≤ schedule.count number) :
    ∃ front, front <+: schedule ∧ front.count number ≤ thread.turns rank height ∧
      (state.run sections front).Over state.clock number call rest := by
  induction schedule generalizing state thread with
  | nil => exact absurd (turns_positive bounded first) (Nat.not_lt.mpr enough)
  | cons turn schedule ih =>
    by_cases own : turn = number
    · subst own
      rw [List.count_cons_self] at enough
      obtain ⟨next, step, ending | ⟨later, found, first, fewer⟩⟩ :=
        tracked.turn_own bounded found first
      · refine ⟨[turn], List.cons_prefix_cons.mpr ⟨rfl, List.nil_prefix⟩, ?_, ?_⟩
        · rw [List.count_singleton_self]
          exact turns_positive bounded first
        · rwa [run_step step]
      · obtain ⟨front, begins, few, ending⟩ :=
          ih (tracked.step tracks step) found first (by omega)
        refine ⟨turn :: front, List.cons_prefix_cons.mpr ⟨rfl, begins⟩, ?_, ?_⟩
        · rw [List.count_cons_self]
          omega
        · rw [run_step step]
          exact ending.earlier (Runs.step .nil step).clock
    · obtain ⟨next, path, same, runs⟩ := state.turn_other sections own
      rw [List.count_cons_of_ne own] at enough
      obtain ⟨front, begins, few, ending⟩ :=
        ih (tracked.runs tracks path) (same.trans found) first enough
      refine ⟨turn :: front, List.cons_prefix_cons.mpr ⟨rfl, begins⟩, ?_, ?_⟩
      · rwa [List.count_cons_of_ne own]
      · rw [runs]
        exact ending.earlier path.clock

theorem Tracked.call_ends (tracked : state.Tracked holds waits answers)
    (first : state.left number = call :: rest) (enough : height call ≤ schedule.count number) :
    ∃ front, front <+: schedule ∧ front.count number ≤ height call ∧
      (state.run sections front).Over state.clock number call rest := by
  cases found : state.threads[number]? with
  | none =>
    rw [left, found] at first
    cases first
  | some thread =>
    rw [left_found found] at first
    have most := tracked.turns_le bounded found first
    obtain ⟨front, begins, few, ending⟩ :=
      tracked.thread_ends bounded tracks found first (Nat.le_trans most enough)
    exact ⟨front, begins, Nat.le_trans few most, ending⟩

end

end Threads

end InternPool
