import InternPool.Proofs.Concurrent.Waiting

namespace InternPool

variable {σ κ π α : Type}

-- A section takes its own call on, and what held of other calls still holds with the shared state
-- that it leaves.
structure Section.Left.Tracks (left : Section.Left σ π α) (holds : σ → Prop)
    (waits : σ → Pending κ π → Prop) (answers : σ → Ended κ α → Prop) (shared : σ) (call : κ)
    (began : Nat) : Prop where
  held : holds left.shared
  waiting : ∀ pending, waits shared pending → waits left.shared pending
  ended : ∀ last, answers shared last → answers left.shared last
  further : ∀ further, left.progress = .pending further → waits left.shared ⟨call, began, further⟩
  answer : ∀ answer, left.progress = .ended answer →
    ∀ number time, answers left.shared ⟨number, call, answer, began, time⟩

structure Sections.Tracks (sections : Sections σ κ π α) (holds : σ → Prop)
    (waits : σ → Pending κ π → Prop) (answers : σ → Ended κ α → Prop) : Prop where
  first : ∀ {shared}, holds shared → ∀ call began,
    (sections.first shared call).Tracks holds waits answers shared call began
  later : ∀ {shared pending}, holds shared → waits shared pending →
    (sections.later shared pending.left).Tracks holds waits answers shared pending.call pending.began

namespace Threads

variable {sections : Sections σ κ π α} {start before next state : Threads σ κ π α} {number time : Nat}
  {holds : σ → Prop} {waits : σ → Pending κ π → Prop} {answers : σ → Ended κ α → Prop}
  {last : Ended κ α}

structure Tracked (state : Threads σ κ π α) (holds : σ → Prop) (waits : σ → Pending κ π → Prop)
    (answers : σ → Ended κ α → Prop) : Prop where
  shared : holds state.shared
  waiting : ∀ thread ∈ state.threads, ∀ pending ∈ thread.pending, waits state.shared pending
  ended : ∀ last ∈ state.ended, answers state.shared last

theorem Tracked.after (tracked : before.Tracked holds waits answers) {left : Section.Left σ π α}
    {call : κ} {began : Nat} (tracks : left.Tracks holds waits answers before.shared call began)
    (rest : List κ) : (before.after number rest call began left).Tracked holds waits answers := by
  have others : ∀ thread ∈ before.threads, ∀ pending ∈ thread.pending,
      waits left.shared pending := by
    intro thread member pending present
    exact tracks.waiting pending (tracked.waiting thread member pending present)
  have known : ∀ last ∈ before.ended, answers left.shared last := by
    intro last member
    exact tracks.ended last (tracked.ended last member)
  rw [Threads.after]
  split
  · rename_i further progress
    refine ⟨tracks.held, forall_set others ?_, known⟩
    intro pending present
    cases present
    exact tracks.further further progress
  · rename_i answer progress
    refine ⟨tracks.held, forall_set others ?_, ?_⟩
    · intro pending present
      cases present
    · intro last member
      rcases List.mem_cons.mp member with rfl | old
      · exact tracks.answer answer progress _ _
      · exact known last old

theorem Tracked.step (tracks : sections.Tracks holds waits answers)
    (tracked : before.Tracked holds waits answers) (step : Step sections before number next) :
    next.Tracked holds waits answers := by
  cases step with
  | first ready => exact tracked.after (tracks.first tracked.shared _ _) _
  | later waiting =>
    have waits := tracked.waiting _ (List.mem_of_getElem? waiting) _ rfl
    exact tracked.after (tracks.later tracked.shared waits) _

theorem Tracked.runs (tracks : sections.Tracks holds waits answers)
    (tracked : before.Tracked holds waits answers) (path : Runs sections before next) :
    next.Tracked holds waits answers := by
  induction path with
  | nil => exact tracked
  | step _ moved ih => exact ih.step tracks moved

theorem Step.clock (step : Step sections before number next) : next.clock = before.clock + 1 := by
  obtain ⟨_, call, rest, began, left, _, _, rfl, _⟩ := step.moves
  exact after_clock before number rest call began left

theorem Runs.clock (path : Runs sections before next) : before.clock ≤ next.clock := by
  induction path with
  | nil => exact Nat.le_refl _
  | step _ moved ih =>
    rw [moved.clock]
    exact Nat.le_succ_of_le ih

theorem Runs.moment (path : Runs sections before next) (since : before.clock ≤ time)
    (upto : time ≤ next.clock) :
    ∃ middle, Runs sections before middle ∧ middle.clock = time ∧ Runs sections middle next := by
  induction path with
  | nil => exact ⟨_, .nil, Nat.le_antisymm since upto, .nil⟩
  | step path moved ih =>
    rw [moved.clock] at upto
    rcases Nat.lt_or_eq_of_le upto with past | now
    · obtain ⟨middle, first, here, second⟩ := ih (Nat.le_of_lt_succ past)
      exact ⟨middle, first, here, .step second moved⟩
    · exact ⟨_, .step path moved, moved.clock.trans now.symm, .nil⟩

theorem Step.ended (step : Step sections before number next) (member : last ∈ next.ended) :
    last ∈ before.ended ∨ last.ended = before.clock := by
  obtain ⟨_, call, rest, began, left, _, _, rfl, _⟩ := step.moves
  rw [after] at member
  split at member
  · exact .inl member
  · rcases List.mem_cons.mp member with rfl | old
    · exact .inr rfl
    · exact .inl old

theorem Step.keeps_ended (step : Step sections before number next) :
    before.ended ⊆ next.ended := by
  obtain ⟨_, call, rest, began, left, _, _, rfl, _⟩ := step.moves
  exact ended_after before number rest call began left

theorem Timed.mem_ended_iff (timed : before.Timed) (path : Runs sections before next) :
    last ∈ before.ended ↔ last ∈ next.ended ∧ last.ended < before.clock := by
  constructor
  · intro member
    refine ⟨?_, timed.past last member⟩
    induction path with
    | nil => exact member
    | step _ moved ih => exact moved.keeps_ended ih
  · rintro ⟨member, past⟩
    induction path with
    | nil => exact member
    | step path moved ih =>
      rcases moved.ended member with old | now
      · exact ih old
      · exact absurd path.clock (by omega)

structure Spans (sections : Sections σ κ π α) (start state : Threads σ κ π α) (last : Ended κ α)
    (before after : Threads σ κ π α) : Prop where
  reached : Runs sections start before
  began : before.clock = last.began
  during : Runs sections before after
  ended : after.clock = last.ended + 1
  onward : Runs sections after state

theorem Timed.spans_exist (timed : state.Timed) (path : Runs sections start state)
    (fresh : start.clock = 0) (member : last ∈ state.ended) :
    ∃ before after, Spans sections start state last before after := by
  have length := timed.spans last member
  have past := timed.past last member
  have late : start.clock ≤ last.began := by omega
  obtain ⟨before, reached, began, rest⟩ := path.moment late (by omega)
  have later : before.clock ≤ last.ended + 1 := by omega
  obtain ⟨after, during, ended, onward⟩ := rest.moment later past
  exact ⟨before, after, reached, began, during, ended, onward⟩

end Threads

end InternPool
