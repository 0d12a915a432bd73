import InternPool.Proofs.Concurrent.Invariant

namespace InternPool

variable {σ κ π α : Type}

def Thread.left (thread : Thread κ π) : List κ :=
  thread.pending.toList.map Pending.call ++ thread.todo

-- A section leaves the shared state as it was and its call to wait, or it is the last of its call
-- and does what the whole call does.
def Section.Left.Settles (left : Section.Left σ π α) (whole : σ → κ → σ × α)
    (waits : κ → π → Prop) (shared : σ) (call : κ) : Prop :=
  match left.progress with
  | .pending further => left.shared = shared ∧ waits call further
  | .ended answer => whole shared call = (left.shared, answer)

-- Sections that settle on every shared state that `holds`, for the calls that `admits` allows. What
-- a call waits with does not depend on the shared state, so other threads cannot spoil it.
structure Sections.Atomic (sections : Sections σ κ π α) (whole : σ → κ → σ × α) (holds : σ → Prop)
    (admits : κ → Prop) (waits : κ → π → Prop) : Prop where
  first : ∀ {shared call}, holds shared → admits call →
    (sections.first shared call).Settles whole waits shared call
  later : ∀ {shared call further}, holds shared → admits call → waits call further →
    (sections.later shared further).Settles whole waits shared call
  kept : ∀ {shared call}, holds shared → admits call → holds (whole shared call).1

-- Ended calls, the latest first, made one after the other as a whole.
inductive Replayed (whole : σ → κ → σ × α) (start : σ) : List (Ended κ α) → σ → Prop where
  | nil : Replayed whole start [] start
  | cons {past : List (Ended κ α)} {shared later : σ} {last : Ended κ α}
      (before : Replayed whole start past shared)
      (made : whole shared last.call = (later, last.answer)) :
      Replayed whole start (last :: past) later

namespace Threads

variable {sections : Sections σ κ π α} {before next state : Threads σ κ π α} {number : Nat}

def left (state : Threads σ κ π α) (number : Nat) : List κ :=
  (state.threads[number]?.map Thread.left).getD []

def done (state : Threads σ κ π α) (number : Nat) : List κ :=
  (state.ended.reverse.filter (·.thread == number)).map Ended.call

theorem Step.moves (step : Step sections before number next) :
    ∃ thread call rest began left, before.threads[number]? = some thread ∧
      thread.left = call :: rest ∧ next = before.after number rest call began left ∧
      ((began = before.clock ∧ left = sections.first before.shared call) ∨
        ∃ further, some ⟨call, began, further⟩ = thread.pending ∧
          left = sections.later before.shared further) := by
  cases step with
  | first ready => exact ⟨_, _, _, _, _, ready, rfl, rfl, .inl ⟨rfl, rfl⟩⟩
  | later waiting => exact ⟨_, _, _, _, _, waiting, rfl, rfl, .inr ⟨_, rfl, rfl⟩⟩

-- No call ends before it begins, and the ends of calls are ordered as the calls are listed.
structure Timed (state : Threads σ κ π α) : Prop where
  begun : ∀ thread ∈ state.threads, ∀ pending ∈ thread.pending, pending.began < state.clock
  spans : ∀ last ∈ state.ended, last.began ≤ last.ended
  past : ∀ last ∈ state.ended, last.ended < state.clock
  ordered : state.ended.Pairwise fun later earlier => earlier.ended < later.ended

theorem start_timed (shared : σ) (calls : List (List κ)) :
    (start shared calls : Threads σ κ π α).Timed := by
  refine ⟨?_, ?_, ?_, ?_⟩
  · intro thread member pending waiting
    obtain ⟨todo, _, rfl⟩ := List.mem_map.mp member
    cases waiting
  · intro last member
    cases member
  · intro last member
    cases member
  · exact .nil

theorem Timed.after (timed : before.Timed) {call : κ} {rest : List κ} {began : Nat}
    (old : began ≤ before.clock) (left : Section.Left σ π α) :
    (before.after number rest call began left).Timed := by
  have waiting : ∀ thread ∈ before.threads, ∀ pending ∈ thread.pending,
      pending.began < before.clock + 1 := by
    intro thread member pending waits
    exact Nat.lt_succ_of_lt (timed.begun thread member pending waits)
  rw [Threads.after]
  split
  · refine ⟨?_, timed.spans, ?_, timed.ordered⟩
    · apply forall_set waiting
      intro pending waits
      cases waits
      exact Nat.lt_succ_of_le old
    · intro last member
      exact Nat.lt_succ_of_lt (timed.past last member)
  · refine ⟨?_, ?_, ?_, ?_⟩
    · apply forall_set waiting
      intro pending waits
      cases waits
    · intro last member
      rcases List.mem_cons.mp member with rfl | known
      · exact old
      · exact timed.spans last known
    · intro last member
      rcases List.mem_cons.mp member with rfl | known
      · exact Nat.lt_succ_self _
      · exact Nat.lt_succ_of_lt (timed.past last known)
    · exact .cons timed.past timed.ordered

theorem Timed.step (timed : before.Timed) (step : Step sections before number next) :
    next.Timed := by
  obtain ⟨thread, call, rest, began, left, found, _, rfl, moved⟩ := step.moves
  apply timed.after
  rcases moved with ⟨now, _⟩ | ⟨further, waits, _⟩
  · exact Nat.le_of_eq now
  · exact Nat.le_of_lt
      (timed.begun thread (List.mem_of_getElem? found) ⟨call, began, further⟩ waits.symm)

theorem Timed.runs (timed : before.Timed) (path : Runs sections before next) : next.Timed := by
  induction path with
  | nil => exact timed
  | step _ moved ih => exact ih.step moved

theorem Timed.respects (timed : state.Timed) :
    state.ended.reverse.Pairwise fun earlier later => ¬later.ended < earlier.began := by
  rw [List.pairwise_reverse]
  apply timed.ordered.imp_of_mem
  intro later earlier _ member follows overtakes
  -- The one that overtakes would end before the other, but ends after it.
  have spans := timed.spans earlier member
  omega

def Accounts (state : Threads σ κ π α) (calls : List (List κ)) : Prop :=
  ∀ number, state.done number ++ state.left number = calls.getD number []

theorem start_accounts (shared : σ) (calls : List (List κ)) :
    (start shared calls : Threads σ κ π α).Accounts calls := by
  intro number
  rw [left, start, List.getElem?_map, List.getD_eq_getElem?_getD]
  cases calls[number]? <;> rfl

theorem left_set {thread : Thread κ π} (inside : number < state.threads.length) (other : Nat)
    (shared : σ) (clock : Nat) (ended : List (Ended κ α)) :
    left ⟨shared, state.threads.set number thread, clock, ended⟩ other =
      if number = other then thread.left else state.left other := by
  by_cases same : number = other
  · subst same
    rw [left, List.getElem?_set_self inside, if_pos rfl]
    rfl
  · rw [left, List.getElem?_set_ne same, if_neg same]
    rfl

theorem Accounts.step {calls : List (List κ)} (accounts : before.Accounts calls)
    (step : Step sections before number next) : next.Accounts calls := by
  obtain ⟨thread, call, rest, began, left, found, first, rfl, _⟩ := step.moves
  have inside := (List.getElem?_eq_some_iff.mp found).1
  intro other
  have account := accounts other
  rw [Threads.after]
  split
  · rw [left_set inside]
    split
    · rename_i same
      subst same
      rw [Threads.left, found, Option.map_some, Option.getD_some, first] at account
      exact account
    · exact account
  · rw [left_set inside, done, List.reverse_cons, List.filter_append, List.map_append]
    split
    · rename_i same
      subst same
      rw [Threads.left, found, Option.map_some, Option.getD_some, first] at account
      rw [List.filter_cons_of_pos (by simp), List.append_assoc]
      exact account
    · rename_i differs
      rw [List.filter_cons_of_neg (by simpa using differs), List.filter_nil, List.map_nil,
        List.append_nil]
      exact account

theorem Accounts.runs {calls : List (List κ)} (accounts : before.Accounts calls)
    (path : Runs sections before next) : next.Accounts calls := by
  induction path with
  | nil => exact accounts
  | step _ moved ih => exact ih.step moved

variable {whole : σ → κ → σ × α} {holds : σ → Prop} {admits : κ → Prop} {waits : κ → π → Prop}

structure Linear (whole : σ → κ → σ × α) (holds : σ → Prop) (admits : κ → Prop)
    (waits : κ → π → Prop) (shared : σ) (state : Threads σ κ π α) : Prop where
  replayed : Replayed whole shared state.ended state.shared
  sound : holds state.shared
  admitted : ∀ thread ∈ state.threads, ∀ call ∈ thread.left, admits call
  waiting : ∀ thread ∈ state.threads, ∀ pending ∈ thread.pending, waits pending.call pending.left

theorem start_linear {shared : σ} {calls : List (List κ)} (sound : holds shared)
    (admitted : ∀ todo ∈ calls, ∀ call ∈ todo, admits call) :
    (start shared calls : Threads σ κ π α).Linear whole holds admits waits shared := by
  refine ⟨.nil, sound, ?_, ?_⟩
  · intro thread member call called
    obtain ⟨todo, known, rfl⟩ := List.mem_map.mp member
    exact admitted todo known call called
  · intro thread member pending waiting
    obtain ⟨todo, _, rfl⟩ := List.mem_map.mp member
    cases waiting

theorem Linear.after {shared : σ} (linear : before.Linear whole holds admits waits shared)
    {call : κ} {rest : List κ} {began : Nat} {left : Section.Left σ π α}
    (admitted : ∀ other ∈ call :: rest, admits other)
    (kept : holds (whole before.shared call).1)
    (settles : left.Settles whole waits before.shared call) :
    (before.after number rest call began left).Linear whole holds admits waits shared := by
  rw [Section.Left.Settles] at settles
  rw [Threads.after]
  cases progress : left.progress with
  | pending further =>
    rw [progress] at settles
    obtain ⟨same, waiting⟩ := settles
    rw [same]
    refine ⟨linear.replayed, linear.sound, ?_, ?_⟩
    · apply forall_set linear.admitted
      exact admitted
    · apply forall_set linear.waiting
      intro other present
      cases present
      exact waiting
  -- The last section is where the call takes effect.
  | ended answer =>
    rw [progress] at settles
    dsimp only at settles
    rw [settles] at kept
    refine ⟨.cons linear.replayed settles, kept, ?_, ?_⟩
    · apply forall_set linear.admitted
      intro other todo
      exact admitted other (List.mem_cons_of_mem call todo)
    · apply forall_set linear.waiting
      intro other present
      cases present

theorem Linear.step (atomic : sections.Atomic whole holds admits waits) {shared : σ}
    (linear : before.Linear whole holds admits waits shared)
    (step : Step sections before number next) : next.Linear whole holds admits waits shared := by
  obtain ⟨thread, call, rest, began, left, found, first, rfl, moved⟩ := step.moves
  have member := List.mem_of_getElem? found
  have admitted := linear.admitted thread member
  rw [first] at admitted
  have allowed := admitted call List.mem_cons_self
  apply linear.after admitted (atomic.kept linear.sound allowed)
  rcases moved with ⟨_, rfl⟩ | ⟨further, pending, rfl⟩
  · exact atomic.first linear.sound allowed
  · exact atomic.later linear.sound allowed
      (linear.waiting thread member ⟨call, began, further⟩ pending.symm)

theorem Linear.runs (atomic : sections.Atomic whole holds admits waits) {shared : σ}
    (linear : before.Linear whole holds admits waits shared) (path : Runs sections before next) :
    next.Linear whole holds admits waits shared := by
  induction path with
  | nil => exact linear
  | step _ moved ih => exact ih.step atomic moved

theorem left_found {thread : Thread κ π} (found : state.threads[number]? = some thread) :
    state.left number = thread.left := by
  rw [left, found, Option.map_some, Option.getD_some]

theorem left_ended {call : κ} {rest : List κ} {began : Nat} {left : Section.Left σ π α} {answer : α}
    (inside : number < state.threads.length) (ended : left.progress = .ended answer) :
    (state.after number rest call began left).left number = rest := by
  rw [after, ended, left_set inside, if_pos rfl]
  rfl

theorem found_pending {call : κ} {rest : List κ} {began : Nat} {left : Section.Left σ π α}
    {further : π} (inside : number < state.threads.length)
    (pending : left.progress = .pending further) :
    (state.after number rest call began left).threads[number]? =
      some ⟨rest, some ⟨call, began, further⟩⟩ := by
  rw [after, pending, List.getElem?_set_self inside]

section
variable (atomic : sections.Atomic whole holds admits waits)
  (ends : ∀ shared {call further}, waits call further →
    ∃ answer, (sections.later shared further).progress = .ended answer)
  {shared : σ} (linear : state.Linear whole holds admits waits shared)
include ends linear

theorem Linear.waited {rest : List κ} {pending : Pending κ π}
    (found : state.threads[number]? = some ⟨rest, some pending⟩) :
    ∃ next, Step sections state number next ∧ next.left number = rest := by
  have inside := (List.getElem?_eq_some_iff.mp found).1
  obtain ⟨answer, ended⟩ := ends state.shared
    (linear.waiting _ (List.mem_of_getElem? found) pending rfl)
  exact ⟨_, .later found, left_ended inside ended⟩

include atomic

-- A call that its second section ends at the latest does not wait for what other threads do.
theorem Linear.soon {call : κ} {rest : List κ} (first : state.left number = call :: rest) :
    ∃ next, Step sections state number next ∧ (next.left number = rest ∨
      ∃ last, Step sections next number last ∧ last.left number = rest) := by
  cases found : state.threads[number]? with
  | none =>
    rw [left, found] at first
    cases first
  | some thread =>
    rw [left_found found] at first
    obtain ⟨todo, pending⟩ := thread
    cases pending with
    | some pending =>
      cases first
      obtain ⟨next, step, done⟩ := linear.waited ends found
      exact ⟨next, step, .inl done⟩
    | none =>
      cases first
      have inside := (List.getElem?_eq_some_iff.mp found).1
      have step : Step sections state number _ := .first found
      refine ⟨_, step, ?_⟩
      cases progress : (sections.first state.shared call).progress with
      | ended answer => exact .inl (left_ended inside progress)
      | pending further =>
        exact .inr ((linear.step atomic step).waited ends (found_pending inside progress))

end

end Threads

end InternPool
