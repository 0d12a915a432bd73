import InternPool.Concurrent.Interleaving

namespace InternPool

variable {σ κ π α : Type}

def Section.Left.Leaves (left : Section.Left σ π α) (holds : σ → Prop) (waits : π → Prop) : Prop :=
  holds left.shared ∧ ∀ further, left.progress = .pending further → waits further

structure Sections.Keeps (sections : Sections σ κ π α) (holds : σ → Prop) (waits : π → Prop) :
    Prop where
  first : ∀ {shared}, holds shared → ∀ call, (sections.first shared call).Leaves holds waits
  later : ∀ {shared further}, holds shared → waits further →
    (sections.later shared further).Leaves holds waits

namespace Threads

variable {sections : Sections σ κ π α} {before next state : Threads σ κ π α} {number : Nat}
  {holds : σ → Prop} {waits : π → Prop}

theorem forall_set {threads : List (Thread κ π)} {fits : Thread κ π → Prop} {thread : Thread κ π}
    (known : ∀ other ∈ threads, fits other) (fresh : fits thread) :
    ∀ other ∈ threads.set number thread, fits other := by
  intro other member
  rcases List.mem_or_eq_of_mem_set member with old | rfl
  · exact known other old
  · exact fresh

structure Sound (state : Threads σ κ π α) (holds : σ → Prop) (waits : π → Prop) : Prop where
  shared : holds state.shared
  waiting : ∀ thread ∈ state.threads, ∀ pending ∈ thread.pending, waits pending.left

theorem start_sound {shared : σ} (sound : holds shared) (calls : List (List κ)) :
    (start shared calls : Threads σ κ π α).Sound holds waits := by
  refine ⟨sound, ?_⟩
  intro thread member pending waiting
  obtain ⟨todo, _, rfl⟩ := List.mem_map.mp member
  cases waiting

theorem Sound.after (sound : before.Sound holds waits) {left : Section.Left σ π α}
    (leaves : left.Leaves holds waits) (rest : List κ) (call : κ) (began : Nat) :
    (before.after number rest call began left).Sound holds waits := by
  rw [Threads.after]
  split
  · rename_i further progress
    refine ⟨leaves.1, forall_set sound.waiting ?_⟩
    intro pending waiting
    cases waiting
    exact leaves.2 further progress
  · refine ⟨leaves.1, forall_set sound.waiting ?_⟩
    intro pending waiting
    cases waiting

theorem Sound.step (keeps : sections.Keeps holds waits) (sound : before.Sound holds waits)
    (step : Step sections before number next) : next.Sound holds waits := by
  cases step with
  | first ready => exact sound.after (keeps.first sound.shared _) _ _ _
  | later waiting =>
    have waits := sound.waiting _ (List.mem_of_getElem? waiting) _ rfl
    exact sound.after (keeps.later sound.shared waits) _ _ _

theorem Sound.runs (keeps : sections.Keeps holds waits) (sound : before.Sound holds waits)
    (path : Runs sections before next) : next.Sound holds waits := by
  induction path with
  | nil => exact sound
  | step _ moved ih => exact ih.step keeps moved

end Threads

end InternPool
