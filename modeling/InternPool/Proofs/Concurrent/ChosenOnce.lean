import InternPool.Proofs.Concurrent.FilledOnce
import InternPool.Proofs.Concurrent.Turns
import InternPool.Proofs.Table.Sharding

namespace InternPool

namespace SharedCell

variable {state next : Threads SharedCell CellCall Configuring Answer} {filling : Option Filling}
  {last : Ended CellCall Answer}

def takes (last : Ended CellCall Answer) : Bool :=
  last.call == .use || wins last.call last.answer

structure ChosenOnce (state : Threads SharedCell CellCall Configuring Answer) : Prop where
  kept : ∀ {later built}, Threads.Runs sections state later →
    state.shared.content = some built → later.shared.content = some built
  yields : ∀ last ∈ state.ended, ∀ built, last.answer = .ok built →
    state.shared.content = some built
  uses : ∀ last ∈ state.ended, last.call = .use → ∃ built, last.answer = .ok built
  once : (state.ended.countP fun last => wins last.call last.answer) ≤ 1
  chosen : ∀ last ∈ state.ended, ∀ options built, last.call = .configure options →
    last.answer = .ok built → built.options = options ∧ built.table.Shaped options
  default : state.isOver = true → (∀ last ∈ state.ended, wins last.call last.answer = false) →
    ∀ built, state.shared.content = some built → built.options = {}
  refused : ∀ {number options refusal rest next}, options.validate = .error refusal →
    state.threads[number]? = some ⟨.configure options :: rest, none⟩ →
    Threads.Step sections state number next → next.shared = state.shared ∧
      next.ended = ⟨number, .configure options, .error refusal, state.clock, state.clock⟩ ::
        state.ended
  alone : ∀ last ∈ state.ended, ∀ options, last.call = .configure options →
    options.validate = .ok () → state.Alone last →
    ((∃ built, last.answer = .ok built) ↔
      ∀ earlier ∈ state.ended, earlier.ended < last.began → takes earlier = false) ∧
    (last.answer = .error .alreadyInitialized ↔
      ∃ earlier ∈ state.ended, earlier.ended < last.began ∧ takes earlier = true)
  soon : ∀ {number call rest}, state.left number = call :: rest → ∃ turns, turns ≤ 5 ∧
    (state.run sections (List.replicate turns number)).left number = rest

theorem FilledAs.answered (filledAs : FilledAs state filling) (member : last ∈ state.ended)
    {built : Built} (ok : last.answer = .ok built) :
    ∃ time, filling = some ⟨built, time⟩ ∧ time ≤ last.ended := by
  have ends := filledAs.ends last member
  obtain ⟨number, call, answer, began, gone⟩ := last
  cases ok
  cases ends with
  | used full after => exact ⟨_, full, after⟩
  | configured _ full _ after => exact ⟨_, full, after⟩

theorem FilledAs.taken (filledAs : FilledAs state filling) (member : last ∈ state.ended)
    (takes : takes last = true) : ∃ built, last.answer = .ok built := by
  have ends := filledAs.ends last member
  obtain ⟨number, call, answer, began, gone⟩ := last
  cases ends with
  | used full after => exact ⟨_, rfl⟩
  | configured accepted full since after => exact ⟨_, rfl⟩
  | late | refused => cases takes

theorem FilledAs.winners_le (filledAs : FilledAs state filling) : winners state ≤ 1 := by
  cases filling with
  | none =>
    rw [filledAs.winners_empty]
    exact Nat.zero_le 1
  | some filled =>
    rcases filledAs.filler filled rfl with one | ⟨none, _⟩
    · exact Nat.le_of_eq one
    · rw [none]
      exact Nat.zero_le 1

theorem FilledAs.begun {filled : Filling} (filledAs : FilledAs state (some filled)) :
    (∃ pending ∈ state.waiting, pending.began ≤ filled.time) ∨
      ∃ last ∈ state.ended, takes last = true ∧ last.began ≤ filled.time := by
  rcases filledAs.filler filled rfl with one | ⟨_, _, last, member, use, early⟩
  · rw [winners] at one
    rcases Nat.eq_zero_or_pos (state.waiting.countP fun pending => fills pending.left) with
      none | some
    · have positive : 0 < state.ended.countP fun last => wins last.call last.answer := by omega
      obtain ⟨last, member, won⟩ := List.countP_pos_iff.mp positive
      refine .inr ⟨last, member, ?_, ?_⟩
      · rw [takes, won, Bool.or_true]
      · have ends := filledAs.ends last member
        obtain ⟨number, call, answer, began, gone⟩ := last
        cases ends with
        | used | late | refused => cases won
        | configured accepted full since after =>
          cases full
          exact since
    · obtain ⟨pending, member, leads⟩ := List.countP_pos_iff.mp some
      refine .inl ⟨pending, member, ?_⟩
      have waits := filledAs.waits pending member
      obtain ⟨call, began, left⟩ := pending
      cases waits with
      | valid | vacant | built => cases leads
      | filled accepted full since =>
        cases full
        exact since
  · exact .inr ⟨last, member, by rw [takes, use]; rfl, early⟩

theorem FilledAs.alone (filledAs : FilledAs state filling) (member : last ∈ state.ended)
    {options : Options} (configures : last.call = .configure options)
    (accepted : options.validate = .ok ()) (alone : state.Alone last) :
    (∃ built, last.answer = .ok built) ∧
        (∀ earlier ∈ state.ended, earlier.ended < last.began → takes earlier = false) ∨
      last.answer = .error .alreadyInitialized ∧
        ∃ earlier ∈ state.ended, earlier.ended < last.began ∧ takes earlier = true := by
  have ends := filledAs.ends last member
  generalize call : last.call = called at ends
  generalize result : last.answer = answer at ends
  cases ends with
  | used => rw [configures] at call; cases call
  | refused refused =>
    rw [configures] at call
    cases call
    rw [accepted] at refused
    cases refused
  -- It filled the cell, so nothing had taken from it when it began.
  | configured _ full since _ =>
    subst full
    refine .inl ⟨⟨_, rfl⟩, ?_⟩
    intro earlier present before
    rw [Bool.eq_false_iff]
    intro taken
    obtain ⟨built, ok⟩ := filledAs.taken present taken
    obtain ⟨time, same, after⟩ := filledAs.answered present ok
    cases same
    omega
  -- Whoever filled the cell had begun before this one ended, so it had ended before this one began.
  | late _ full later =>
    subst full
    refine .inr ⟨rfl, ?_⟩
    rcases filledAs.begun with ⟨pending, present, early⟩ | ⟨earlier, present, taken, early⟩
    · have apart := alone.waiting pending present
      dsimp only at early
      omega
    · have differs : earlier ≠ last := by
        rintro rfl
        obtain ⟨built, ok⟩ := filledAs.taken present taken
        rw [ok] at result
        cases result
      refine ⟨earlier, present, ?_, taken⟩
      have apart := alone.ended earlier present differs
      dsimp only at early
      omega

def rank : Configuring → Nat
  | .valid _ => 3
  | .vacant _ => 2
  | .built _ => 1
  | .filled => 0

theorem rank_le (further : Configuring) : rank further ≤ 3 := by
  cases further <;> simp [rank]

theorem rank_falls (cell : SharedCell) {further next : Configuring}
    (waits : (sections.later cell further).progress = .pending next) :
    rank next < rank further := by
  cases further with
  | valid options =>
    change (cell.check options).progress = _ at waits
    rw [check] at waits
    split at waits <;> cases waits
    exact Nat.lt_succ_self 2
  | vacant options =>
    cases waits
    exact Nat.lt_succ_self 1
  | built built =>
    change (cell.fill built).progress = _ at waits
    rw [fill] at waits
    split at waits <;> cases waits
    exact Nat.lt_succ_self 0
  | filled =>
    change cell.useOrFill.progress = _ at waits
    rw [useOrFill] at waits
    split at waits <;> cases waits

theorem sections_bounded :
    sections.Bounded (fun _ => True) (fun _ _ => True) rank fun _ => 5 where
  positive _ := Nat.succ_pos 4
  first _ _ := Nat.succ_lt_succ (Nat.lt_succ_of_le (rank_le _))
  later {cell _ _} _ _ waits := rank_falls cell waits
  waiting _ _ := Nat.lt_succ_of_le (Nat.le_succ_of_le (rank_le _))

theorem call_soon {number : Nat} {call : CellCall} {rest : List CellCall}
    (first : state.left number = call :: rest) :
    ∃ turns, turns ≤ 5 ∧ (state.run sections (List.replicate turns number)).left number = rest := by
  -- Of a cell nothing has to be known for its calls to end.
  have tracks : sections.Tracks (fun _ => True) (fun _ _ => True) (fun _ _ => True) := by
    constructor <;> intros <;> constructor <;> simp
  have tracked : state.Tracked (fun _ => True) (fun _ _ => True) (fun _ _ => True) :=
    ⟨trivial, fun _ _ _ _ => trivial, fun _ _ => trivial⟩
  have enough : 5 ≤ (List.replicate 5 number).count number :=
    Nat.le_of_eq List.count_replicate_self.symm
  obtain ⟨front, begins, few, ending⟩ := tracked.call_ends sections_bounded tracks first enough
  obtain ⟨most, same⟩ := List.prefix_replicate_iff.mp begins
  rw [same] at ending
  exact ⟨front.length, most, ending.left⟩

theorem FilledAs.chosenOnce (filledAs : FilledAs state filling) (timed : state.Timed) :
    ChosenOnce state where
  kept := by
    intro later built path full
    obtain ⟨filling, grown, reached⟩ := filledAs.runs timed path
    rw [filledAs.content, Option.map_eq_some_iff] at full
    obtain ⟨filled, full, rfl⟩ := full
    rw [reached.content, grown full, Option.map_some]
  yields := by
    intro last member built ok
    obtain ⟨time, full, _⟩ := filledAs.answered member ok
    rw [filledAs.content, full, Option.map_some]
  uses := by
    intro last member use
    apply filledAs.taken member
    rw [takes, use]
    rfl
  once := Nat.le_trans (Nat.le_add_left _ _) filledAs.winners_le
  chosen := by
    intro last member options built configures ok
    have ends := filledAs.ends last member
    rw [configures, ok] at ends
    cases ends with
    | configured accepted full since after => exact ⟨rfl, Table.build_shaped _⟩
  default := by
    intro finished none built full
    have zero : winners state = 0 := by
      rw [winners, Threads.isOver_waiting finished, List.countP_nil, Nat.zero_add,
        List.countP_eq_zero]
      intro last member
      rw [none last member]
      exact Bool.false_ne_true
    rw [filledAs.content, Option.map_eq_some_iff] at full
    obtain ⟨filled, full, rfl⟩ := full
    rcases filledAs.filler filled full with one | ⟨_, default, _⟩
    · rw [zero] at one
      cases one
    · exact default
  refused := by
    intro number options refusal rest next refused first step
    obtain ⟨thread, call, todo, began, left, found, begins, rfl, moved⟩ := step.moves
    rw [first] at found
    cases found
    cases begins
    rcases moved with ⟨rfl, rfl⟩ | ⟨further, waits, _⟩
    · rw [configure_refused refused]
      exact ⟨rfl, rfl⟩
    · cases waits
  alone := by
    intro last member options configures accepted alone
    rcases filledAs.alone member configures accepted alone with
      ⟨⟨built, ok⟩, none⟩ | ⟨late, earlier, present, before, taken⟩
    · refine ⟨iff_of_true ⟨built, ok⟩ none, iff_of_false ?_ ?_⟩
      · intro late
        rw [ok] at late
        cases late
      · rintro ⟨earlier, present, before, taken⟩
        rw [none earlier present before] at taken
        cases taken
    · refine ⟨iff_of_false ?_ ?_, iff_of_true late ⟨earlier, present, before, taken⟩⟩
      · rintro ⟨built, ok⟩
        rw [late] at ok
        cases ok
      · intro none
        rw [none earlier present before] at taken
        cases taken
  soon := by
    intro number call rest first
    exact call_soon first

theorem runs_chosenOnce {calls : List (List CellCall)}
    (path : Threads.Runs sections (Threads.start {} calls) state) : ChosenOnce state := by
  have timed : (Threads.start ({} : SharedCell) calls :
      Threads SharedCell CellCall Configuring Answer).Timed := Threads.start_timed _ calls
  obtain ⟨filling, _, reached⟩ := (start_filledAs calls).runs timed path
  exact reached.chosenOnce (timed.runs path)

end SharedCell

end InternPool
