import InternPool.Concurrent.SharedCell
import InternPool.Proofs.Concurrent.Waiting

namespace InternPool

structure Filling where
  built : Built
  time : Nat

namespace SharedCell

inductive Waits (filling : Option Filling) (began : Nat) : CellCall → Configuring → Prop where
  | valid {options : Options} (accepted : options.validate = .ok ()) :
      Waits filling began (.configure options) (.valid options)
  | vacant {options : Options} (accepted : options.validate = .ok ()) :
      Waits filling began (.configure options) (.vacant options)
  | built {options : Options} (accepted : options.validate = .ok ()) (number : Nat) :
      Waits filling began (.configure options) (.built ⟨number, options⟩)
  | filled {built : Built} {time : Nat} (accepted : built.options.validate = .ok ())
      (full : filling = some ⟨built, time⟩) (since : began ≤ time) :
      Waits filling began (.configure built.options) .filled

inductive Ends (filling : Option Filling) (began gone : Nat) : CellCall → Answer → Prop where
  | used {built : Built} {time : Nat} (full : filling = some ⟨built, time⟩) (later : time ≤ gone) :
      Ends filling began gone .use (.ok built)
  | configured {built : Built} {time : Nat} (accepted : built.options.validate = .ok ())
      (full : filling = some ⟨built, time⟩) (since : began ≤ time) (later : time ≤ gone) :
      Ends filling began gone (.configure built.options) (.ok built)
  | late {options : Options} {built : Built} {time : Nat} (accepted : options.validate = .ok ())
      (full : filling = some ⟨built, time⟩) (later : time < gone) :
      Ends filling began gone (.configure options) (.error .alreadyInitialized)
  | refused {options : Options} {refusal : Refusal} (refused : options.validate = .error refusal) :
      Ends filling began gone (.configure options) (.error refusal)

variable {filling later : Option Filling} {began gone clock : Nat} {call : CellCall}
  {further : Configuring} {answer : Answer} {cell : SharedCell}

theorem Waits.mono (waits : Waits filling began call further)
    (grown : ∀ {filled}, filling = some filled → later = some filled) :
    Waits later began call further := by
  cases waits with
  | valid accepted => exact .valid accepted
  | vacant accepted => exact .vacant accepted
  | built accepted number => exact .built accepted number
  | filled accepted full since => exact .filled accepted (grown full) since

theorem Ends.mono (ends : Ends filling began gone call answer)
    (grown : ∀ {filled}, filling = some filled → later = some filled) :
    Ends later began gone call answer := by
  cases ends with
  | used full after => exact .used (grown full) after
  | configured accepted full since after => exact .configured accepted (grown full) since after
  | late accepted full after => exact .late accepted (grown full) after
  | refused refused => exact .refused refused

def fills : Configuring → Bool
  | .filled => true
  | _ => false

def wins (call : CellCall) (answer : Answer) : Bool :=
  match call, answer with
  | .configure _, .ok _ => true
  | _, _ => false

def leads (call : CellCall) : Progress Configuring Answer → Bool
  | .pending further => fills further
  | .ended answer => wins call answer

theorem Waits.fills_empty (waits : Waits none began call further) : fills further = false := by
  cases waits with
  | valid | vacant | built => rfl
  | filled _ full _ => cases full

theorem Ends.wins_empty (ends : Ends none began gone call answer) : wins call answer = false := by
  cases ends with
  | late | refused => rfl
  | used full _ => cases full
  | configured _ full _ _ => cases full

structure Accords (left : Section.Left SharedCell Configuring Answer) (later : Option Filling)
    (began clock : Nat) (call : CellCall) : Prop where
  content : left.shared.content = later.map Filling.built
  waits : ∀ further, left.progress = .pending further → Waits later began call further
  ends : ∀ answer, left.progress = .ended answer → Ends later began clock call answer

-- A section leaves it open who filled the cell, or fills it: with the table of its configuration, or
-- with a table of the default options for a call that needs one and ends with it.
inductive KeepsOrFills (left : Section.Left SharedCell Configuring Answer) (filling : Option Filling)
    (began clock : Nat) (call : CellCall) (led : Bool) : Prop where
  | keeps (accords : Accords left filling began clock call) (same : leads call left.progress = led)
  | configures {built : Built} (empty : filling = none) (fresh : led = false)
      (accords : Accords left (some ⟨built, clock⟩) began clock call)
      (leading : leads call left.progress = true)
  | uses {built : Built} (empty : filling = none) (fresh : led = false)
      (accords : Accords left (some ⟨built, clock⟩) began clock call) (default : built.options = {})
      (use : call = .use) (taken : left.progress = .ended (.ok built))

theorem Accords.pending (content : cell.content = later.map Filling.built)
    (waits : Waits later began call further) :
    Accords ⟨cell, .pending further⟩ later began clock call := by
  refine ⟨content, ?_, ?_⟩
  · intro next progress
    cases progress
    exact waits
  · intro answer progress
    cases progress

theorem Accords.ended (content : cell.content = later.map Filling.built)
    (ends : Ends later began clock call answer) :
    Accords ⟨cell, .ended answer⟩ later began clock call := by
  refine ⟨content, ?_, ?_⟩
  · intro next progress
    cases progress
  · intro result progress
    cases progress
    exact ends

theorem configure_refused {options : Options} {refusal : Refusal}
    (refused : options.validate = .error refusal) (cell : SharedCell) :
    sections.first cell (.configure options) = ⟨cell, .ended (.error refusal)⟩ := by
  simp only [sections, refused]

theorem configure_accepted {options : Options} (accepted : options.validate = .ok ())
    (cell : SharedCell) :
    sections.first cell (.configure options) = ⟨cell, .pending (.valid options)⟩ := by
  simp only [sections, accepted]

section
variable (content : cell.content = filling.map Filling.built)
  (past : ∀ filled, filling = some filled → filled.time < clock)
include content past

theorem first_keepsOrFills (call : CellCall) :
    KeepsOrFills (sections.first cell call) filling clock clock call false := by
  cases call with
  | use =>
    change KeepsOrFills cell.useOrFill filling clock clock .use false
    rw [useOrFill, content]
    cases filling with
    | none => exact .uses rfl rfl (.ended rfl (.used rfl (Nat.le_refl clock))) rfl rfl rfl
    | some filled =>
      have full := Nat.le_of_lt (past filled rfl)
      exact .keeps (.ended content (.used rfl full)) rfl
  | configure options =>
    cases checked : options.validate with
    | error refusal =>
      rw [configure_refused checked]
      exact .keeps (.ended content (.refused checked)) rfl
    | ok _ =>
      rw [configure_accepted checked]
      exact .keeps (.pending content (.valid checked)) rfl

theorem later_keepsOrFills (old : began ≤ clock) (waits : Waits filling began call further) :
    KeepsOrFills (sections.later cell further) filling began clock call (fills further) := by
  cases waits with
  | valid accepted =>
    rename_i options
    change KeepsOrFills (cell.check options) filling began clock _ false
    rw [check, content]
    cases filling with
    | none => exact .keeps (.pending content (.vacant accepted)) rfl
    | some filled => exact .keeps (.ended content (.late accepted rfl (past filled rfl))) rfl
  | vacant accepted => exact .keeps (.pending content (.built accepted _)) rfl
  | built accepted number =>
    rename_i options
    change KeepsOrFills (cell.fill ⟨number, options⟩) filling began clock _ false
    rw [fill, content]
    cases filling with
    | none => exact .configures rfl rfl (.pending rfl (.filled accepted rfl old)) rfl
    | some filled => exact .keeps (.ended content (.late accepted rfl (past filled rfl))) rfl
  | filled accepted full since =>
    subst full
    have later := Nat.le_of_lt (past _ rfl)
    change KeepsOrFills cell.useOrFill _ began clock _ true
    rw [useOrFill, content]
    exact .keeps (.ended content (.configured accepted rfl since later)) rfl

end

variable {before next state : Threads SharedCell CellCall Configuring Answer} {number : Nat}

def winners (state : Threads SharedCell CellCall Configuring Answer) : Nat :=
  state.waiting.countP (fun pending => fills pending.left) +
    state.ended.countP fun last => wins last.call last.answer

structure FilledAs (state : Threads SharedCell CellCall Configuring Answer)
    (filling : Option Filling) : Prop where
  content : state.shared.content = filling.map Filling.built
  past : ∀ filled, filling = some filled → filled.time < state.clock
  waits : ∀ pending ∈ state.waiting, Waits filling pending.began pending.call pending.left
  ends : ∀ last ∈ state.ended, Ends filling last.began last.ended last.call last.answer
  filler : ∀ filled, filling = some filled → winners state = 1 ∨
    (winners state = 0 ∧ filled.built.options = {} ∧
      ∃ last ∈ state.ended, last.call = .use ∧ last.began ≤ filled.time)

theorem start_filledAs (calls : List (List CellCall)) : FilledAs (Threads.start {} calls) none := by
  refine ⟨rfl, ?_, ?_, ?_, ?_⟩
  · intro filled full
    cases full
  · intro pending member
    obtain ⟨thread, started, waits⟩ := Threads.mem_waiting.mp member
    obtain ⟨todo, _, rfl⟩ := List.mem_map.mp started
    cases waits
  · intro last member
    cases member
  · intro filled full
    cases full

theorem FilledAs.winners_empty (filledAs : FilledAs state none) : winners state = 0 := by
  rw [winners, Nat.add_eq_zero_iff, List.countP_eq_zero, List.countP_eq_zero]
  constructor
  · intro pending member leading
    exact absurd leading (Bool.eq_false_iff.mp (filledAs.waits pending member).fills_empty)
  · intro last member won
    exact absurd won (Bool.eq_false_iff.mp (filledAs.ends last member).wins_empty)

theorem winners_after {thread : Thread CellCall Configuring}
    (found : before.threads[number]? = some thread) (rest : List CellCall) (call : CellCall)
    (began : Nat) (left : Section.Left SharedCell Configuring Answer) :
    winners (before.after number rest call began left) +
        thread.pending.toList.countP (fun pending => fills pending.left) =
      winners before + if leads call left.progress then 1 else 0 := by
  have split := (Threads.waiting_found found).countP_eq fun pending => fills pending.left
  have moved := Threads.waiting_after found rest call began left
  rw [List.countP_append] at split
  rw [winners, winners, split]
  cases progress : left.progress with
  | pending further =>
    rw [progress] at moved
    obtain ⟨waiting, ended⟩ := moved
    rw [waiting.countP_eq, ended, List.countP_cons, leads]
    dsimp only
    omega
  | ended answer =>
    rw [progress] at moved
    obtain ⟨waiting, ended⟩ := moved
    rw [waiting.countP_eq, ended, List.countP_cons, leads]
    dsimp only
    omega

theorem FilledAs.after (filledAs : FilledAs before filling) {thread : Thread CellCall Configuring}
    (found : before.threads[number]? = some thread) {rest : List CellCall}
    {left : Section.Left SharedCell Configuring Answer}
    (grown : ∀ {filled}, filling = some filled → later = some filled)
    (accords : Accords left later began before.clock call)
    (past : ∀ filled, later = some filled → filled.time ≤ before.clock)
    (filler : ∀ filled, later = some filled →
      winners (before.after number rest call began left) = 1 ∨
        (winners (before.after number rest call began left) = 0 ∧ filled.built.options = {} ∧
          ∃ last ∈ (before.after number rest call began left).ended,
            last.call = .use ∧ last.began ≤ filled.time)) :
    FilledAs (before.after number rest call began left) later := by
  have others : ∀ pending ∈ before.others number,
      Waits later pending.began pending.call pending.left := by
    intro pending member
    have present := (Threads.waiting_found found).mem_iff.mpr (List.mem_append_right _ member)
    exact (filledAs.waits pending present).mono grown
  have known : ∀ last ∈ before.ended,
      Ends later last.began last.ended last.call last.answer := by
    intro last member
    exact (filledAs.ends last member).mono grown
  have moved := Threads.waiting_after found rest call began left
  refine ⟨?_, ?_, ?_, ?_, filler⟩
  · rw [Threads.after_shared]
    exact accords.content
  · intro filled full
    rw [Threads.after_clock]
    exact Nat.lt_succ_of_le (past filled full)
  · intro pending member
    cases progress : left.progress with
    | pending further =>
      rw [progress] at moved
      rcases List.mem_cons.mp (moved.1.mem_iff.mp member) with rfl | other
      · exact accords.waits further progress
      · exact others pending other
    | ended answer =>
      rw [progress] at moved
      exact others pending (moved.1.mem_iff.mp member)
  · intro last member
    cases progress : left.progress with
    | pending further =>
      rw [progress] at moved
      rw [moved.2] at member
      exact known last member
    | ended answer =>
      rw [progress] at moved
      rw [moved.2] at member
      rcases List.mem_cons.mp member with rfl | old
      · exact accords.ends answer progress
      · exact known last old

theorem FilledAs.turn (filledAs : FilledAs before filling) {thread : Thread CellCall Configuring}
    (found : before.threads[number]? = some thread) {rest : List CellCall} {led : Bool}
    (leading : thread.pending.toList.countP (fun pending => fills pending.left) =
      if led then 1 else 0)
    {left : Section.Left SharedCell Configuring Answer} (old : began ≤ before.clock)
    (moved : KeepsOrFills left filling began before.clock call led) :
    ∃ later, (∀ {filled}, filling = some filled → later = some filled) ∧
      FilledAs (before.after number rest call began left) later := by
  have counted := winners_after found rest call began left
  rw [leading] at counted
  cases moved with
  | keeps accords same =>
    rw [same] at counted
    have kept := Nat.add_right_cancel counted
    have past : ∀ filled, filling = some filled → filled.time ≤ before.clock := by
      intro filled full
      exact Nat.le_of_lt (filledAs.past filled full)
    refine ⟨filling, id, filledAs.after found id accords past ?_⟩
    intro filled full
    rw [kept]
    rcases filledAs.filler filled full with one | ⟨none, default, last, member, use, early⟩
    · exact .inl one
    · exact .inr ⟨none, default, last, before.ended_after number rest call began left member, use,
        early⟩
  | configures empty fresh accords leads =>
    subst empty fresh
    rw [leads, filledAs.winners_empty] at counted
    refine ⟨_, nofun, filledAs.after found nofun accords ?_ ?_⟩
    · intro filled full
      cases full
      exact Nat.le_refl _
    · intro filled full
      exact .inl counted
  | uses empty fresh accords default use taken =>
    rename_i built
    subst empty fresh use
    rw [taken, filledAs.winners_empty] at counted
    refine ⟨_, nofun, filledAs.after found nofun accords ?_ ?_⟩
    · intro filled full
      cases full
      exact Nat.le_refl _
    · intro filled full
      cases full
      refine .inr ⟨counted, default, ⟨number, .use, .ok built, began, before.clock⟩, ?_, rfl, old⟩
      have moved := Threads.waiting_after found rest .use began left
      rw [taken] at moved
      rw [moved.2]
      exact List.mem_cons_self

theorem FilledAs.step (filledAs : FilledAs before filling) (timed : before.Timed)
    (step : Threads.Step sections before number next) :
    ∃ later, (∀ {filled}, filling = some filled → later = some filled) ∧ FilledAs next later := by
  cases step with
  | first ready =>
    exact filledAs.turn ready rfl (Nat.le_refl _)
      (first_keepsOrFills filledAs.content filledAs.past _)
  | later waiting =>
    rename_i pending rest
    have member : pending ∈ before.waiting :=
      Threads.mem_waiting.mpr ⟨_, List.mem_of_getElem? waiting, rfl⟩
    have old := timed.begun _ (List.mem_of_getElem? waiting) pending rfl
    have leading : (some pending).toList.countP (fun pending => fills pending.left) =
        if fills pending.left then 1 else 0 := List.countP_singleton
    exact filledAs.turn waiting leading (Nat.le_of_lt old)
      (later_keepsOrFills filledAs.content filledAs.past (Nat.le_of_lt old)
        (filledAs.waits pending member))

theorem FilledAs.runs (filledAs : FilledAs before filling) (timed : before.Timed)
    (path : Threads.Runs sections before next) :
    ∃ later, (∀ {filled}, filling = some filled → later = some filled) ∧ FilledAs next later := by
  induction path with
  | nil => exact ⟨filling, id, filledAs⟩
  | step walked moved ih =>
    obtain ⟨middle, first, reached⟩ := ih
    obtain ⟨last, second, held⟩ := reached.step (timed.runs walked) moved
    exact ⟨last, fun full => second (first full), held⟩

end SharedCell

end InternPool
