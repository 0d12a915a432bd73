import InternPool.Proofs.Utf8.Decoding
import InternPool.Proofs.Utf8.Verdict

namespace InternPool.Utf8

variable {bytes : Bytes} {validUpTo length : Nat}

theorem repair_stops {valid rest : Bytes} {subpart : Subpart} (wellFormed : WellFormed valid)
    (stops : Stops rest subpart) :
    (repair (valid ++ rest)).value =
      valid ++ replacement ++ (repair (rest.drop subpart.length)).value := by
  have found := scan_wellFormed wellFormed 0 rest
  rw [Nat.zero_add, scan_stops stops] at found
  rw [repair_mended, repair_mended, mend_fault found, Fault.next]
  simp only [Nat.sub_zero, List.take_left, List.drop_length_add_append]

theorem repair_invalid (refused : validate bytes = .error (.invalid validUpTo length)) :
    (repair bytes).value =
      bytes.take validUpTo ++ replacement ++ (repair (bytes.drop (validUpTo + length))).value := by
  obtain ⟨valid, rest, subpart, rfl, wellFormed, stops, same⟩ := validate_error_iff.mp refused
  rw [repair_stops wellFormed stops]
  cases stops with
  | truncated => cases same
  | invalid =>
    cases same
    rw [List.take_left, List.drop_length_add_append]
    rfl

-- The input ends in the fault, so nothing is left to start again on.
theorem repair_incomplete (refused : validate bytes = .error (.incomplete validUpTo)) :
    (repair bytes).value = bytes.take validUpTo ++ replacement := by
  obtain ⟨valid, rest, subpart, rfl, wellFormed, stops, same⟩ := validate_error_iff.mp refused
  rw [repair_stops wellFormed stops]
  cases stops with
  | truncated =>
    cases same
    rw [List.take_left, Subpart.length, List.drop_length, repair_kept .nil, List.append_nil]
  | invalid => cases same

-- A caller between two rounds: what has been put out, and what of the input is left.
structure Restarting where
  emitted : Bytes
  rest : Bytes
deriving Repr, DecidableEq

namespace Restarting

inductive Round where
  | goesOn (later : Restarting)
  | ends (out : Bytes)
deriving Repr, DecidableEq

def start (bytes : Bytes) : Restarting := ⟨[], bytes⟩

-- Copies the valid prefix and puts U+FFFD for the fault. The error says by how many bytes to go on;
-- if it does not, the input ended.
def round (state : Restarting) : Round :=
  match validate state.rest with
  | .ok () => .ends (state.emitted ++ state.rest)
  | .error error =>
    let emitted := state.emitted ++ state.rest.take error.validUpTo ++ replacement
    match error.length? with
    | some length => .goesOn ⟨emitted, state.rest.drop (error.validUpTo + length)⟩
    | none => .ends emitted

-- So many rounds are made in all, and this is put out in the end.
inductive Rounds : Restarting → Nat → Bytes → Prop where
  | last {state : Restarting} {out : Bytes} (ends : state.round = .ends out) : Rounds state 1 out
  | more {state later : Restarting} {count : Nat} {out : Bytes}
      (further : state.round = .goesOn later) (others : Rounds later count out) :
      Rounds state (count + 1) out

variable {state later : Restarting} {count : Nat} {out : Bytes}

-- What is put out in the end, if the rest of the input is repaired in one pass.
def outcome (state : Restarting) : Bytes :=
  state.emitted ++ (repair state.rest).value

theorem round_cases (state : Restarting) :
    state.round = .ends state.outcome ∨
      ∃ later, state.round = .goesOn later ∧ later.outcome = state.outcome ∧
        later.rest.length < state.rest.length := by
  rw [round, outcome]
  cases verdict : validate state.rest with
  | ok _ => exact .inl (by rw [repair_kept (validate_ok_iff.mp verdict)])
  | error error =>
    cases error with
    | incomplete validUpTo =>
      refine .inl (congrArg Round.ends ?_)
      rw [repair_incomplete verdict, ← List.append_assoc]
      rfl
    | invalid validUpTo length =>
      refine .inr ⟨_, rfl, ?_, ?_⟩
      · rw [outcome, repair_invalid verdict]
        simp only [Error.validUpTo, List.append_assoc]
      · have bounds := validate_invalid verdict
        simp only [Error.validUpTo, List.length_drop]
        omega

theorem rounds_outcome (rounds : state.Rounds count out) : out = state.outcome := by
  induction rounds with
  | @last state out ends =>
    rcases state.round_cases with ended | ⟨later, further, _⟩
    · rw [ends] at ended
      cases ended
      rfl
    · rw [ends] at further
      cases further
  | @more state later count out further _ ih =>
    rcases state.round_cases with ended | ⟨other, goesOn, same, _⟩
    · rw [further] at ended
      cases ended
    · rw [further] at goesOn
      cases goesOn
      exact ih.trans same

-- Every round but the last takes a byte of the input at least.
theorem rounds_end (state : Restarting) :
    ∃ count, count ≤ state.rest.length + 1 ∧ state.Rounds count state.outcome := by
  induction size : state.rest.length using Nat.strongRecOn generalizing state with
  | ind size ih =>
    subst size
    rcases state.round_cases with ended | ⟨later, further, same, shorter⟩
    · exact ⟨1, Nat.le_add_left _ _, .last ended⟩
    · obtain ⟨count, few, others⟩ := ih later.rest.length shorter later rfl
      rw [same] at others
      exact ⟨count + 1, by omega, .more further others⟩

end Restarting

theorem restart_repaired (bytes : Bytes) : restart bytes = (repair bytes).value := by
  fun_induction restart bytes with
  | case1 bytes accepted => rw [repair_kept (validate_ok_iff.mp accepted)]
  | case2 bytes validUpTo cut => rw [repair_incomplete cut]
  | case3 bytes validUpTo length refused ih => rw [repair_invalid refused, ih]

-- The first fault splits a repair in three, and so does each fault after it: the rounds of a caller
-- end on every input, and what they put out is the repair.
theorem restart_repairs (bytes : Bytes) :
    (∀ validUpTo length, validate bytes = .error (.invalid validUpTo length) →
      (repair bytes).value = bytes.take validUpTo ++ replacement ++
        (repair (bytes.drop (validUpTo + length))).value) ∧
    (∀ validUpTo, validate bytes = .error (.incomplete validUpTo) →
      (repair bytes).value = bytes.take validUpTo ++ replacement) ∧
    (∃ count, count ≤ bytes.length + 1 ∧
      (Restarting.start bytes).Rounds count (repair bytes).value) ∧
    (∀ count out, (Restarting.start bytes).Rounds count out → out = (repair bytes).value) ∧
    restart bytes = (repair bytes).value := by
  refine ⟨fun _ _ => repair_invalid, fun _ => repair_incomplete,
    Restarting.rounds_end (.start bytes), ?_, restart_repaired bytes⟩
  intro count out rounds
  exact Restarting.rounds_outcome rounds

-- One fault that a byte breaks off and one that the end of the input does: two rounds.
theorem restart_repairs_twice :
    validate [0x61, 0xE2, 0x28, 0xE2, 0x82] = .error (.invalid 1 1) ∧
      (repair [0x61, 0xE2, 0x28, 0xE2, 0x82]).value =
        [0x61] ++ replacement ++ (repair [0x28, 0xE2, 0x82]).value ∧
      validate [0x28, 0xE2, 0x82] = .error (.incomplete 1) ∧
      (repair [0x28, 0xE2, 0x82]).value = [0x28] ++ replacement ∧
      (Restarting.start [0x61, 0xE2, 0x28, 0xE2, 0x82]).Rounds 2
        [0x61, 0xEF, 0xBF, 0xBD, 0x28, 0xEF, 0xBF, 0xBD] ∧
      [0x61, 0xEF, 0xBF, 0xBD, 0x28, 0xEF, 0xBF, 0xBD] =
        (repair [0x61, 0xE2, 0x28, 0xE2, 0x82]).value := by
  have refused : validate [0x61, 0xE2, 0x28, 0xE2, 0x82] = .error (.invalid 1 1) := by cbv
  have cut : validate [0x28, 0xE2, 0x82] = .error (.incomplete 1) := by cbv
  have further : (Restarting.start [0x61, 0xE2, 0x28, 0xE2, 0x82]).round =
      .goesOn ⟨[0x61, 0xEF, 0xBF, 0xBD], [0x28, 0xE2, 0x82]⟩ := by decide +kernel
  have ends : Restarting.round ⟨[0x61, 0xEF, 0xBF, 0xBD], [0x28, 0xE2, 0x82]⟩ =
      .ends [0x61, 0xEF, 0xBF, 0xBD, 0x28, 0xEF, 0xBF, 0xBD] := by decide +kernel
  have rounds := Restarting.Rounds.more further (.last ends)
  obtain ⟨invalid, _, _, only, _⟩ := restart_repairs [0x61, 0xE2, 0x28, 0xE2, 0x82]
  obtain ⟨_, incomplete, _⟩ := restart_repairs [0x28, 0xE2, 0x82]
  exact ⟨refused, invalid 1 1 refused, cut, incomplete 1 cut, rounds, only 2 _ rounds⟩

end InternPool.Utf8
