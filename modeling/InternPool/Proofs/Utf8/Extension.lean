import InternPool.Proofs.Utf8.Verdict

namespace InternPool.Utf8

def Error.shift (before : Nat) : Error → Error
  | .invalid validUpTo length => .invalid (before + validUpTo) length
  | .incomplete validUpTo => .incomplete (before + validUpTo)

variable {bytes valid : Bytes} {validUpTo length : Nat}

theorem Error.validUpTo_shift (before : Nat) (error : Error) :
    (error.shift before).validUpTo = before + error.validUpTo := by
  cases error <;> rfl

theorem Fault.toError_shift (before offset : Nat) (subpart : Subpart) :
    Fault.toError ⟨before + offset, subpart⟩ = (Fault.toError ⟨offset, subpart⟩).shift before := by
  cases subpart <;> rfl

theorem validate_after (wellFormed : WellFormed valid) (more : Bytes) :
    validate (valid ++ more) = (validate more).mapError (Error.shift valid.length) := by
  cases verdict : validate more with
  | ok _ => exact validate_ok_iff.mpr (wellFormed.append (validate_ok_iff.mp verdict))
  | error error =>
    obtain ⟨further, rest, subpart, rfl, follows, stops, rfl⟩ := validate_error_iff.mp verdict
    refine validate_error_iff.mpr ⟨valid ++ further, rest, subpart,
      (List.append_assoc valid further rest).symm, wellFormed.append follows, stops, ?_⟩
    rw [List.length_append, Fault.toError_shift]

theorem validate_invalid_append (refused : validate bytes = .error (.invalid validUpTo length))
    (more : Bytes) : validate (bytes ++ more) = .error (.invalid validUpTo length) := by
  obtain ⟨valid, rest, subpart, rfl, wellFormed, stops, same⟩ := validate_error_iff.mp refused
  cases stops with
  | truncated => cases same
  | invalid parts broken =>
    subst parts
    rw [List.append_assoc, List.append_assoc, validate_error_iff]
    exact ⟨valid, _, _, rfl, wellFormed, .invalid rfl (broken.append more), same⟩

theorem Opening.completed {rest : Bytes} (present : rest ≠ []) (opening : Opening rest) :
    ∃ more, 1 ≤ more.length ∧ more.length ≤ 3 ∧ WellFormed (rest ++ more) := by
  obtain ⟨scalar, more, missing, spelled⟩ := opening
  have begun := List.length_pos_iff.mpr present
  have left := List.length_pos_iff.mpr missing
  have sizes := congrArg List.length spelled
  have small := scalar.utf8Size_le_four
  rw [String.length_utf8EncodeChar, List.length_append] at sizes
  refine ⟨more, by omega, by omega, [scalar], ?_⟩
  rw [encode_cons, encode_nil, List.append_nil, spelled]

theorem validate_incomplete_completed (cut : validate bytes = .error (.incomplete validUpTo)) :
    ∃ more, 1 ≤ more.length ∧ more.length ≤ 3 ∧ validate (bytes ++ more) = .ok () := by
  obtain ⟨valid, rest, subpart, rfl, wellFormed, stops, same⟩ := validate_error_iff.mp cut
  cases stops with
  | truncated present opening =>
    obtain ⟨more, least, most, whole⟩ := opening.completed present
    refine ⟨more, least, most, validate_ok_iff.mpr ?_⟩
    rw [List.append_assoc]
    exact wellFormed.append whole
  | invalid => cases same

theorem validate_incomplete_append (cut : validate bytes = .error (.incomplete validUpTo))
    {more : Bytes} {error : Error} (refused : validate (bytes ++ more) = .error error) :
    validUpTo ≤ error.validUpTo := by
  obtain ⟨valid, rest, subpart, rfl, wellFormed, stops, same⟩ := validate_error_iff.mp cut
  cases stops with
  | truncated present opening =>
    cases same
    rw [List.append_assoc, validate_after wellFormed] at refused
    cases verdict : validate (rest ++ more) with
    | ok _ =>
      rw [verdict] at refused
      cases refused
    | error inner =>
      rw [verdict] at refused
      cases refused
      rw [Error.validUpTo_shift]
      exact Nat.le_add_right _ _
  | invalid => cases same

-- What was well formed stays so; an invalid fault is final; and an incomplete one is told from it by
-- there being bytes that make the input well formed.
theorem validate_append (bytes : Bytes) :
    (validate bytes = .ok () → ∀ more,
      validate (bytes ++ more) = (validate more).mapError (Error.shift bytes.length)) ∧
    (∀ validUpTo length, validate bytes = .error (.invalid validUpTo length) → ∀ more,
      validate (bytes ++ more) = .error (.invalid validUpTo length)) ∧
    (∀ validUpTo, validate bytes = .error (.incomplete validUpTo) →
      (∃ more, 1 ≤ more.length ∧ more.length ≤ 3 ∧ validate (bytes ++ more) = .ok ()) ∧
      ∀ more, validate (bytes ++ more) = .ok () ∨
        ∃ error, validate (bytes ++ more) = .error error ∧ validUpTo ≤ error.validUpTo) ∧
    ∀ error, validate bytes = .error error →
      ((∃ validUpTo, error = .incomplete validUpTo) ↔
        ∃ more, validate (bytes ++ more) = .ok ()) := by
  refine ⟨?_, ?_, ?_, ?_⟩
  · intro accepted
    exact validate_after (validate_ok_iff.mp accepted)
  · intro validUpTo length refused
    exact validate_invalid_append refused
  · intro validUpTo cut
    refine ⟨validate_incomplete_completed cut, ?_⟩
    intro more
    cases verdict : validate (bytes ++ more) with
    | ok _ => exact .inl rfl
    | error error => exact .inr ⟨error, rfl, validate_incomplete_append cut verdict⟩
  · intro error refused
    cases error with
    | invalid validUpTo length =>
      refine iff_of_false nofun ?_
      rintro ⟨more, accepted⟩
      rw [validate_invalid_append refused] at accepted
      cases accepted
    | incomplete validUpTo =>
      obtain ⟨more, _, _, accepted⟩ := validate_incomplete_completed refused
      exact iff_of_true ⟨validUpTo, rfl⟩ ⟨more, accepted⟩

-- "é" and the first two bytes of "€", which a third makes whole; and a byte that no more can mend.
theorem validate_append_euro :
    validate [0xC3, 0xA9] = .ok () ∧
      validate ([0xC3, 0xA9] ++ [0xE2, 0x82]) = .error (.incomplete 2) ∧
      (∃ more, 1 ≤ more.length ∧ more.length ≤ 3 ∧
        validate ([0xC3, 0xA9, 0xE2, 0x82] ++ more) = .ok ()) ∧
      validate [0x61, 0xFF] = .error (.invalid 1 1) ∧
      validate ([0x61, 0xFF] ++ [0xE2, 0x82]) = .error (.invalid 1 1) := by
  have accepted : validate [0xC3, 0xA9] = .ok () := validate_ok_iff.mpr ⟨['é'], by decide⟩
  have opening : Opening [0xE2, 0x82] := ⟨'€', [0xAC], by decide, by decide⟩
  have cut : validate [0xE2, 0x82] = .error (.incomplete 0) :=
    validate_error_iff.mpr ⟨[], _, _, rfl, .nil, .truncated (by decide) opening, rfl⟩
  have incomplete := (validate_append [0xC3, 0xA9]).1 accepted [0xE2, 0x82]
  rw [cut] at incomplete
  have nothing : ¬ Begins [0xFF] := by
    rw [begins_iff]
    rintro (⟨ascii, _⟩ | ⟨lead, announced, _⟩)
    · cases ascii
    · cases announced
  have refused : validate [0x61, 0xFF] = .error (.invalid 1 1) :=
    validate_error_iff.mpr ⟨[0x61], [0xFF], .invalid 1, rfl, ⟨['a'], by decide⟩,
      .invalid rfl (.inl ⟨0xFF, rfl, nothing⟩), rfl⟩
  exact ⟨accepted, incomplete, ((validate_append [0xC3, 0xA9, 0xE2, 0x82]).2.2.1 2 incomplete).1,
    refused, (validate_append [0x61, 0xFF]).2.1 1 1 refused [0xE2, 0x82]⟩

end InternPool.Utf8
