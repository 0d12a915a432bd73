import InternPool.Proofs.Utf8.Segments
import InternPool.Utf8.Restart

namespace InternPool.Utf8

def LongestPrefix (holds : Bytes → Prop) (bytes : Bytes) (length : Nat) : Prop :=
  length ≤ bytes.length ∧ holds (bytes.take length) ∧
    ∀ other, other ≤ bytes.length → holds (bytes.take other) → other ≤ length

theorem LongestPrefix.unique {holds : Bytes → Prop} {bytes : Bytes} {left right : Nat}
    (first : LongestPrefix holds bytes left) (second : LongestPrefix holds bytes right) :
    left = right :=
  Nat.le_antisymm (second.2.2 left first.1 first.2.1) (first.2.2 right second.1 second.2.1)

-- No encoding is the beginning of another, so bytes have one front at most.
theorem scalar_front {left right : Char} {x y : Bytes}
    (same : String.utf8EncodeChar left ++ x = String.utf8EncodeChar right ++ y) :
    left = right ∧ x = y := by
  have fronts := congrArg segments same
  rw [segments_scalar, segments_scalar] at fronts
  have equal := utf8EncodeChar_injective (Segment.sequence.inj (List.cons.inj fronts).1)
  subst equal
  exact ⟨rfl, List.append_cancel_left same⟩

theorem cut_no_front {bytes : Bytes} (present : bytes ≠ []) (opening : Opening bytes)
    (scalar : Char) (more : Bytes) : bytes ≠ String.utf8EncodeChar scalar ++ more := by
  intro same
  have fronts := segments_cut present opening
  rw [same, segments_scalar] at fronts
  cases fronts

theorem broken_no_front {subpart rest : Bytes} (broken : Broken subpart rest) (scalar : Char)
    (more : Bytes) : subpart ++ rest ≠ String.utf8EncodeChar scalar ++ more := by
  intro same
  have fronts := segments_broken broken
  rw [same, segments_scalar] at fronts
  cases fronts

theorem broken_not_opening {subpart rest : Bytes} (broken : Broken subpart rest) :
    ¬ Opening (subpart ++ rest) := by
  intro opening
  have present : subpart ++ rest ≠ [] := by simp [broken.ne_nil]
  have fronts := segments_broken broken
  rw [segments_cut present opening] at fronts
  cases (Segment.malformed.inj (List.cons.inj fronts).1).2

theorem WellFormed.front {bytes : Bytes} (valid : WellFormed bytes) (present : bytes ≠ []) :
    ∃ scalar more, bytes = String.utf8EncodeChar scalar ++ more := by
  obtain ⟨scalars, rfl⟩ := valid
  cases scalars with
  | nil => exact absurd rfl present
  | cons scalar rest => exact ⟨scalar, encode rest, rfl⟩

theorem WellFormed.right {left right : Bytes} (valid : WellFormed left)
    (whole : WellFormed (left ++ right)) : WellFormed right := by
  obtain ⟨scalars, rfl⟩ := valid
  induction scalars with
  | nil => exact whole
  | cons scalar rest ih =>
    obtain ⟨others, spelled⟩ := whole
    cases others with
    | nil =>
      have empty := congrArg List.length spelled
      have positive := List.length_pos_iff.mpr (String.utf8EncodeChar_ne_nil (c := scalar))
      simp only [encode_cons, encode_nil, List.length_append, List.length_nil] at empty
      omega
    | cons other others =>
      rw [encode_cons, encode_cons, List.append_assoc] at spelled
      exact ih ⟨others, (scalar_front spelled).2⟩

-- Where no encoding can be read on, the well-formed prefix is the longest.
theorem longest_wellFormed {left right : Bytes} (valid : WellFormed left)
    (stuck : ∀ scalar more, right ≠ String.utf8EncodeChar scalar ++ more) :
    LongestPrefix WellFormed (left ++ right) left.length := by
  refine ⟨?_, by rwa [List.take_left], ?_⟩
  · rw [List.length_append]
    exact Nat.le_add_right _ _
  · intro other fits longer
    apply Nat.le_of_not_lt
    intro beyond
    obtain ⟨extra, rfl⟩ := Nat.exists_eq_add_of_lt beyond
    rw [Nat.add_assoc, List.take_length_add_append] at longer
    rw [List.length_append] at fits
    have present : right.take (extra + 1) ≠ [] := by
      apply List.ne_nil_of_length_pos
      rw [List.length_take]
      omega
    obtain ⟨scalar, more, front⟩ := (valid.right longer).front present
    apply stuck scalar (more ++ right.drop (extra + 1))
    rw [← List.append_assoc, ← front, List.take_append_drop]

-- The subpart is as long as what it has of an encoding, and one byte if it has nothing of any.
theorem longest_opening {subpart rest : Bytes} (broken : Broken subpart rest) :
    ∃ length, LongestPrefix Opening (subpart ++ rest) length ∧ subpart.length = max 1 length := by
  rcases broken with ⟨byte, rfl, nothing⟩ | ⟨present, opening, next, more, rfl, stops⟩
  · refine ⟨0, ⟨Nat.zero_le _, Opening.nil, ?_⟩, rfl⟩
    intro other _ longer
    cases other with
    | zero => exact Nat.le_refl 0
    | succ other =>
      rw [List.singleton_append, List.take_succ_cons] at longer
      exact absurd longer.begins.left nothing
  · refine ⟨subpart.length, ⟨?_, by rwa [List.take_left], ?_⟩, ?_⟩
    · rw [List.length_append]
      exact Nat.le_add_right _ _
    · intro other _ longer
      apply Nat.le_of_not_lt
      intro beyond
      obtain ⟨extra, rfl⟩ := Nat.exists_eq_add_of_lt beyond
      rw [Nat.add_assoc, List.take_length_add_append, List.take_succ_cons,
        List.append_cons] at longer
      exact stops longer.begins.left
    · have positive := List.length_pos_iff.mpr present
      omega

theorem scan_none {pos : Nat} {bytes : Bytes} (faultless : scan pos bytes = none) :
    WellFormed bytes := by
  induction reading bytes generalizing pos with
  | nil => exact WellFormed.nil
  | scalar scalar _ ih =>
    rw [scan_scalar] at faultless
    obtain ⟨scalars, spelled⟩ := ih faultless
    exact ⟨scalar :: scalars, by rw [encode_cons, spelled]⟩
  | cut present opening =>
    rw [scan_cut present opening] at faultless
    cases faultless
  | broken broken _ _ =>
    rw [scan_broken broken] at faultless
    cases faultless

-- A fault stands behind well-formed bytes, and is one of two.
inductive Stops (rest : Bytes) : Subpart → Prop where
  | truncated (present : rest ≠ []) (opening : Opening rest) : Stops rest (.truncated rest.length)
  | invalid {subpart more : Bytes} (parts : rest = subpart ++ more) (broken : Broken subpart more) :
      Stops rest (.invalid subpart.length)

theorem Stops.no_front {rest : Bytes} {subpart : Subpart} (stops : Stops rest subpart)
    (scalar : Char) (more : Bytes) : rest ≠ String.utf8EncodeChar scalar ++ more := by
  cases stops with
  | truncated present opening => exact cut_no_front present opening scalar more
  | invalid parts broken =>
    rw [parts]
    exact broken_no_front broken scalar more

theorem scan_some {pos : Nat} {bytes : Bytes} {fault : Fault}
    (found : scan pos bytes = some fault) :
    ∃ valid rest, bytes = valid ++ rest ∧ WellFormed valid ∧
      fault.offset = pos + valid.length ∧ Stops rest fault.subpart := by
  induction reading bytes generalizing pos with
  | nil =>
    rw [scan_nil] at found
    cases found
  | scalar scalar _ ih =>
    rw [scan_scalar] at found
    obtain ⟨valid, rest, rfl, ⟨scalars, spelled⟩, offset, stops⟩ := ih found
    refine ⟨String.utf8EncodeChar scalar ++ valid, rest, by rw [List.append_assoc],
      ⟨scalar :: scalars, by rw [encode_cons, spelled]⟩, ?_, stops⟩
    rw [offset, List.length_append, Nat.add_assoc]
  | @cut bytes present opening =>
    rw [scan_cut present opening] at found
    cases found
    exact ⟨[], bytes, rfl, WellFormed.nil, rfl, .truncated present opening⟩
  | @broken subpart rest broken _ _ =>
    rw [scan_broken broken] at found
    cases found
    exact ⟨[], subpart ++ rest, rfl, WellFormed.nil, rfl, .invalid rfl broken⟩

theorem scan_wellFormed {valid : Bytes} (wellFormed : WellFormed valid) (pos : Nat)
    (rest : Bytes) : scan pos (valid ++ rest) = scan (pos + valid.length) rest := by
  obtain ⟨scalars, rfl⟩ := wellFormed
  induction scalars generalizing pos with
  | nil => rfl
  | cons scalar scalars ih =>
    rw [encode_cons, List.append_assoc, scan_scalar, ih, List.length_append, Nat.add_assoc]

theorem scan_stops {rest : Bytes} {subpart : Subpart} (stops : Stops rest subpart) (pos : Nat) :
    scan pos rest = some ⟨pos, subpart⟩ := by
  cases stops with
  | truncated present opening => exact scan_cut present opening pos
  | invalid parts broken =>
    rw [parts]
    exact scan_broken broken pos

theorem validate_ok_iff {bytes : Bytes} : validate bytes = .ok () ↔ WellFormed bytes := by
  constructor
  · intro accepted
    unfold validate nextFault at accepted
    split at accepted
    · rename_i faultless
      exact scan_none faultless
    · cases accepted
  · intro wellFormed
    have faultless := scan_wellFormed wellFormed 0 []
    rw [List.append_nil, scan_nil] at faultless
    rw [validate, nextFault, List.drop_zero, faultless]

theorem validate_error_iff {bytes : Bytes} {error : Error} :
    validate bytes = .error error ↔
      ∃ valid rest subpart, bytes = valid ++ rest ∧ WellFormed valid ∧ Stops rest subpart ∧
        error = Fault.toError ⟨valid.length, subpart⟩ := by
  constructor
  · intro refused
    unfold validate nextFault at refused
    split at refused
    · cases refused
    · rename_i fault found
      obtain ⟨valid, rest, parts, wellFormed, offset, stops⟩ := scan_some found
      rw [Nat.zero_add] at offset
      cases refused
      exact ⟨valid, rest, fault.subpart, parts, wellFormed, stops, by rw [← offset]⟩
  · intro faulty
    obtain ⟨valid, rest, subpart, rfl, wellFormed, stops, rfl⟩ := faulty
    rw [validate, nextFault, List.drop_zero, scan_wellFormed wellFormed, scan_stops stops,
      Nat.zero_add]

theorem longest_of_stops {valid rest : Bytes} {subpart : Subpart} (wellFormed : WellFormed valid)
    (stops : Stops rest subpart) : LongestPrefix WellFormed (valid ++ rest) valid.length :=
  longest_wellFormed wellFormed stops.no_front

theorem LongestPrefix.no_front {bytes : Bytes} {validUpTo : Nat}
    (longest : LongestPrefix WellFormed bytes validUpTo) (scalar : Char) (more : Bytes) :
    bytes.drop validUpTo ≠ String.utf8EncodeChar scalar ++ more := by
  intro front
  obtain ⟨fits, wellFormed, bound⟩ := longest
  have positive := List.length_pos_iff.mpr (String.utf8EncodeChar_ne_nil (c := scalar))
  have sizes := congrArg List.length front
  rw [List.length_drop, List.length_append] at sizes
  have further := bound (validUpTo + (String.utf8EncodeChar scalar).length) (by omega)
  rw [List.take_add, front, List.take_left] at further
  have beyond := further (wellFormed.append ⟨[scalar], by simp⟩)
  omega

theorem validate_incomplete_iff {bytes : Bytes} {validUpTo : Nat} :
    validate bytes = .error (.incomplete validUpTo) ↔
      LongestPrefix WellFormed bytes validUpTo ∧ bytes.drop validUpTo ≠ [] ∧
        Opening (bytes.drop validUpTo) := by
  rw [validate_error_iff]
  constructor
  · intro faulty
    obtain ⟨valid, rest, subpart, rfl, wellFormed, stops, same⟩ := faulty
    cases stops with
    | truncated present opening =>
      cases same
      rw [List.drop_left]
      exact ⟨longest_of_stops wellFormed (.truncated present opening), present, opening⟩
    | invalid parts broken => cases same
  · intro cut
    obtain ⟨⟨fits, wellFormed, _⟩, present, opening⟩ := cut
    refine ⟨bytes.take validUpTo, bytes.drop validUpTo, _, ?_, wellFormed,
      .truncated present opening, ?_⟩
    · rw [List.take_append_drop]
    · rw [List.length_take, Nat.min_eq_left fits]
      rfl

theorem validate_invalid_iff {bytes : Bytes} {validUpTo length : Nat} :
    validate bytes = .error (.invalid validUpTo length) ↔
      LongestPrefix WellFormed bytes validUpTo ∧ bytes.drop validUpTo ≠ [] ∧
        ¬ Opening (bytes.drop validUpTo) ∧
        ∃ opening, LongestPrefix Opening (bytes.drop validUpTo) opening ∧
          length = max 1 opening := by
  rw [validate_error_iff]
  constructor
  · intro faulty
    obtain ⟨valid, rest, subpart, rfl, wellFormed, stops, same⟩ := faulty
    cases stops with
    | truncated present opening => cases same
    | invalid parts broken =>
      cases same
      subst parts
      rw [List.drop_left]
      exact ⟨longest_of_stops wellFormed (.invalid rfl broken), by simp [broken.ne_nil],
        broken_not_opening broken, longest_opening broken⟩
  · intro broken
    obtain ⟨longest, present, notOpening, opening, longestOpening, size⟩ := broken
    cases rest : bytes.drop validUpTo with
    | nil => exact absurd rest present
    | cons byte tail =>
      rw [rest] at notOpening longestOpening
      rcases shape byte tail with ⟨scalar, more, front⟩ | cut | ⟨subpart, more, parts, broken⟩
      · exact absurd (rest.trans front) (longest.no_front scalar more)
      · exact absurd cut notOpening
      · obtain ⟨other, longestOther, length⟩ := longest_opening broken
        rw [← parts] at longestOther
        have same := longestOther.unique longestOpening
        refine ⟨bytes.take validUpTo, byte :: tail, .invalid subpart.length, ?_, longest.2.1,
          .invalid parts broken, ?_⟩
        · rw [← rest, List.take_append_drop]
        · rw [List.length_take, Nat.min_eq_left longest.1, length, same, size]
          rfl

theorem invalid_small {bytes : Bytes} {validUpTo length : Nat}
    (refused : validate bytes = .error (.invalid validUpTo length)) : length ≤ 3 := by
  obtain ⟨valid, rest, subpart, rfl, wellFormed, stops, same⟩ := validate_error_iff.mp refused
  have small := (scan_bounds (scan_stops stops 0)).2.2.1
  cases stops with
  | truncated => cases same
  | invalid =>
    cases same
    exact small

-- Strict reading accepts exactly the well-formed bytes. It says of all others how long their longest
-- well-formed prefix is, and whether the rest is the beginning of an encoding that the input cuts
-- off; if not, how long the subpart is that it stands on.
theorem validate_exact (bytes : Bytes) :
    (validate bytes = .ok () ↔ WellFormed bytes) ∧
      (∀ validUpTo, validate bytes = .error (.incomplete validUpTo) ↔
        LongestPrefix WellFormed bytes validUpTo ∧ bytes.drop validUpTo ≠ [] ∧
          Opening (bytes.drop validUpTo)) ∧
      ∀ validUpTo length, validate bytes = .error (.invalid validUpTo length) ↔
        (LongestPrefix WellFormed bytes validUpTo ∧ bytes.drop validUpTo ≠ [] ∧
          ¬ Opening (bytes.drop validUpTo) ∧
          ∃ opening, LongestPrefix Opening (bytes.drop validUpTo) opening ∧
            length = max 1 opening) ∧
          1 ≤ length ∧ length ≤ 3 ∧ validUpTo + length ≤ bytes.length := by
  refine ⟨validate_ok_iff, fun validUpTo => validate_incomplete_iff, ?_⟩
  intro validUpTo length
  constructor
  · intro refused
    have bounds := validate_invalid refused
    exact ⟨validate_invalid_iff.mp refused, bounds.1, invalid_small refused, bounds.2⟩
  · intro both
    obtain ⟨spoken, _⟩ := both
    exact validate_invalid_iff.mpr spoken

end InternPool.Utf8
