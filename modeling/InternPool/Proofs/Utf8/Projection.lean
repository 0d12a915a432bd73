import InternPool.Proofs.Utf8.Decoding
import InternPool.Proofs.Utf8.Verdict

namespace InternPool.Utf8

variable {bytes : Bytes}

-- The scan that finds nothing to mend is the one that the strict reading makes.
theorem repair_verdict (bytes : Bytes) :
    (repair bytes = .kept bytes ∧ validate bytes = .ok ()) ∨
      ((repair bytes).isKept = false ∧ validate bytes ≠ .ok ()) := by
  rw [repair, Mending.advance, Mending.start, validate, nextFault, List.drop_zero]
  cases scan 0 bytes with
  | none => exact .inl ⟨rfl, rfl⟩
  | some fault =>
    refine .inr ⟨rfl, ?_⟩
    intro accepted
    cases accepted

theorem repair_isKept_iff : (repair bytes).isKept = true ↔ validate bytes = .ok () := by
  rcases repair_verdict bytes with ⟨kept, accepted⟩ | ⟨rebuilt, refused⟩
  · rw [kept]
    exact iff_of_true rfl accepted
  · rw [rebuilt]
    exact iff_of_false Bool.false_ne_true refused

theorem repair_eq_kept_iff : repair bytes = .kept bytes ↔ validate bytes = .ok () := by
  rw [← repair_isKept_iff]
  constructor
  · intro kept
    rw [kept]
    rfl
  · intro kept
    rcases repair_verdict bytes with ⟨same, _⟩ | ⟨rebuilt, _⟩
    · exact same
    · rw [rebuilt] at kept
      cases kept

theorem ofText_text (wellFormed : WellFormed bytes) : ofText (text bytes) = bytes := by
  obtain ⟨scalars, rfl⟩ := wellFormed
  rw [text, ofText_ofList, decode_encode]

theorem repairText_value (bytes : Bytes) : (repairText bytes).value = text (repair bytes).value := by
  rw [repairText]
  cases repair bytes <;> rfl

theorem repairText_isKept (bytes : Bytes) : (repairText bytes).isKept = (repair bytes).isKept := by
  rw [repairText]
  cases repair bytes <;> rfl

theorem repair_projects (bytes : Bytes) :
    WellFormed (repair bytes).value ∧ validate (repair bytes).value = .ok () ∧
      ((repair bytes).isKept = true ↔ validate bytes = .ok ()) ∧
      (repair bytes = .kept bytes ↔ validate bytes = .ok ()) ∧
      repair (repair bytes).value = .kept (repair bytes).value ∧
      ofText (repairText bytes).value = (repair bytes).value ∧
      (repairText bytes).isKept = (repair bytes).isKept := by
  have wellFormed := repair_wellFormed bytes
  have accepted := validate_ok_iff.mpr wellFormed
  refine ⟨wellFormed, accepted, repair_isKept_iff, repair_eq_kept_iff,
    repair_eq_kept_iff.mpr accepted, ?_, repairText_isKept bytes⟩
  rw [repairText_value, ofText_text wellFormed]

end InternPool.Utf8
