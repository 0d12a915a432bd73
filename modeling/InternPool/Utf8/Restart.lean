import InternPool.Utf8.Repair
import InternPool.Utf8.Validate

namespace InternPool.Utf8

theorem validate_invalid {bytes : Bytes} {validUpTo length : Nat}
    (fault : validate bytes = .error (.invalid validUpTo length)) :
    1 ≤ length ∧ validUpTo + length ≤ bytes.length := by
  unfold validate nextFault at fault
  split at fault
  · cases fault
  · rename_i found scanned
    have bounds := scan_bounds scanned
    rcases found with ⟨offset, subpart⟩
    cases subpart with
    | invalid => cases fault; simp_all [Fault.next, Subpart.length]
    | truncated => cases fault

def restart (bytes : Bytes) : Bytes :=
  match _ : validate bytes with
  | .ok () => bytes
  | .error (.incomplete validUpTo) => bytes.take validUpTo ++ replacement
  | .error (.invalid validUpTo length) =>
    bytes.take validUpTo ++ replacement ++ restart (bytes.drop (validUpTo + length))
termination_by bytes.length
decreasing_by
  have := validate_invalid ‹_›
  simp only [List.length_drop]
  omega

end InternPool.Utf8
