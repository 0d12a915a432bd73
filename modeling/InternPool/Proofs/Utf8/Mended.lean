import InternPool.Proofs.Utf8.Segments
import InternPool.Utf8.Repair

namespace InternPool.Utf8

def Segment.mended : Segment → Bytes
  | .sequence bytes => bytes
  | .malformed _ _ => replacement

def mend (bytes : Bytes) : Bytes :=
  (segments bytes).flatMap Segment.mended

theorem mend_nil : mend [] = [] := by
  rw [mend, segments_nil, List.flatMap_nil]

theorem mend_scalar (scalar : Char) (rest : Bytes) :
    mend (String.utf8EncodeChar scalar ++ rest) = String.utf8EncodeChar scalar ++ mend rest := by
  rw [mend, segments_scalar, List.flatMap_cons]
  rfl

theorem mend_cut {bytes : Bytes} (present : bytes ≠ []) (opening : Opening bytes) :
    mend bytes = replacement := by
  rw [mend, segments_cut present opening]
  rfl

theorem mend_broken {subpart rest : Bytes} (broken : Broken subpart rest) :
    mend (subpart ++ rest) = replacement ++ mend rest := by
  rw [mend, segments_broken broken, List.flatMap_cons]
  rfl

theorem mend_faultless {pos : Nat} {bytes : Bytes} (faultless : scan pos bytes = none) :
    mend bytes = bytes := by
  induction reading bytes generalizing pos with
  | nil => exact mend_nil
  | scalar scalar _ ih =>
    rw [scan_scalar] at faultless
    rw [mend_scalar, ih faultless]
  | cut present opening =>
    rw [scan_cut present opening] at faultless
    cases faultless
  | broken broken _ _ =>
    rw [scan_broken broken] at faultless
    cases faultless

theorem mend_fault {pos : Nat} {bytes : Bytes} {fault : Fault}
    (found : scan pos bytes = some fault) :
    mend bytes = bytes.take (fault.offset - pos) ++ replacement ++
      mend (bytes.drop (fault.next - pos)) := by
  induction reading bytes generalizing pos with
  | nil =>
    rw [scan_nil] at found
    cases found
  | scalar scalar _ ih =>
    rw [scan_scalar] at found
    have bounds := scan_bounds found
    have offset : fault.offset - pos = (String.utf8EncodeChar scalar).length +
        (fault.offset - (pos + (String.utf8EncodeChar scalar).length)) := by omega
    have next : fault.next - pos = (String.utf8EncodeChar scalar).length +
        (fault.next - (pos + (String.utf8EncodeChar scalar).length)) := by
      simp only [Fault.next] at bounds ⊢
      omega
    rw [mend_scalar, ih found, offset, next, List.take_length_add_append,
      List.drop_length_add_append]
    simp only [List.append_assoc]
  | @cut bytes present opening =>
    rw [scan_cut present opening] at found
    cases found
    simp [mend_cut present opening, Fault.next, Subpart.length, mend_nil]
  | broken broken _ _ =>
    rw [scan_broken broken] at found
    cases found
    simp [mend_broken broken, Fault.next, Subpart.length]

theorem intercalate_snoc (separator : Bytes) (runs : List Bytes) (last : Bytes) :
    separator.intercalate (runs ++ [last]) = runs.flatMap (· ++ separator) ++ last := by
  induction runs with
  | nil => exact List.intercalate_singleton
  | cons run runs ih =>
    rw [List.cons_append, List.flatMap_cons, List.append_assoc, ← ih,
      List.intercalate_cons_of_ne_nil (List.concat_ne_nil last runs), List.append_assoc]

theorem finish_mended (mending : Mending) :
    replacement.intercalate mending.finish =
      mending.runs.reverse.flatMap (· ++ replacement) ++ mend mending.rest := by
  fun_induction Mending.finish mending with
  | case1 mending next advanced ih =>
    unfold Mending.advance at advanced
    split at advanced
    · cases advanced
    · rename_i fault found
      cases advanced
      rw [ih, mend_fault found]
      simp
  | case2 mending stopped =>
    unfold Mending.advance at stopped
    split at stopped
    · rename_i faultless
      rw [List.reverse_cons, intercalate_snoc, mend_faultless faultless]
    · cases stopped

theorem repair_mended (bytes : Bytes) : (repair bytes).value = mend bytes := by
  rw [repair]
  split
  · rename_i stopped
    unfold Mending.advance at stopped
    split at stopped
    · rename_i faultless
      exact (mend_faultless faultless).symm
    · cases stopped
  · rename_i first advanced
    have whole := finish_mended (Mending.start bytes)
    rw [Mending.finish] at whole
    split at whole
    · rename_i next same
      rw [advanced] at same
      cases same
      exact whole
    · rename_i stopped
      rw [advanced] at stopped
      cases stopped

end InternPool.Utf8
