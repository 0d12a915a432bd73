import Mathlib.Data.List.TakeWhile
import InternPool.Handle
import InternPool.Proofs.Utf8.Decoding

namespace InternPool

namespace Utf8

theorem zero_mem_scalar {scalar : Char} :
    0 ∈ String.utf8EncodeChar scalar ↔ scalar = '\x00' := by
  constructor
  · intro member
    rcases encode_ranges scalar with ⟨_, spelled⟩ | ⟨_, high⟩
    · rw [spelled, List.mem_singleton] at member
      apply utf8EncodeChar_injective
      rw [spelled, ← member]
      rfl
    · exact absurd (high 0 member) (by decide)
  · rintro rfl
    exact List.mem_singleton.mpr rfl

end Utf8

theorem cutAtNul_eq_self_iff {content : Bytes} : cutAtNul content = content ↔ 0 ∉ content := by
  simp only [cutAtNul, List.takeWhile_eq_self_iff, bne_iff_ne]
  constructor
  · intro others zero
    exact others 0 zero rfl
  · rintro absent byte member rfl
    exact absent member

theorem cutAtNul_nul (content rest : Bytes) : cutAtNul (content ++ 0 :: rest) = cutAtNul content := by
  induction content with
  | nil => rfl
  | cons byte content ih =>
    by_cases zero : byte = 0
    · simp [cutAtNul, zero]
    · simpa [cutAtNul, zero] using ih

theorem cutAtNul_append {left : Bytes} (absent : 0 ∉ left) (right : Bytes) :
    cutAtNul (left ++ right) = left ++ cutAtNul right := by
  apply List.takeWhile_append_of_pos
  intro byte member
  rw [bne_iff_ne]
  rintro rfl
  exact absent member

theorem cutAtNul_encode (scalars : List Char) :
    cutAtNul (Utf8.encode scalars) = Utf8.encode (scalars.takeWhile (· != '\x00')) := by
  induction scalars with
  | nil => rfl
  | cons scalar scalars ih =>
    by_cases nul : scalar = '\x00'
    · subst nul
      rfl
    · have kept : (scalar != '\x00') = true := bne_iff_ne.mpr nul
      rw [List.takeWhile_cons, if_pos kept, Utf8.encode_cons, Utf8.encode_cons,
        cutAtNul_append (mt Utf8.zero_mem_scalar.mp nul), ih]

theorem cutAtNul_wellFormed {content : Bytes} (wellFormed : Utf8.WellFormed content) :
    Utf8.WellFormed (cutAtNul content) := by
  obtain ⟨scalars, rfl⟩ := wellFormed
  exact ⟨_, (cutAtNul_encode scalars).symm⟩

namespace Utf8

variable {bytes subpart rest : Bytes}

-- The encoding of NUL is one byte, and nothing shorter begins it.
theorem Opening.zero_not_mem (opening : Opening bytes) : 0 ∉ bytes := by
  obtain ⟨scalar, more, missing, spelled⟩ := opening
  intro zero
  have nul := zero_mem_scalar.mp (spelled ▸ List.mem_append_left more zero)
  subst nul
  have begun := List.length_pos_of_mem zero
  have left := List.length_pos_iff.mpr missing
  have sizes : 1 = (bytes ++ more).length := congrArg List.length spelled
  rw [List.length_append] at sizes
  omega

theorem Broken.zero_not_mem (broken : Broken subpart rest) : 0 ∉ subpart := by
  rcases broken with ⟨byte, rfl, nothing⟩ | ⟨_, opening, _⟩
  · intro zero
    rw [← List.mem_singleton.mp zero] at nothing
    exact nothing ⟨'\x00', List.prefix_refl _⟩
  · exact opening.zero_not_mem

-- What stops a subpart may be the NUL that the cut takes away. Then the input ends in the subpart, and
-- that is one replacement too.
theorem decode_broken_cut (broken : Broken subpart rest) :
    decode (subpart ++ cutAtNul rest) = replacementScalar :: decode (cutAtNul rest) := by
  rcases broken with ⟨byte, rfl, nothing⟩ | ⟨present, opening, next, more, rfl, stops⟩
  · exact decode_broken (.inl ⟨byte, rfl, nothing⟩)
  · by_cases nul : next = 0
    · subst nul
      change decode (subpart ++ []) = replacementScalar :: decode []
      rw [List.append_nil, decode_cut present opening, decode_nil]
    · have kept : cutAtNul (next :: more) = next :: cutAtNul more := by
        rw [cutAtNul, List.takeWhile_cons, if_pos (bne_iff_ne.mpr nul)]
        rfl
      rw [kept]
      exact decode_broken (.inr ⟨present, opening, next, cutAtNul more, rfl, stops⟩)

theorem decode_cutAtNul (bytes : Bytes) :
    decode (cutAtNul bytes) = (decode bytes).takeWhile (· != '\x00') := by
  have kept : (replacementScalar != '\x00') = true := by decide
  induction reading bytes with
  | nil => rfl
  | scalar scalar _ ih =>
    rw [decode_scalar, List.takeWhile_cons]
    by_cases nul : scalar = '\x00'
    · subst nul
      rfl
    · rw [cutAtNul_append (mt zero_mem_scalar.mp nul), decode_scalar, ih,
        if_pos (bne_iff_ne.mpr nul)]
  | cut present opening =>
    rw [cutAtNul_eq_self_iff.mpr opening.zero_not_mem, decode_cut present opening,
      List.takeWhile_cons, if_pos kept, List.takeWhile_nil]
  | broken broken _ ih =>
    rw [cutAtNul_append broken.zero_not_mem, decode_broken_cut broken, decode_broken broken,
      List.takeWhile_cons, if_pos kept, ih]

theorem nul_mem_decode : '\x00' ∈ decode bytes ↔ 0 ∈ bytes := by
  have other : '\x00' ≠ replacementScalar := by decide
  induction reading bytes with
  | nil => exact iff_of_false List.not_mem_nil List.not_mem_nil
  | scalar scalar _ ih =>
    rw [decode_scalar, List.mem_cons, List.mem_append, zero_mem_scalar]
    exact or_congr eq_comm ih
  | cut present opening =>
    rw [decode_cut present opening, List.mem_singleton]
    exact iff_of_false other opening.zero_not_mem
  | broken broken _ ih =>
    rw [decode_broken broken, List.mem_cons, List.mem_append, or_iff_right other,
      or_iff_right broken.zero_not_mem]
    exact ih

theorem zero_mem_encode {scalars : List Char} : 0 ∈ encode scalars ↔ '\x00' ∈ scalars := by
  simp only [encode, List.mem_flatMap, zero_mem_scalar, exists_eq_right]

theorem repair_cutAtNul (bytes : Bytes) :
    (repair (cutAtNul bytes)).value = cutAtNul (repair bytes).value := by
  rw [repair_mended, repair_mended, mend_decoding, mend_decoding, decode_cutAtNul, cutAtNul_encode]

theorem zero_mem_repair : 0 ∈ (repair bytes).value ↔ 0 ∈ bytes := by
  rw [repair_mended, mend_decoding, zero_mem_encode, nul_mem_decode]

end Utf8

end InternPool
