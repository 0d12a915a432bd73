import InternPool.Proofs.Utf8.Mended
import InternPool.Utf8.Decoder

namespace InternPool.Utf8

-- A decoder between two sequences.
def idle (emitted : Array Char) : Decoder := { emitted }

namespace Decoder

theorem start_ascii {byte : UInt8} (ascii : isAscii byte = true) (emitted : Array Char) :
    (idle emitted).start byte = idle (emitted.push (Char.ofNat byte.toNat)) := by
  simp only [isAscii, UInt8.lt_iff_toNat_lt, UInt8.reduceToNat, decide_eq_true_eq] at ascii
  rw [start, if_pos]
  · rfl
  · simp only [UInt8.le_iff_toNat_le, UInt8.reduceToNat]
    omega

theorem start_lead {byte : UInt8} {lead : Lead} (announced : Lead.of? byte = some lead)
    (emitted : Array Char) :
    (idle emitted).start byte =
      { value := leadValue lead.width byte
        needed := lead.width - 1
        lower := lead.lower
        upper := lead.upper
        emitted } := by
  unfold Lead.of? at announced
  repeat' split at announced
  all_goals cases announced
  all_goals
    simp only [start, idle, leadValue, Nat.add_one_sub_one]
    grind

theorem start_neither {byte : UInt8} (nothing : ¬ Begins [byte]) (emitted : Array Char) :
    (idle emitted).start byte = idle (emitted.push replacementScalar) := by
  rw [begins_iff, not_or] at nothing
  have large : ¬ byte.toNat < 0x80 := by
    intro ascii
    apply nothing.1
    simpa [isAscii, UInt8.lt_iff_toNat_lt] using ascii
  have outside : ¬ (0xC2 ≤ byte.toNat ∧ byte.toNat ≤ 0xF4) := by
    intro between
    obtain ⟨lead, announced⟩ := Lead.of?_some byte between.1 between.2
    have bounds := Lead.width_bounds announced
    refine nothing.2 ⟨lead, announced, ?_, trivial⟩
    simp only [List.length_nil]
    omega
  simp only [start, idle, UInt8.le_iff_toNat_le, UInt8.reduceToNat]
  rw [if_neg (by omega), if_neg (by omega), if_neg (by omega), if_neg (by omega)]
  rfl

theorem push_idle (emitted : Array Char) (byte : UInt8) :
    (idle emitted).push byte = (idle emitted).start byte := rfl

theorem push_further {decoder : Decoder} {byte : UInt8} (needed : 1 < decoder.needed)
    (inside : decoder.lower ≤ byte ∧ byte ≤ decoder.upper) :
    decoder.push byte =
      { value := decoder.value * 64 + byte.toNat % 64
        needed := decoder.needed - 1
        emitted := decoder.emitted } := by
  rw [push, if_neg (by omega), if_neg, if_neg (by omega)]
  rw [not_or, UInt8.not_lt, UInt8.not_lt]
  exact inside

theorem push_last {decoder : Decoder} {byte : UInt8} (needed : decoder.needed = 1)
    (inside : decoder.lower ≤ byte ∧ byte ≤ decoder.upper) :
    decoder.push byte =
      idle (decoder.emitted.push (Char.ofNat (decoder.value * 64 + byte.toNat % 64))) := by
  rw [push, if_neg (by omega), if_neg, if_pos needed]
  · rfl
  · rw [not_or, UInt8.not_lt, UInt8.not_lt]
    exact inside

theorem push_outside {decoder : Decoder} {byte : UInt8} (needed : decoder.needed ≠ 0)
    (outside : ¬ (decoder.lower ≤ byte ∧ byte ≤ decoder.upper)) :
    decoder.push byte = (idle (decoder.emitted.push replacementScalar)).push byte := by
  rw [push, if_neg needed, if_pos, push_idle]
  · rfl
  · rw [← UInt8.not_le, ← UInt8.not_le, ← Classical.not_and_iff_not_or_not]
    exact outside

theorem foldl_whole {decoder : Decoder} {tail : Bytes} (needed : decoder.needed ≠ 0)
    (whole : tail.length = decoder.needed) (kept : Continues decoder.lower decoder.upper tail) :
    tail.foldl push decoder =
      idle (decoder.emitted.push (Char.ofNat (gather decoder.value tail))) := by
  induction tail generalizing decoder with
  | nil => exact absurd whole.symm needed
  | cons byte rest ih =>
    rw [List.length_cons] at whole
    by_cases last : decoder.needed = 1
    · have empty : rest = [] := List.eq_nil_of_length_eq_zero (by omega)
      subst empty
      rw [List.foldl_cons, push_last last kept.1]
      rfl
    · rw [List.foldl_cons, push_further (by omega) kept.1, ih]
      · rfl
      · simp only
        omega
      · simp only
        omega
      · exact kept.2

-- A decoder that has begun a sequence emits nothing before it knows how the sequence ends, and the
-- range it waits for is what may come next.
theorem foldl_short {decoder : Decoder} {tail : Bytes} (short : tail.length < decoder.needed)
    (kept : Continues decoder.lower decoder.upper tail) :
    ∃ waiting, tail.foldl push decoder = waiting ∧ waiting.needed ≠ 0 ∧
      waiting.emitted = decoder.emitted ∧
      ∀ next, waiting.lower ≤ next ∧ next ≤ waiting.upper →
        Continues decoder.lower decoder.upper (tail ++ [next]) := by
  induction tail generalizing decoder with
  | nil =>
    refine ⟨decoder, rfl, Nat.ne_of_gt short, rfl, ?_⟩
    intro next inside
    exact ⟨inside, trivial⟩
  | cons byte rest ih =>
    rw [List.length_cons] at short
    have pushed := push_further (by omega) kept.1
    have fewer : rest.length < (decoder.push byte).needed := by
      rw [pushed]
      simp only
      omega
    obtain ⟨waiting, reached, needed, emitted, goesOn⟩ := ih fewer (by rw [pushed]; exact kept.2)
    rw [pushed] at emitted goesOn
    refine ⟨waiting, reached, needed, emitted, ?_⟩
    intro next inside
    exact ⟨kept.1, goesOn next inside⟩

-- What begins a sequence leaves the decoder waiting for what may come next.
theorem foldl_opening {bytes : Bytes} (present : bytes ≠ []) (opening : Opening bytes)
    (emitted : Array Char) :
    ∃ waiting, bytes.foldl push (idle emitted) = waiting ∧ waiting.needed ≠ 0 ∧
      waiting.emitted = emitted ∧
      ∀ next, waiting.lower ≤ next ∧ next ≤ waiting.upper → Begins (bytes ++ [next]) := by
  cases bytes with
  | nil => exact absurd rfl present
  | cons byte tail =>
    obtain ⟨lead, announced, short, kept⟩ := opening_iff.mp opening
    have begun := start_lead announced emitted
    have fewer : tail.length < ((idle emitted).start byte).needed := by
      rw [begun]
      simp only
      omega
    obtain ⟨waiting, reached, needed, silent, goesOn⟩ :=
      foldl_short fewer (by rw [begun]; exact kept)
    rw [begun] at silent goesOn
    refine ⟨waiting, reached, needed, silent, ?_⟩
    intro next inside
    rw [List.cons_append, begins_iff]
    refine .inr ⟨lead, announced, ?_, goesOn next inside⟩
    rw [List.length_append, List.length_singleton]
    omega

theorem foldl_scalar (scalar : Char) (emitted : Array Char) :
    (String.utf8EncodeChar scalar).foldl push (idle emitted) = idle (emitted.push scalar) := by
  rcases encode_announced scalar with
    ⟨byte, ascii, spelled⟩ | ⟨byte, lead, tail, spelled, announced, whole, kept⟩
  · have same := utf8EncodeChar_injective (spelled.trans (encode_one ascii).symm)
    rw [spelled, List.foldl_cons, List.foldl_nil, push_idle, start_ascii ascii, ← same]
  · have bounds := Lead.width_bounds announced
    have same := utf8EncodeChar_injective (spelled.trans (encode_gather announced whole kept).symm)
    rw [spelled, List.foldl_cons, push_idle, start_lead announced, foldl_whole _ _ kept, ← same]
    · simp only
      omega
    · simp only
      omega

theorem foldl_broken {subpart rest : Bytes} (broken : Broken subpart rest)
    (emitted : Array Char) :
    (subpart ++ rest).foldl push (idle emitted) =
      rest.foldl push (idle (emitted.push replacementScalar)) := by
  rw [List.foldl_append]
  rcases broken with ⟨byte, rfl, nothing⟩ | ⟨present, opening, next, more, rfl, stops⟩
  · rw [List.foldl_cons, List.foldl_nil, push_idle, start_neither nothing]
  · obtain ⟨waiting, reached, needed, silent, goesOn⟩ := foldl_opening present opening emitted
    have outside : ¬ (waiting.lower ≤ next ∧ next ≤ waiting.upper) :=
      fun inside => stops (goesOn next inside)
    rw [reached, List.foldl_cons, push_outside needed outside, silent, List.foldl_cons]

theorem finish_opening {bytes : Bytes} (present : bytes ≠ []) (opening : Opening bytes)
    (emitted : Array Char) :
    (bytes.foldl push (idle emitted)).finish = emitted.toList ++ [replacementScalar] := by
  obtain ⟨waiting, reached, needed, silent, _⟩ := foldl_opening present opening emitted
  rw [reached, finish, if_neg needed, silent, Array.toList_push]

theorem finish_decode (bytes : Bytes) (emitted : Array Char) :
    (bytes.foldl push (idle emitted)).finish = emitted.toList ++ decode bytes := by
  change _ = _ ++ (bytes.foldl push (idle #[])).finish
  induction reading bytes generalizing emitted with
  | nil => exact (List.append_nil emitted.toList).symm
  | scalar scalar _ ih =>
    rw [List.foldl_append, List.foldl_append, foldl_scalar, foldl_scalar, ih, ih (#[].push scalar)]
    simp
  | cut present opening =>
    rw [finish_opening present opening, finish_opening present opening]
    rfl
  | broken broken _ ih =>
    rw [foldl_broken broken, foldl_broken broken, ih, ih (#[].push replacementScalar)]
    simp

end Decoder

theorem decode_nil : decode [] = [] := rfl

theorem decode_scalar (scalar : Char) (rest : Bytes) :
    decode (String.utf8EncodeChar scalar ++ rest) = scalar :: decode rest := by
  change ((_ : Bytes).foldl Decoder.push (idle #[])).finish = _
  rw [List.foldl_append, Decoder.foldl_scalar, Decoder.finish_decode]
  rfl

theorem decode_cut {bytes : Bytes} (present : bytes ≠ []) (opening : Opening bytes) :
    decode bytes = [replacementScalar] :=
  Decoder.finish_opening present opening #[]

theorem decode_broken {subpart rest : Bytes} (broken : Broken subpart rest) :
    decode (subpart ++ rest) = replacementScalar :: decode rest := by
  change ((_ : Bytes).foldl Decoder.push (idle #[])).finish = _
  rw [Decoder.foldl_broken broken, Decoder.finish_decode]
  rfl

theorem decode_encode (scalars : List Char) : decode (encode scalars) = scalars := by
  induction scalars with
  | nil => exact decode_nil
  | cons scalar rest ih => rw [encode_cons, decode_scalar, ih]

theorem encode_replacement : String.utf8EncodeChar replacementScalar = replacement := by
  decide

theorem mend_decoding (bytes : Bytes) : mend bytes = encode (decode bytes) := by
  induction reading bytes with
  | nil => rw [mend_nil, decode_nil, encode_nil]
  | scalar scalar _ ih => rw [mend_scalar, decode_scalar, encode_cons, ih]
  | cut present opening =>
    rw [mend_cut present opening, decode_cut present opening, encode_cons, encode_nil,
      encode_replacement, List.append_nil]
  | broken broken _ ih =>
    rw [mend_broken broken, decode_broken broken, encode_cons, encode_replacement, ih]

theorem repair_wellFormed (bytes : Bytes) : WellFormed (repair bytes).value := by
  refine ⟨decode bytes, ?_⟩
  rw [repair_mended, mend_decoding]

theorem repair_kept {bytes : Bytes} (wellFormed : WellFormed bytes) :
    (repair bytes).value = bytes := by
  obtain ⟨scalars, rfl⟩ := wellFormed
  rw [repair_mended, mend_decoding, decode_encode]

theorem repair_eq_encode_decode (bytes : Bytes) :
    (repair bytes).value = encode (decode bytes) := by
  rw [repair_mended, mend_decoding]

end InternPool.Utf8
