import InternPool.Proofs.Utf8.Projection

namespace InternPool.Utf8

def Segment.sequence? : Segment → Option Bytes
  | .sequence bytes => some bytes
  | .malformed _ _ => none

def Segment.subpart? : Segment → Option Bytes
  | .sequence _ => none
  | .malformed bytes _ => some bytes

def sequences (bytes : Bytes) : List Bytes :=
  (segments bytes).filterMap Segment.sequence?

def subparts (bytes : Bytes) : List Bytes :=
  (segments bytes).filterMap Segment.subpart?

-- All faults from an offset on, as the scanner comes to them: it goes on behind each.
def faults (bytes : Bytes) (pos : Nat) : List Fault :=
  match _ : nextFault bytes pos with
  | none => []
  | some fault => fault :: faults bytes fault.next
termination_by bytes.length - pos
decreasing_by
  have := scan_bounds ‹_›
  simp only [List.length_drop, Fault.next] at *
  omega

def Fault.within (bytes : Bytes) (fault : Fault) : Bytes :=
  (bytes.drop fault.offset).take fault.subpart.length

def isTrailing (byte : UInt8) : Bool :=
  0x80 ≤ byte && byte ≤ 0xBF

variable {bytes subpart rest : Bytes}

theorem sequences_nil : sequences [] = [] := by
  rw [sequences, segments_nil, List.filterMap_nil]

theorem subparts_nil : subparts [] = [] := by
  rw [subparts, segments_nil, List.filterMap_nil]

theorem sequences_scalar (scalar : Char) (rest : Bytes) :
    sequences (String.utf8EncodeChar scalar ++ rest) =
      String.utf8EncodeChar scalar :: sequences rest := by
  rw [sequences, segments_scalar]
  rfl

theorem subparts_scalar (scalar : Char) (rest : Bytes) :
    subparts (String.utf8EncodeChar scalar ++ rest) = subparts rest := by
  rw [subparts, segments_scalar]
  rfl

theorem sequences_cut (present : bytes ≠ []) (opening : Opening bytes) : sequences bytes = [] := by
  rw [sequences, segments_cut present opening]
  rfl

theorem subparts_cut (present : bytes ≠ []) (opening : Opening bytes) :
    subparts bytes = [bytes] := by
  rw [subparts, segments_cut present opening]
  rfl

theorem sequences_broken (broken : Broken subpart rest) :
    sequences (subpart ++ rest) = sequences rest := by
  rw [sequences, segments_broken broken]
  rfl

theorem subparts_broken (broken : Broken subpart rest) :
    subparts (subpart ++ rest) = subpart :: subparts rest := by
  rw [subparts, segments_broken broken]
  rfl

theorem faults_none {pos : Nat} (clean : nextFault bytes pos = none) : faults bytes pos = [] := by
  rw [faults]
  split
  · rfl
  · rename_i fault found
    rw [clean] at found
    cases found

theorem faults_some {pos : Nat} {fault : Fault} (found : nextFault bytes pos = some fault) :
    faults bytes pos = fault :: faults bytes fault.next := by
  rw [faults]
  split
  · rename_i clean
    rw [found] at clean
    cases clean
  · rename_i other same
    rw [found] at same
    cases same
    rfl

theorem nextFault_left (before rest : Bytes) :
    nextFault (before ++ rest) before.length = scan before.length rest := by
  rw [nextFault, List.drop_left]

-- The scanner passes over a sequence to the fault that it would find behind it.
theorem faults_scalar (before : Bytes) (scalar : Char) (rest : Bytes) :
    faults (before ++ (String.utf8EncodeChar scalar ++ rest)) before.length =
      faults (before ++ String.utf8EncodeChar scalar ++ rest)
        (before ++ String.utf8EncodeChar scalar).length := by
  have same := nextFault_left (before ++ String.utf8EncodeChar scalar) rest
  rw [List.length_append, ← scan_scalar, ← nextFault_left, ← List.length_append,
    List.append_assoc] at same
  rw [List.append_assoc]
  cases found : nextFault (before ++ (String.utf8EncodeChar scalar ++ rest)) before.length with
  | none => rw [faults_none found, faults_none (same.trans found)]
  | some fault => rw [faults_some found, faults_some (same.trans found)]

theorem within_left (before subpart rest : Bytes) (kind : Nat → Subpart)
    (length : (kind subpart.length).length = subpart.length) :
    Fault.within (before ++ (subpart ++ rest)) ⟨before.length, kind subpart.length⟩ = subpart := by
  rw [Fault.within, length, List.drop_left, List.take_left]

-- The faults of the scanner are about the subparts, one after the other.
theorem faults_within (before rest : Bytes) :
    (faults (before ++ rest) before.length).map (Fault.within (before ++ rest)) =
      subparts rest := by
  induction reading rest generalizing before with
  | nil =>
    rw [faults_none (by rw [nextFault_left, scan_nil]), subparts_nil, List.map_nil]
  | scalar scalar _ ih =>
    rw [faults_scalar, subparts_scalar, ← ih, List.append_assoc]
  | @cut rest present opening =>
    have found := scan_cut present opening before.length
    rw [← nextFault_left] at found
    have last : nextFault (before ++ rest) (before.length + rest.length) = none := by
      rw [nextFault, ← List.length_append, List.drop_length, scan_nil]
    rw [faults_some found, Fault.next, Subpart.length, faults_none last,
      subparts_cut present opening]
    have within := within_left before rest [] .truncated rfl
    rw [List.append_nil] at within
    rw [List.map_singleton, within]
  | @broken subpart rest broken _ ih =>
    have found := scan_broken broken before.length
    rw [← nextFault_left] at found
    have others := ih (before ++ subpart)
    rw [List.append_assoc, List.length_append] at others
    rw [faults_some found, List.map_cons, within_left before subpart rest .invalid rfl, Fault.next,
      Subpart.length, others, subparts_broken broken]

theorem length_parts (parts : List Segment) :
    (parts.filterMap Segment.sequence?).flatten.length +
        (parts.filterMap Segment.subpart?).flatten.length =
      (parts.flatMap Segment.bytes).length := by
  induction parts with
  | nil => rfl
  | cons part parts ih =>
    cases part with
    | sequence bytes | malformed bytes subpart =>
      simp only [List.filterMap_cons, Segment.sequence?, Segment.subpart?, Segment.bytes,
        List.flatten_cons, List.flatMap_cons, List.length_append, ← ih]
      omega

theorem length_mended (parts : List Segment) :
    (parts.flatMap Segment.mended).length =
      (parts.filterMap Segment.sequence?).flatten.length +
        3 * (parts.filterMap Segment.subpart?).length := by
  induction parts with
  | nil => rfl
  | cons part parts ih =>
    cases part with
    | sequence bytes =>
      simp only [List.filterMap_cons, Segment.sequence?, Segment.subpart?, Segment.mended,
        List.flatten_cons, List.flatMap_cons, List.length_append, ih]
      omega
    | malformed bytes subpart =>
      have three : replacement.length = 3 := rfl
      simp only [List.filterMap_cons, Segment.sequence?, Segment.subpart?, Segment.mended,
        List.flatMap_cons, List.length_append, List.length_cons, ih, three]
      omega

theorem Opening.length_le (opening : Opening bytes) : bytes.length ≤ 3 := by
  cases bytes with
  | nil => exact Nat.zero_le 3
  | cons byte tail =>
    obtain ⟨lead, announced, short, _⟩ := opening_iff.mp opening
    have widest := (Lead.width_bounds announced).2
    exact Nat.le_of_lt_succ (Nat.lt_of_lt_of_le short widest)

theorem Broken.length_le (broken : Broken subpart rest) : subpart.length ≤ 3 := by
  rcases broken with ⟨byte, rfl, _⟩ | ⟨_, opening, _⟩
  · exact Nat.le_add_left 1 2
  · exact opening.length_le

theorem sequences_encodings (bytes : Bytes) :
    ∀ sequence ∈ sequences bytes, ∃ scalar, String.utf8EncodeChar scalar = sequence := by
  induction reading bytes with
  | nil =>
    rw [sequences_nil]
    exact List.forall_mem_nil _
  | scalar scalar _ ih =>
    rw [sequences_scalar]
    exact List.forall_mem_cons.mpr ⟨⟨scalar, rfl⟩, ih⟩
  | cut present opening =>
    rw [sequences_cut present opening]
    exact List.forall_mem_nil _
  | broken broken _ ih =>
    rw [sequences_broken broken]
    exact ih

theorem subparts_small (bytes : Bytes) :
    ∀ subpart ∈ subparts bytes, 1 ≤ subpart.length ∧ subpart.length ≤ 3 := by
  induction reading bytes with
  | nil =>
    rw [subparts_nil]
    exact List.forall_mem_nil _
  | scalar scalar _ ih =>
    rw [subparts_scalar]
    exact ih
  | cut present opening =>
    rw [subparts_cut present opening]
    exact List.forall_mem_singleton.mpr ⟨List.length_pos_iff.mpr present, opening.length_le⟩
  | broken broken _ ih =>
    rw [subparts_broken broken]
    exact List.forall_mem_cons.mpr
      ⟨⟨List.length_pos_iff.mpr broken.ne_nil, broken.length_le⟩, ih⟩

theorem length_decode (bytes : Bytes) :
    (decode bytes).length = (sequences bytes).length + (subparts bytes).length := by
  induction reading bytes with
  | nil =>
    rw [decode_nil, sequences_nil, subparts_nil]
    rfl
  | scalar scalar _ ih =>
    rw [decode_scalar, sequences_scalar, subparts_scalar, List.length_cons, List.length_cons, ih]
    omega
  | cut present opening =>
    rw [decode_cut present opening, sequences_cut present opening, subparts_cut present opening]
    rfl
  | broken broken _ ih =>
    rw [decode_broken broken, sequences_broken broken, subparts_broken broken, List.length_cons,
      List.length_cons, ih]
    omega

-- U+FFFD may come of the input itself, and then it stands there as a well-formed sequence.
theorem count_decode (bytes : Bytes) :
    (decode bytes).count replacementScalar =
      (subparts bytes).length + (sequences bytes).count replacement := by
  induction reading bytes with
  | nil =>
    rw [decode_nil, sequences_nil, subparts_nil]
    rfl
  | scalar scalar _ ih =>
    have same : (String.utf8EncodeChar scalar == replacement) = (scalar == replacementScalar) := by
      rw [← encode_replacement, Bool.eq_iff_iff, beq_iff_eq, beq_iff_eq]
      exact ⟨utf8EncodeChar_injective, congrArg String.utf8EncodeChar⟩
    rw [decode_scalar, sequences_scalar, subparts_scalar, List.count_cons, List.count_cons, same,
      ih, Nat.add_assoc]
  | cut present opening =>
    rw [decode_cut present opening, sequences_cut present opening, subparts_cut present opening]
    rfl
  | broken broken _ ih =>
    rw [decode_broken broken, sequences_broken broken, subparts_broken broken, List.count_cons_self,
      List.length_cons, ih]
    omega

theorem isTrailing_iff {byte : UInt8} :
    isTrailing byte = true ↔ 0x80 ≤ byte.toNat ∧ byte.toNat ≤ 0xBF := by
  rw [isTrailing, Bool.and_eq_true, decide_eq_true_eq, decide_eq_true_eq, UInt8.le_iff_toNat_le,
    UInt8.le_iff_toNat_le]
  rfl

-- Of each encoding, the first byte alone is no trailing one.
theorem countP_scalar (scalar : Char) :
    (String.utf8EncodeChar scalar).countP (!isTrailing ·) = 1 := by
  rcases encode_announced scalar with
    ⟨byte, ascii, spelled⟩ | ⟨byte, lead, tail, spelled, announced, _, kept⟩
  · have first : isTrailing byte = false := by
      rw [← Bool.not_eq_true, isTrailing_iff]
      simp only [isAscii, UInt8.lt_iff_toNat_lt, UInt8.reduceToNat, decide_eq_true_eq] at ascii
      omega
    rw [spelled, List.countP_cons_of_pos (by rw [first]; rfl), List.countP_nil]
  · have numbers := Lead.of?_numbers announced
    have first : isTrailing byte = false := by
      rw [← Bool.not_eq_true, isTrailing_iff]
      omega
    have none : tail.countP (!isTrailing ·) = 0 := by
      rw [List.countP_eq_zero]
      intro other member
      rw [isTrailing_iff.mpr (kept.trailing (by omega) (by omega) other member)]
      exact Bool.false_ne_true
    rw [spelled, List.countP_cons_of_pos (by rw [first]; rfl), none]

theorem countP_encode (scalars : List Char) :
    (encode scalars).countP (!isTrailing ·) = scalars.length := by
  induction scalars with
  | nil => rfl
  | cons scalar rest ih =>
    rw [encode_cons, List.countP_append, countP_scalar, ih, List.length_cons, Nat.add_comm]

-- Parts of bounded length: how long they are together, and when that is a bound.
theorem length_flatten_between {parts : List Bytes} {least most : Nat}
    (between : ∀ part ∈ parts, least ≤ part.length ∧ part.length ≤ most) :
    least * parts.length ≤ parts.flatten.length ∧ parts.flatten.length ≤ most * parts.length ∧
      (parts.flatten.length = least * parts.length ↔ ∀ part ∈ parts, part.length = least) ∧
      (parts.flatten.length = most * parts.length ↔ ∀ part ∈ parts, part.length = most) := by
  induction parts with
  | nil =>
    exact ⟨Nat.le_refl _, Nat.le_refl _, iff_of_true rfl (List.forall_mem_nil _),
      iff_of_true rfl (List.forall_mem_nil _)⟩
  | cons part parts ih =>
    obtain ⟨first, others⟩ := List.forall_mem_cons.mp between
    obtain ⟨covers, fits, low, high⟩ := ih others
    rw [List.forall_mem_cons, List.forall_mem_cons, ← low, ← high, List.flatten_cons,
      List.length_append, List.length_cons, Nat.mul_succ, Nat.mul_succ]
    omega

structure Measured (bytes : Bytes) : Prop where
  scanned : (faults bytes 0).map (Fault.within bytes) = subparts bytes
  encodings : ∀ sequence ∈ sequences bytes, ∃ scalar, String.utf8EncodeChar scalar = sequence
  small : ∀ subpart ∈ subparts bytes, 1 ≤ subpart.length ∧ subpart.length ≤ 3
  whole : (sequences bytes).flatten.length + (subparts bytes).flatten.length = bytes.length
  length : (repair bytes).value.length =
    (sequences bytes).flatten.length + 3 * (subparts bytes).length
  codePoints : (repairText bytes).value.length = (sequences bytes).length + (subparts bytes).length
  leading : (repair bytes).value.countP (!isTrailing ·) = (repairText bytes).value.length
  replacements : (repairText bytes).value.toList.count replacementScalar =
    (subparts bytes).length + (sequences bytes).count replacement
  least : bytes.length ≤ (repair bytes).value.length
  least_iff : bytes.length = (repair bytes).value.length ↔
    ∀ subpart ∈ subparts bytes, subpart.length = 3
  most : (repair bytes).value.length ≤ 3 * bytes.length
  most_iff : (repair bytes).value.length = 3 * bytes.length ↔
    subparts bytes = bytes.map fun byte => [byte]

theorem repairText_toList (bytes : Bytes) : (repairText bytes).value.toList = decode bytes := by
  rw [repairText_value, text, String.toList_ofList, repair_mended, mend_decoding, decode_encode]

theorem length_whole (bytes : Bytes) :
    (sequences bytes).flatten.length + (subparts bytes).flatten.length = bytes.length := by
  rw [sequences, subparts, length_parts, segments_flatten]

-- Every byte is a subpart for itself just if there is no sequence and no subpart of two bytes.
theorem subparts_single_iff :
    subparts bytes = bytes.map (fun byte => [byte]) ↔
      (sequences bytes).flatten.length = 0 ∧ ∀ subpart ∈ subparts bytes, subpart.length = 1 := by
  constructor
  · intro single
    have whole := length_whole bytes
    rw [single, ← List.flatMap_def, List.flatMap_singleton'] at whole
    refine ⟨by omega, ?_⟩
    rw [single, List.forall_mem_map]
    exact fun byte _ => rfl
  · rintro ⟨none, alone⟩
    induction reading bytes with
    | nil => rw [subparts_nil, List.map_nil]
    | scalar scalar _ _ =>
      have present := List.length_pos_iff.mpr (String.utf8EncodeChar_ne_nil (c := scalar))
      rw [sequences_scalar, List.flatten_cons, List.length_append] at none
      omega
    | @cut bytes present opening =>
      rw [subparts_cut present opening] at alone ⊢
      obtain ⟨byte, rfl⟩ := List.length_eq_one_iff.mp (alone bytes (List.mem_singleton.mpr rfl))
      rfl
    | broken broken _ ih =>
      rw [sequences_broken broken] at none
      rw [subparts_broken broken, List.forall_mem_cons] at alone
      obtain ⟨byte, rfl⟩ := List.length_eq_one_iff.mp alone.1
      rw [subparts_broken broken, ih none alone.2]
      rfl

theorem measured (bytes : Bytes) : Measured bytes := by
  have small := subparts_small bytes
  have whole := length_whole bytes
  have length : (repair bytes).value.length =
      (sequences bytes).flatten.length + 3 * (subparts bytes).length := by
    rw [repair_mended, mend, length_mended]
    rfl
  have codePoints : (repairText bytes).value.length =
      (sequences bytes).length + (subparts bytes).length := by
    rw [← String.length_toList, repairText_toList, length_decode]
  obtain ⟨covers, fits, one, three⟩ := length_flatten_between small
  refine ⟨faults_within [] bytes, sequences_encodings bytes, small, whole, length, codePoints, ?_,
    ?_, ?_, ?_, ?_, ?_⟩
  · rw [← String.length_toList, repairText_toList, repair_mended, mend_decoding, countP_encode]
  · rw [repairText_toList, count_decode]
  · omega
  · rw [← three]
    omega
  · omega
  · rw [subparts_single_iff, ← one]
    omega

end InternPool.Utf8
