import InternPool.Proofs.Utf8.Decoding
import InternPool.Proofs.Utf8.Verdict

namespace InternPool.Utf8

variable {bytes left right opened : Bytes}

-- The last segment is the beginning of an encoding that the end of the input cuts off.
def BreaksOffIn (bytes opened : Bytes) : Prop :=
  (segments bytes).getLast? = some (.malformed opened (.truncated opened.length))

def Joins (left right : Bytes) : Prop :=
  ∃ opened first rest, BreaksOffIn left opened ∧ right = first :: rest ∧ Begins (opened ++ [first])

theorem breaksOffIn_nil : ¬ BreaksOffIn [] opened := by
  rw [BreaksOffIn, segments_nil]
  nofun

theorem breaksOffIn_scalar (scalar : Char) (rest : Bytes) :
    BreaksOffIn (String.utf8EncodeChar scalar ++ rest) opened ↔ BreaksOffIn rest opened := by
  rw [BreaksOffIn, BreaksOffIn, segments_scalar, List.getLast?_cons]
  cases (segments rest).getLast? <;> simp

theorem breaksOffIn_broken {subpart rest : Bytes} (broken : Broken subpart rest) :
    BreaksOffIn (subpart ++ rest) opened ↔ BreaksOffIn rest opened := by
  rw [BreaksOffIn, BreaksOffIn, segments_broken broken, List.getLast?_cons]
  cases (segments rest).getLast? <;> simp

theorem breaksOffIn_cut (present : bytes ≠ []) (opening : Opening bytes) :
    BreaksOffIn bytes opened ↔ opened = bytes := by
  rw [BreaksOffIn, segments_cut present opening]
  constructor
  · intro last
    cases last
    rfl
  · rintro rfl
    rfl

-- What joins at the seam is told by the end of the first string alone.
theorem joins_congr (same : ∀ opened, BreaksOffIn bytes opened ↔ BreaksOffIn left opened) :
    Joins bytes right ↔ Joins left right := by
  simp only [Joins, same]

-- A subpart of more than one byte begins an encoding.
theorem Broken.begins {more : Bytes} (broken : Broken (left ++ right) more) (present : left ≠ [])
    (beyond : right ≠ []) : Begins (left ++ right) := by
  rcases broken with ⟨alone, single, _⟩ | ⟨_, opens, _⟩
  · have sizes := congrArg List.length single
    have positive := List.length_pos_iff.mpr present
    have further := List.length_pos_iff.mpr beyond
    rw [List.length_singleton, List.length_append] at sizes
    omega
  · exact opens.begins

theorem decode_trailing (trailing : ∀ byte ∈ left, ¬ Begins [byte]) (right : Bytes) :
    (decode (left ++ right)).length = left.length + (decode right).length := by
  induction left with
  | nil => rw [List.nil_append, List.length_nil, Nat.zero_add]
  | cons byte rest ih =>
    obtain ⟨nothing, others⟩ := List.forall_mem_cons.mp trailing
    have broken : Broken [byte] (rest ++ right) := .inl ⟨byte, rfl, nothing⟩
    rw [List.cons_append, ← List.singleton_append, decode_broken broken, List.length_cons, ih others,
      List.length_cons]
    omega

theorem append_beyond {piece more : Bytes} (same : left ++ right = piece ++ more)
    (within : ∀ rest, left ≠ piece ++ rest) :
    ∃ later, later ≠ [] ∧ piece = left ++ later ∧ right = later ++ more := by
  rcases List.append_eq_append_iff.mp same with ⟨later, parts, others⟩ | ⟨rest, parts, _⟩
  · refine ⟨later, ?_, parts, others⟩
    rintro rfl
    exact within [] (by rw [parts, List.append_nil, List.append_nil])
  · exact absurd parts (within rest)

-- No subpart ends before a byte that goes on with what it began.
theorem broken_beyond {subpart more rest : Bytes} {first : UInt8} (broken : Broken subpart more)
    (goesOn : Begins (opened ++ [first])) (front : opened ++ first :: rest = subpart ++ more)
    (others : Bytes) : opened ≠ subpart ++ others := by
  rintro rfl
  rw [List.append_assoc] at goesOn front
  have after : others ++ first :: rest = more := List.append_cancel_left front
  rcases broken with ⟨alone, rfl, nothing⟩ | ⟨_, _, next, later, rfl, stops⟩
  · exact nothing goesOn.left
  · apply stops
    cases others with
    | nil =>
      cases after
      exact goesOn
    | cons head others =>
      cases after
      rw [List.cons_append, List.append_cons] at goesOn
      exact goesOn.left

-- Where the second string goes on with what the first broke off in, the segment there ends beyond the
-- seam.
theorem decode_joined (present : opened ≠ []) (opening : Opening opened) {first : UInt8}
    {rest : Bytes} (goesOn : Begins (opened ++ [first])) :
    ∃ later more, first :: rest = later ++ more ∧ later ≠ [] ∧ (∀ byte ∈ later, ¬ Begins [byte]) ∧
      (decode (opened ++ first :: rest)).length = 1 + (decode more).length := by
  have whole : opened ++ first :: rest ≠ [] := List.append_ne_nil_of_left_ne_nil present _
  obtain ⟨byte, tail, spelled⟩ := List.exists_cons_of_ne_nil whole
  have shapes := shape byte tail
  rw [← spelled] at shapes
  rcases shapes with ⟨scalar, more, front⟩ | cut | ⟨subpart, more, front, broken⟩
  · obtain ⟨later, beyond, piece, others⟩ :=
      append_beyond front (cut_no_front present opening scalar)
    have begun : Begins (opened ++ later) := ⟨scalar, piece ▸ List.prefix_refl _⟩
    refine ⟨later, more, others, beyond, begun.later present, ?_⟩
    rw [front, decode_scalar, List.length_cons, Nat.add_comm]
  · refine ⟨first :: rest, [], (List.append_nil _).symm, List.cons_ne_nil first rest,
      cut.begins.later present, ?_⟩
    rw [decode_cut whole cut, decode_nil]
    rfl
  · obtain ⟨later, beyond, piece, others⟩ := append_beyond front (broken_beyond broken goesOn front)
    rw [piece] at broken
    have begun := broken.begins present beyond
    refine ⟨later, more, others, beyond, begun.later present, ?_⟩
    rw [front, piece, decode_broken broken, List.length_cons, Nat.add_comm]

-- The beginning of an encoding at the end of the input does not start inside the piece that the input
-- begins with.
theorem opening_after {piece rest before : Bytes} (ends : before ++ opened = piece ++ rest)
    (opening : Opening opened) (apart : opened ≠ piece ++ rest)
    (spans : ∀ {front back}, piece = front ++ back → front ≠ [] → back ≠ [] →
      Begins (front ++ back)) :
    ∃ between, between ++ opened = rest := by
  rcases List.append_eq_append_iff.mp ends with ⟨back, parts, rfl⟩ | ⟨between, _, others⟩
  · by_cases atStart : before = []
    · rw [parts, atStart] at apart
      exact absurd rfl apart
    · by_cases empty : back = []
      · exact ⟨[], by rw [empty]; rfl⟩
      · exact absurd opening.begins ((spans parts atStart empty).inner atStart empty rest)
  · exact ⟨between, others.symm⟩

-- An input breaks off in what it ends with, if that is the beginning of an encoding: no such beginning
-- lies inside another segment.
theorem breaksOffIn_iff :
    BreaksOffIn bytes opened ↔ opened ≠ [] ∧ Opening opened ∧ opened <:+ bytes := by
  constructor
  · intro breaks
    induction reading bytes with
    | nil => exact absurd breaks breaksOffIn_nil
    | scalar scalar _ ih =>
      obtain ⟨present, opening, ends⟩ := ih ((breaksOffIn_scalar scalar _).mp breaks)
      exact ⟨present, opening, ends.trans (List.suffix_append _ _)⟩
    | cut present opening =>
      rw [(breaksOffIn_cut present opening).mp breaks]
      exact ⟨present, opening, List.suffix_refl _⟩
    | broken broken _ ih =>
      obtain ⟨present, opening, ends⟩ := ih ((breaksOffIn_broken broken).mp breaks)
      exact ⟨present, opening, ends.trans (List.suffix_append _ _)⟩
  · rintro ⟨present, opening, before, ends⟩
    induction reading bytes generalizing before with
    | nil => exact absurd (List.append_eq_nil_iff.mp ends).2 present
    | scalar scalar _ ih =>
      obtain ⟨between, later⟩ := opening_after ends opening (cut_no_front present opening scalar _)
        fun parts _ _ => ⟨scalar, parts ▸ List.prefix_refl _⟩
      exact (breaksOffIn_scalar scalar _).mpr (ih between later)
    | cut whole cut =>
      rw [breaksOffIn_cut whole cut]
      by_cases empty : before = []
      · rw [← ends, empty, List.nil_append]
      · rw [← ends] at cut
        have inner := cut.begins.inner empty present []
        rw [List.append_nil] at inner
        exact absurd opening.begins inner
    | @broken subpart rest broken _ ih =>
      have apart : opened ≠ subpart ++ rest := by
        rintro rfl
        exact broken_not_opening broken opening
      obtain ⟨between, later⟩ := opening_after ends opening apart fun parts => (parts ▸ broken).begins
      exact (breaksOffIn_broken broken).mpr (ih between later)

theorem decode_append (apart : ¬ Joins left right) :
    decode (left ++ right) = decode left ++ decode right := by
  induction reading left with
  | nil => rfl
  | scalar scalar _ ih =>
    rw [joins_congr fun _ => breaksOffIn_scalar scalar _] at apart
    rw [List.append_assoc, decode_scalar, decode_scalar, ih apart, List.cons_append]
  | broken broken _ ih =>
    rw [joins_congr fun _ => breaksOffIn_broken broken] at apart
    rw [List.append_assoc, decode_broken (broken.append right), decode_broken broken, ih apart,
      List.cons_append]
  | @cut bytes present opening =>
    cases right with
    | nil => rw [List.append_nil, decode_nil, List.append_nil]
    | cons first rest =>
      have stops : ¬ Begins (bytes ++ [first]) := by
        intro goesOn
        exact apart ⟨bytes, first, rest, (breaksOffIn_cut present opening).mpr rfl, rfl, goesOn⟩
      have broken : Broken bytes (first :: rest) := .inr ⟨present, opening, first, rest, rfl, stops⟩
      rw [decode_broken broken, decode_cut present opening, List.singleton_append]

-- What joins is one scalar value fewer at least: the bytes beyond the seam were one each.
theorem decode_append_lt (joins : Joins left right) :
    (decode (left ++ right)).length < (decode left).length + (decode right).length := by
  induction reading left with
  | nil =>
    obtain ⟨_, _, _, breaks, _⟩ := joins
    exact absurd breaks breaksOffIn_nil
  | scalar scalar _ ih =>
    rw [joins_congr fun _ => breaksOffIn_scalar scalar _] at joins
    have fewer := ih joins
    rw [List.append_assoc, decode_scalar, decode_scalar, List.length_cons, List.length_cons]
    omega
  | broken broken _ ih =>
    rw [joins_congr fun _ => breaksOffIn_broken broken] at joins
    have fewer := ih joins
    rw [List.append_assoc, decode_broken (broken.append right), decode_broken broken,
      List.length_cons, List.length_cons]
    omega
  | cut present opening =>
    obtain ⟨opened, first, rest, breaks, rfl, goesOn⟩ := joins
    rw [breaksOffIn_cut present opening] at breaks
    subst breaks
    obtain ⟨later, more, parts, beyond, trailing, joined⟩ := decode_joined present opening goesOn
    have apart := decode_trailing trailing more
    have positive := List.length_pos_iff.mpr beyond
    rw [joined, parts, apart, decode_cut present opening, List.length_singleton]
    omega

theorem not_joins_wellFormed {valid : Bytes} (wellFormed : WellFormed valid) (present : valid ≠ []) :
    ¬ Joins left (valid ++ right) := by
  rintro ⟨opened, first, rest, breaks, parts, goesOn⟩
  obtain ⟨begun, _⟩ := breaksOffIn_iff.mp breaks
  obtain ⟨scalar, more, rfl⟩ := wellFormed.front present
  apply goesOn.later begun first (List.mem_singleton.mpr rfl)
  cases spelled : String.utf8EncodeChar scalar with
  | nil => exact absurd spelled String.utf8EncodeChar_ne_nil
  | cons head tail =>
    rw [spelled] at parts
    cases parts
    exact ⟨scalar, spelled ▸ List.prefix_append [first] tail⟩

theorem decode_wellFormed {valid : Bytes} (wellFormed : WellFormed valid) (rest : Bytes) :
    decode (valid ++ rest) = decode valid ++ decode rest := by
  obtain ⟨scalars, rfl⟩ := wellFormed
  induction scalars with
  | nil => rfl
  | cons scalar scalars ih =>
    rw [encode_cons, List.append_assoc, decode_scalar, decode_scalar, ih, List.cons_append]

theorem repair_append_iff (left right : Bytes) :
    ((repair (left ++ right)).value = (repair left).value ++ (repair right).value ↔
        ¬ Joins left right) ∧
      ∀ valid, WellFormed valid → valid ≠ [] →
        (repair (left ++ valid ++ right)).value =
          (repair left).value ++ valid ++ (repair right).value := by
  simp only [repair_mended, mend_decoding, ← encode_append]
  constructor
  · constructor
    · intro same joins
      have sizes := congrArg List.length (encode_injective same)
      have fewer := decode_append_lt joins
      rw [List.length_append] at sizes
      omega
    · intro apart
      rw [decode_append apart]
  · intro valid wellFormed present
    have kept := repair_kept wellFormed
    rw [repair_mended, mend_decoding] at kept
    rw [List.append_assoc, decode_append (not_joins_wellFormed wellFormed present),
      decode_wellFormed wellFormed, encode_append, encode_append, kept, List.append_assoc]

-- The three bytes of "€" cut after the first join, and come apart where an "a" stands between.
theorem repair_append_iff_euro :
    Joins [0xE2] [0x82, 0xAC] ∧
      (repair ([0xE2] ++ [0x82, 0xAC])).value ≠
        (repair [0xE2]).value ++ (repair [0x82, 0xAC]).value ∧
      WellFormed [0x61] ∧ ([0x61] : Bytes) ≠ [] ∧
      (repair ([0xE2] ++ [0x61] ++ [0x82, 0xAC])).value =
        (repair [0xE2]).value ++ [0x61] ++ (repair [0x82, 0xAC]).value := by
  obtain ⟨exact, around⟩ := repair_append_iff [0xE2] [0x82, 0xAC]
  have opening : Opening [0xE2] := ⟨'€', [0x82, 0xAC], by decide, by decide⟩
  have joins : Joins [0xE2] [0x82, 0xAC] :=
    ⟨[0xE2], 0x82, [0xAC], (breaksOffIn_cut (by decide) opening).mpr rfl, rfl, '€', by decide⟩
  have wellFormed : WellFormed [0x61] := ⟨['a'], by decide⟩
  exact ⟨joins, fun same => exact.mp same joins, wellFormed, by decide,
    around [0x61] wellFormed (by decide)⟩

end InternPool.Utf8
