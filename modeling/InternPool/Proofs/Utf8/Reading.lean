import InternPool.Proofs.Utf8.Spelling
import InternPool.Utf8.Segment

namespace InternPool.Utf8

-- An ill-formed subpart with the input after it: a byte that begins no encoding, or the beginning of
-- one with a byte after it that does not go on with any.
def Broken (subpart rest : Bytes) : Prop :=
  (∃ byte, subpart = [byte] ∧ ¬ Begins [byte]) ∨
    (subpart ≠ [] ∧ Opening subpart ∧
      ∃ next more, rest = next :: more ∧ ¬ Begins (subpart ++ [next]))

inductive Reading : Bytes → Prop where
  | nil : Reading []
  | scalar (scalar : Char) {rest : Bytes} (after : Reading rest) :
      Reading (String.utf8EncodeChar scalar ++ rest)
  | cut {bytes : Bytes} (present : bytes ≠ []) (opening : Opening bytes) : Reading bytes
  | broken {subpart rest : Bytes} (broken : Broken subpart rest) (after : Reading rest) :
      Reading (subpart ++ rest)

theorem Broken.ne_nil {subpart rest : Bytes} (broken : Broken subpart rest) : subpart ≠ [] := by
  rcases broken with ⟨byte, rfl, _⟩ | ⟨present, _⟩
  · exact List.cons_ne_nil byte []
  · exact present

-- What comes after the byte that stops a subpart has no part in it.
theorem Broken.append {subpart rest : Bytes} (broken : Broken subpart rest) (more : Bytes) :
    Broken subpart (rest ++ more) := by
  rcases broken with alone | ⟨present, opening, next, others, rfl, stops⟩
  · exact .inl alone
  · exact .inr ⟨present, opening, next, others ++ more, rfl, stops⟩

theorem follow_whole {need seen : Nat} {lower upper : UInt8} {bytes : Bytes}
    (fits : need ≤ bytes.length) (kept : Continues lower upper (bytes.take need)) :
    follow need seen lower upper bytes = .ok (seen + need) := by
  induction need generalizing seen lower upper bytes with
  | zero => rfl
  | succ need ih =>
    cases bytes with
    | nil => cases fits
    | cons byte rest =>
      rw [List.take_succ_cons] at kept
      rw [follow, if_pos kept.1, ih (Nat.le_of_succ_le_succ fits) kept.2]
      congr 1
      omega

theorem follow_cut {need seen : Nat} {lower upper : UInt8} {bytes : Bytes}
    (short : bytes.length < need) (kept : Continues lower upper bytes) :
    follow need seen lower upper bytes = .error (.truncated (seen + bytes.length)) := by
  induction bytes generalizing need seen lower upper with
  | nil =>
    cases need with
    | zero => cases short
    | succ need => rfl
  | cons byte rest ih =>
    cases need with
    | zero => cases short
    | succ need =>
      rw [follow, if_pos kept.1, ih (Nat.lt_of_succ_lt_succ short) kept.2, List.length_cons]
      congr 2
      omega

theorem follow_broken {need seen : Nat} {lower upper next : UInt8} {left rest : Bytes}
    (short : left.length < need) (kept : Continues lower upper left)
    (stops : ¬ Continues lower upper (left ++ [next])) :
    follow need seen lower upper (left ++ next :: rest) =
      .error (.invalid (seen + left.length)) := by
  induction left generalizing need seen lower upper with
  | nil =>
    cases need with
    | zero => cases short
    | succ need =>
      rw [List.nil_append, follow, if_neg]
      · rfl
      · intro inside
        exact stops ⟨inside, trivial⟩
  | cons byte left ih =>
    cases need with
    | zero => cases short
    | succ need =>
      rw [List.cons_append, follow, if_pos kept.1, ih (Nat.lt_of_succ_lt_succ short) kept.2,
        List.length_cons]
      · congr 2
        omega
      · intro goesOn
        exact stops ⟨kept.1, goesOn⟩

theorem continues_cases (need : Nat) (lower upper : UInt8) (bytes : Bytes) :
    (need ≤ bytes.length ∧ Continues lower upper (bytes.take need)) ∨
      (bytes.length < need ∧ Continues lower upper bytes) ∨
      ∃ left next rest, bytes = left ++ next :: rest ∧ left.length < need ∧
        Continues lower upper left ∧ ¬ Continues lower upper (left ++ [next]) := by
  induction need generalizing lower upper bytes with
  | zero => exact .inl ⟨Nat.zero_le _, trivial⟩
  | succ need ih =>
    cases bytes with
    | nil => exact .inr (.inl ⟨Nat.succ_pos need, trivial⟩)
    | cons byte rest =>
      by_cases inside : lower ≤ byte ∧ byte ≤ upper
      · rcases ih 0x80 0xBF rest with
          ⟨fits, kept⟩ | ⟨short, kept⟩ | ⟨left, next, more, rfl, short, kept, stops⟩
        · exact .inl ⟨Nat.succ_le_succ fits, inside, kept⟩
        · exact .inr (.inl ⟨Nat.succ_lt_succ short, inside, kept⟩)
        · refine .inr (.inr ⟨byte :: left, next, more, rfl, Nat.succ_lt_succ short,
            ⟨inside, kept⟩, ?_⟩)
          intro goesOn
          exact stops goesOn.2
      · refine .inr (.inr ⟨[], byte, rest, rfl, Nat.succ_pos need, trivial, ?_⟩)
        intro goesOn
        exact inside goesOn.1

theorem readOne_ascii {byte : UInt8} (ascii : isAscii byte = true) (rest : Bytes) :
    readOne byte rest = .ok 1 := by
  rw [readOne, if_pos ascii]

theorem readOne_lead {byte : UInt8} {lead : Lead} (announced : Lead.of? byte = some lead)
    (rest : Bytes) :
    readOne byte rest = follow (lead.width - 1) 1 lead.lower lead.upper rest := by
  rw [readOne, if_neg (by rw [Lead.not_ascii announced]; decide), readSequence, announced]

theorem readOne_scalar (scalar : Char) {byte : UInt8} {rest more : Bytes}
    (whole : byte :: rest = String.utf8EncodeChar scalar ++ more) :
    readOne byte rest = .ok (String.utf8EncodeChar scalar).length := by
  rcases encode_announced scalar with
    ⟨first, ascii, spelled⟩ | ⟨first, lead, tail, spelled, announced, length, kept⟩
  · rw [spelled, List.singleton_append] at whole
    cases whole
    rw [readOne_ascii ascii, spelled, List.length_singleton]
  · rw [spelled, List.cons_append] at whole
    cases whole
    have need : lead.width - 1 = tail.length := by omega
    rw [readOne_lead announced, need, follow_whole, spelled, List.length_cons, Nat.add_comm]
    · simp
    · simpa using kept

theorem readOne_opening {byte : UInt8} {rest : Bytes} (opening : Opening (byte :: rest)) :
    readOne byte rest = .error (.truncated (rest.length + 1)) := by
  obtain ⟨lead, announced, short, kept⟩ := opening_iff.mp opening
  rw [readOne_lead announced, follow_cut (by omega) kept, Nat.add_comm]

theorem readOne_broken {subpart rest more : Bytes} {byte : UInt8} (broken : Broken subpart more)
    (whole : byte :: rest = subpart ++ more) :
    readOne byte rest = .error (.invalid subpart.length) := by
  rcases broken with ⟨first, rfl, nothing⟩ | ⟨present, opening, next, later, rfl, stops⟩
  · cases whole
    rw [begins_iff, not_or] at nothing
    have silent : Lead.of? byte = none := by
      cases announced : Lead.of? byte with
      | none => rfl
      | some lead =>
        have bounds := Lead.width_bounds announced
        refine absurd ⟨lead, announced, ?_, trivial⟩ nothing.2
        simp only [List.length_nil]
        omega
    rw [readOne, if_neg (fun ascii => nothing.1 ⟨ascii, rfl⟩), readSequence, silent]
    rfl
  · cases subpart with
    | nil => exact absurd rfl present
    | cons first tail =>
      rw [List.cons_append] at whole
      cases whole
      obtain ⟨lead, announced, short, kept⟩ := opening_iff.mp opening
      rw [readOne_lead announced, follow_broken (by omega) kept, List.length_cons, Nat.add_comm]
      intro goesOn
      apply stops
      rw [List.cons_append, begins_iff]
      refine .inr ⟨lead, announced, ?_, goesOn⟩
      rw [List.length_append, List.length_singleton]
      omega

theorem shape (byte : UInt8) (rest : Bytes) :
    (∃ scalar more, byte :: rest = String.utf8EncodeChar scalar ++ more) ∨
      Opening (byte :: rest) ∨
      ∃ subpart more, byte :: rest = subpart ++ more ∧ Broken subpart more := by
  by_cases ascii : isAscii byte = true
  · obtain ⟨scalar, spelled⟩ := spelled_iff.mpr (.inl ⟨ascii, rfl⟩)
    exact .inl ⟨scalar, rest, by rw [spelled, List.singleton_append]⟩
  cases announced : Lead.of? byte with
  | none =>
    refine .inr (.inr ⟨[byte], rest, rfl, .inl ⟨byte, rfl, ?_⟩⟩)
    rw [begins_iff, announced]
    simp [ascii]
  | some lead =>
    rcases continues_cases (lead.width - 1) lead.lower lead.upper rest with
      ⟨fits, kept⟩ | ⟨short, kept⟩ | ⟨left, next, more, rfl, short, kept, stops⟩
    · have bounds := Lead.width_bounds announced
      have whole : (rest.take (lead.width - 1)).length + 1 = lead.width := by
        rw [List.length_take]
        omega
      obtain ⟨scalar, spelled⟩ := spelled_iff.mpr (.inr ⟨lead, announced, whole, kept⟩)
      refine .inl ⟨scalar, rest.drop (lead.width - 1), ?_⟩
      rw [spelled, List.cons_append, List.take_append_drop]
    · exact .inr (.inl (opening_iff.mpr ⟨lead, announced, by omega, kept⟩))
    · refine .inr (.inr ⟨byte :: left, next :: more, rfl, .inr ⟨List.cons_ne_nil _ _, ?_, ?_⟩⟩)
      · exact opening_iff.mpr ⟨lead, announced, by omega, kept⟩
      · refine ⟨next, more, rfl, ?_⟩
        rw [List.cons_append, begins_iff]
        intro either
        rcases either with ⟨_, empty⟩ | ⟨other, same, _, goesOn⟩
        · exact absurd empty (by simp)
        · rw [announced] at same
          cases same
          exact stops goesOn

theorem reading (bytes : Bytes) : Reading bytes := by
  induction length : bytes.length using Nat.strongRecOn generalizing bytes with
  | ind size ih =>
    subst length
    cases bytes with
    | nil => exact .nil
    | cons byte rest =>
      rcases shape byte rest with ⟨scalar, more, whole⟩ | opening | ⟨subpart, more, whole, broken⟩
      · rw [whole]
        refine .scalar scalar (ih more.length ?_ more rfl)
        have positive := List.length_pos_iff.mpr (String.utf8EncodeChar_ne_nil (c := scalar))
        rw [whole, List.length_append]
        omega
      · exact .cut (List.cons_ne_nil byte rest) opening
      · rw [whole]
        refine .broken broken (ih more.length ?_ more rfl)
        have positive := List.length_pos_iff.mpr broken.ne_nil
        rw [whole, List.length_append]
        omega

end InternPool.Utf8
