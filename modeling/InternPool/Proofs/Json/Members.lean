import Mathlib.Data.List.Basic
import Mathlib.Data.Prod.Basic
import InternPool.Proofs.Json.Writing

namespace InternPool.Json

variable {byte : UInt8} {input rest source inner key value tail after before : Bytes}
  {scalars : List Char} {member : List Char × List Char} {members : List (List Char × List Char)}

def encoded : List Char × List Char → Bytes × Bytes :=
  Prod.map Utf8.encode Utf8.encode

def inTurn {α : Type} (pairs : List (α × α)) : List α :=
  pairs.flatMap fun pair => [pair.1, pair.2]

def textsOf (members : List (List Char × List Char)) : List Bytes :=
  inTurn (members.map encoded)

@[simp]
theorem textsOf_nil : textsOf [] = [] := rfl

@[simp]
theorem textsOf_cons (member : List Char × List Char) (members : List (List Char × List Char)) :
    textsOf (member :: members) =
      Utf8.encode member.1 :: Utf8.encode member.2 :: textsOf members := rfl

theorem encoded_injective : Function.Injective encoded :=
  Function.Injective.prodMap (fun _ _ => Utf8.encode_injective) fun _ _ => Utf8.encode_injective

theorem inPairs_inTurn {α : Type} (pairs : List (α × α)) : inPairs (inTurn pairs) = pairs := by
  induction pairs with
  | nil => rfl
  | cons pair pairs ih => exact congrArg _ ih

theorem map_inPairs {α β : Type} (view : α → β) :
    ∀ items : List α, (inPairs items).map (Prod.map view view) = inPairs (items.map view)
  | [] => rfl
  | [_] => rfl
  | _ :: _ :: rest => congrArg _ (map_inPairs view rest)

theorem map_inTurn {α β : Type} (view : α → β) (pairs : List (α × α)) :
    (inTurn pairs).map view = inTurn (pairs.map (Prod.map view view)) := by
  induction pairs with
  | nil => rfl
  | cons pair pairs ih => exact congrArg _ (congrArg _ ih)

theorem mem_inTurn {α : Type} {pairs : List (α × α)} {item : α} :
    item ∈ inTurn pairs ↔ ∃ pair ∈ pairs, item = pair.1 ∨ item = pair.2 := by
  simp only [inTurn, List.mem_flatMap, List.mem_pair]

theorem inTurn_inPairs_subset {α : Type} : ∀ items : List α, inTurn (inPairs items) ⊆ items
  | [] => List.nil_subset _
  | [_] => List.nil_subset _
  | key :: value :: rest =>
    List.cons_subset_cons key (List.cons_subset_cons value (inTurn_inPairs_subset rest))

theorem textsOf_injective : Function.Injective textsOf := by
  have turns : Function.Injective (inTurn (α := Bytes)) :=
    Function.LeftInverse.injective inPairs_inTurn
  exact turns.comp encoded_injective.list_map

theorem expectByte_blank (visible : ¬ Blank [byte]) (blank : Blank before) (rest : Bytes) :
    expectByte byte (before ++ byte :: rest) = some rest := by
  rw [expectByte, skipBlanks_blank blank, skipBlanks_other visible]
  exact if_pos rfl

theorem expectByte_other {other : UInt8} (visible : ¬ Blank [other]) (differs : other ≠ byte)
    (blank : Blank before) (rest : Bytes) : expectByte byte (before ++ other :: rest) = none := by
  rw [expectByte, skipBlanks_blank blank, skipBlanks_other visible]
  exact if_neg differs

theorem expectByte_split (next : expectByte byte input = some rest) :
    ∃ before, Blank before ∧ input = before ++ byte :: rest := by
  obtain ⟨before, blank, parts⟩ := skipBlanks_split input
  unfold expectByte at next
  split at next
  · cases next
  · rename_i start more same
    rw [same] at parts
    split at next
    · rename_i expected
      cases next
      exact ⟨before, blank, expected ▸ parts⟩
    · cases next

-- A key is read as any text is, but all that is wrong with one is the same error.
theorem expectKey_iff : expectKey input = some (key, rest) ↔ expectText input = .ok (key, rest) := by
  rw [expectKey, expectByte, expectText]
  cases skipBlanks input with
  | nil => simp
  | cons start more =>
    by_cases quoted : start = 0x22
    · simp only [quoted, if_true, Option.bind_some]
      cases readText more <;> simp
    · simp [quoted]

theorem IsText.read (isText : IsText source scalars) (rest : Bytes) :
    ∃ after, Blank after ∧ expectText (source ++ rest) = .ok (Utf8.encode scalars, after ++ rest) := by
  obtain ⟨before, body, after, blank, denotes, ended, rfl⟩ := isText
  exact ⟨after, ended, expectText_iff.mpr
    ⟨before, body, scalars, blank, denotes, rfl, by rw [List.append_assoc, List.cons_append]⟩⟩

theorem expectText_isText (read : expectText input = .ok (value, after ++ rest))
    (blank : Blank after) :
    ∃ source scalars, IsText source scalars ∧ value = Utf8.encode scalars ∧
      input = source ++ rest := by
  obtain ⟨before, body, scalars, opened, denotes, content, whole⟩ := expectText_iff.mp read
  refine ⟨before ++ 0x22 :: body ++ 0x22 :: after, scalars,
    ⟨before, body, after, opened, denotes, blank, rfl⟩, content, ?_⟩
  rw [whole, List.append_assoc _ _ rest, List.cons_append]

theorem IsMember.read (isMember : IsMember source member) (rest : Bytes) :
    ∃ tail after, expectKey (source ++ rest) = some (Utf8.encode member.1, tail) ∧
      expectValue tail = .ok (Utf8.encode member.2, after ++ rest) ∧ Blank after := by
  obtain ⟨key, value, first, second, rfl⟩ := isMember
  obtain ⟨middle, blank, keyRead⟩ := first.read (0x3A :: (value ++ rest))
  obtain ⟨after, ended, valueRead⟩ := second.read rest
  refine ⟨middle ++ 0x3A :: (value ++ rest), after, ?_, ?_, ended⟩
  · rw [List.append_assoc, List.cons_append]
    exact expectKey_iff.mpr keyRead
  · rw [expectValue, expectByte_blank (by simp [Blank]) blank]
    exact valueRead

theorem isMember_read (keyRead : expectKey input = some (key, tail))
    (valueRead : expectValue tail = .ok (value, after)) :
    ∃ source member, IsMember source member ∧ encoded member = (key, value) ∧
      input = source ++ skipBlanks after := by
  obtain ⟨blanks, blank, parts⟩ := skipBlanks_split after
  rw [parts] at valueRead
  unfold expectValue at valueRead
  split at valueRead
  · cases valueRead
  · rename_i opened colon
    obtain ⟨middle, between, rfl⟩ := expectByte_split colon
    obtain ⟨latter, second, isValue, rfl, rfl⟩ := expectText_isText valueRead blank
    obtain ⟨former, first, isKey, rfl, rfl⟩ :=
      expectText_isText (expectKey_iff.mp keyRead) between
    exact ⟨former ++ 0x3A :: latter, (first, second), ⟨former, latter, isKey, isValue, rfl⟩, rfl,
      by rw [List.append_assoc, List.cons_append]⟩

-- One member is read, and what comes after it decides how it goes on.
theorem IsMember.step (isMember : IsMember source member) (done : List Bytes) {mark : UInt8}
    (visible : ¬ Blank [mark]) (rest : Bytes) :
    readMembers done (source ++ mark :: rest) =
      if mark = 0x7D then ⟨done.reverse ++ textsOf [member], .ok rest⟩
      else if mark = 0x2C then
        readMembers (Utf8.encode member.2 :: Utf8.encode member.1 :: done) rest
      else ⟨done.reverse ++ textsOf [member], .error .malformed⟩ := by
  obtain ⟨tail, after, keyRead, valueRead, blank⟩ := isMember.read (mark :: rest)
  have next : skipBlanks (after ++ mark :: rest) = mark :: rest := by
    rw [skipBlanks_blank blank, skipBlanks_other visible]
  rw [readMembers]
  split
  · rename_i missing
    rw [keyRead] at missing
    cases missing
  rename_i found
  rw [keyRead] at found
  cases found
  split
  · rename_i failed
    rw [valueRead] at failed
    cases failed
  rename_i found
  rw [valueRead] at found
  cases found
  split
  · rename_i missing
    rw [next] at missing
    cases missing
  rename_i more
  rw [next] at more
  cases more
  simp

theorem AreMembers.read (are : AreMembers inner members) (done : List Bytes) (rest : Bytes) :
    readMembers done (inner ++ 0x7D :: rest) = ⟨done.reverse ++ textsOf members, .ok rest⟩ := by
  induction are generalizing done with
  | last only => rw [only.step done (by simp [Blank]), if_pos rfl]
  | more first others ih =>
    rw [List.append_assoc, List.cons_append, first.step done (by simp [Blank]),
      if_neg (by decide), if_pos rfl, ih]
    simp

theorem readMembers_are {done : List Bytes} (ended : (readMembers done input).ended = .ok rest) :
    ∃ inner members, AreMembers inner members ∧
      (readMembers done input).texts = done.reverse ++ textsOf members ∧
      input = inner ++ 0x7D :: rest := by
  fun_induction readMembers done input with
  | case1 | case2 | case3 | case6 => cases ended
  | case4 done input key tail keyRead value after valueRead rest next =>
    cases ended
    obtain ⟨source, member, isMember, same, whole⟩ := isMember_read keyRead valueRead
    cases same
    rw [next] at whole
    exact ⟨source, [member], .last isMember, by simp, whole⟩
  | case5 done input key tail keyRead value after valueRead more next _ ih =>
    obtain ⟨inner, members, are, texts, rfl⟩ := ih ended
    obtain ⟨source, member, isMember, same, whole⟩ := isMember_read keyRead valueRead
    cases same
    rw [next] at whole
    refine ⟨source ++ 0x2C :: inner, member :: members, .more isMember are, ?_, ?_⟩
    · rw [texts]
      simp
    · rw [whole, List.append_assoc, List.cons_append]

theorem IsMember.opens (isMember : IsMember source member) :
    ∃ before rest, Blank before ∧ source = before ++ 0x22 :: rest := by
  obtain ⟨_, value, ⟨before, body, after, blank, _, _, rfl⟩, _, rfl⟩ := isMember
  refine ⟨before, body ++ 0x22 :: after ++ 0x3A :: value, blank, ?_⟩
  simp only [List.append_assoc, List.cons_append]

theorem AreMembers.opens (are : AreMembers inner members) :
    ∃ before rest, Blank before ∧ inner = before ++ 0x22 :: rest := by
  cases are with
  | last only => exact only.opens
  | more first =>
    obtain ⟨before, rest, blank, rfl⟩ := first.opens
    exact ⟨before, rest ++ 0x2C :: _, blank, List.append_assoc _ _ _⟩

theorem IsBody.read (body : IsBody inner members) (blank : Blank before) (rest : Bytes) :
    expectObject (before ++ 0x7B :: inner ++ 0x7D :: rest) = ⟨textsOf members, .ok rest⟩ := by
  rw [List.append_assoc, List.cons_append, expectObject, skipBlanks_blank blank,
    skipBlanks_other (by simp [Blank])]
  dsimp only
  rw [if_pos rfl]
  cases body with
  | none between =>
    rw [expectByte_blank (by simp [Blank]) between]
    rfl
  | some are =>
    obtain ⟨blanks, others, between, rfl⟩ := are.opens
    rw [List.append_assoc, List.cons_append, expectByte_other (by simp [Blank]) (by decide) between,
      ← List.cons_append, ← List.append_assoc]
    exact are.read [] rest

theorem expectObject_body (ended : (expectObject source).ended = .ok rest) :
    ∃ before inner members, Blank before ∧ IsBody inner members ∧
      (expectObject source).texts = textsOf members ∧
      source = before ++ 0x7B :: inner ++ 0x7D :: rest := by
  obtain ⟨before, blank, parts⟩ := skipBlanks_split source
  unfold expectObject at ended ⊢
  split at ended
  · cases ended
  rename_i start more same
  rw [same] at parts
  split at ended
  · rename_i opens
    subst opens
    rw [if_pos rfl]
    split at ended
    · rename_i after closes
      obtain ⟨inner, between, rfl⟩ := expectByte_split closes
      cases ended
      exact ⟨before, inner, [], blank, .none between, rfl, by simpa using parts⟩
    · obtain ⟨inner, members, are, texts, rfl⟩ := readMembers_are ended
      exact ⟨before, inner, members, blank, .some are, texts, by simpa using parts⟩
  · cases ended

theorem isObject_iff :
    IsObject source members ↔
      ∃ rest, expectObject source = ⟨textsOf members, .ok rest⟩ ∧ isOver rest = true := by
  simp only [isOver_iff]
  constructor
  · rintro ⟨before, inner, rest, blank, body, ended, rfl⟩
    exact ⟨rest, body.read blank rest, ended⟩
  · rintro ⟨rest, read, ended⟩
    obtain ⟨before, inner, others, blank, body, texts, whole⟩ :=
      expectObject_body (congrArg Members.ended read)
    rw [read] at texts
    rw [textsOf_injective texts]
    exact ⟨before, inner, rest, blank, body, ended, whole⟩

theorem isObject_of_ended (ended : (expectObject source).ended = .ok rest)
    (atEnd : isOver rest = true) : ∃ members, IsObject source members := by
  obtain ⟨before, inner, members, blank, body, _, whole⟩ := expectObject_body ended
  exact ⟨members, before, inner, rest, blank, body, isOver_iff.mp atEnd, whole⟩

theorem expectValue_wellFormed (read : expectValue input = .ok (value, rest)) :
    Utf8.WellFormed value := by
  unfold expectValue at read
  split at read
  · cases read
  · exact expectText_wellFormed read

-- The strings before a fault are well formed too.
theorem readMembers_wellFormed {done : List Bytes} (known : ∀ text ∈ done, Utf8.WellFormed text) :
    ∀ text ∈ (readMembers done input).texts, Utf8.WellFormed text := by
  have keyed {done : List Bytes} {input key tail : Bytes}
      (read : expectKey input = some (key, tail)) (known : ∀ text ∈ done, Utf8.WellFormed text) :
      ∀ text ∈ key :: done, Utf8.WellFormed text :=
    List.forall_mem_cons.mpr ⟨expectText_wellFormed (expectKey_iff.mp read), known⟩
  have valued {done : List Bytes} {input value tail : Bytes}
      (read : expectValue input = .ok (value, tail)) (known : ∀ text ∈ done, Utf8.WellFormed text) :
      ∀ text ∈ value :: done, Utf8.WellFormed text :=
    List.forall_mem_cons.mpr ⟨expectValue_wellFormed read, known⟩
  fun_induction readMembers done input with
  | case1 => simpa only [List.mem_reverse] using known
  | case2 done _ key _ keyRead =>
    simpa only [List.mem_reverse] using keyed keyRead known
  | case3 done _ key _ keyRead value _ valueRead | case4 done _ key _ keyRead value _ valueRead
  | case6 done _ key _ keyRead value _ valueRead =>
    simpa only [List.mem_reverse] using valued valueRead (keyed keyRead known)
  | case5 done _ key _ keyRead value _ valueRead _ _ _ ih =>
    exact ih (valued valueRead (keyed keyRead known))

theorem expectObject_wellFormed :
    ∀ text ∈ (expectObject source).texts, Utf8.WellFormed text := by
  unfold expectObject
  split
  · exact List.forall_mem_nil _
  split
  · split
    · exact List.forall_mem_nil _
    · exact readMembers_wellFormed (List.forall_mem_nil _)
  · exact List.forall_mem_nil _

theorem writeMember_isMember (member : List Char × List Char) :
    IsMember (writeText (encoded member).1 ++ 0x3A :: writeText (encoded member).2) member :=
  ⟨_, _, writeText_isText member.1, writeText_isText member.2, rfl⟩

theorem writeMembers_are (member : List Char × List Char) (members : List (List Char × List Char)) :
    AreMembers
      ([(0x2C : UInt8)].intercalate (((member :: members).map encoded).map fun (key, value) =>
        writeText key ++ 0x3A :: writeText value)) (member :: members) := by
  induction members generalizing member with
  | nil =>
    rw [List.map_singleton, List.map_singleton, List.intercalate_singleton]
    exact .last (writeMember_isMember member)
  | cons next members ih =>
    rw [List.map_cons, List.map_cons, List.map_cons, List.map_cons, List.intercalate_cons_cons,
      List.append_assoc]
    exact .more (writeMember_isMember member) (ih next)

theorem writeObject_isObject (members : List (List Char × List Char)) :
    IsObject (writeObject (members.map encoded)) members := by
  refine ⟨[], _, [], nofun, ?_, nofun, rfl⟩
  cases members with
  | nil => exact .none nofun
  | cons member members => exact .some (writeMembers_are member members)

end InternPool.Json
