import Mathlib.Data.List.TakeWhile
import InternPool.Json.Document
import InternPool.Proofs.Json.Escapes
import InternPool.Proofs.Utf8.Verdict

namespace InternPool.Json

variable {body content input rest source : Bytes} {scalar : Char} {scalars : List Char}

def Plain (byte : UInt8) : Prop :=
  ¬ byte < 0x20 ∧ byte ≠ 0x22 ∧ byte ≠ 0x5C

-- What stands between the quotes, read piece by piece: bytes as they are, and escapes.
inductive Taken : Bytes → Bytes → Prop where
  | nil : Taken [] []
  | plain {byte : UInt8} {body content : Bytes} (visible : Plain byte)
      (others : Taken body content) : Taken (byte :: body) (byte :: content)
  | escape {letters body content : Bytes} {scalar : Char} (spells : Spells (0x5C :: letters) scalar)
      (others : Taken body content) :
      Taken (0x5C :: letters ++ body) (String.utf8EncodeChar scalar ++ content)

theorem visible_above (large : 0x80 ≤ scalar.toNat) :
    0x20 ≤ scalar.toNat ∧ scalar ≠ '"' ∧ scalar ≠ '\\' := by
  refine ⟨by omega, ?_, ?_⟩
  · rintro rfl
    exact absurd large (by decide)
  · rintro rfl
    exact absurd large (by decide)

theorem plain_encoding :
    (∀ byte ∈ String.utf8EncodeChar scalar, Plain byte) ↔
      0x20 ≤ scalar.toNat ∧ scalar ≠ '"' ∧ scalar ≠ '\\' := by
  rcases Utf8.encode_ranges scalar with ⟨small, alone⟩ | ⟨large, high⟩
  · have named {other : Char} {byte : UInt8} (spelled : String.utf8EncodeChar other = [byte]) :
        UInt8.ofNat scalar.toNat = byte ↔ scalar = other := by
      rw [← List.singleton_inj, ← alone, ← spelled]
      exact ⟨Utf8.utf8EncodeChar_injective, congrArg _⟩
    have quote : UInt8.ofNat scalar.toNat = 0x22 ↔ scalar = '"' := named rfl
    have slash : UInt8.ofNat scalar.toNat = 0x5C ↔ scalar = '\\' := named rfl
    have visible : ¬ UInt8.ofNat scalar.toNat < 0x20 ↔ 0x20 ≤ scalar.toNat := by
      simp only [UInt8.lt_iff_toNat_lt, UInt8.toNat_ofNat', UInt8.reduceToNat]
      omega
    rw [alone, List.forall_mem_singleton, Plain, Ne, Ne, quote, slash, visible]
  · refine iff_of_true ?_ (visible_above large)
    intro byte member
    have above := high byte member
    refine ⟨?_, ?_, ?_⟩
    · simp only [UInt8.lt_iff_toNat_lt, UInt8.reduceToNat]
      omega
    · rintro rfl
      exact absurd above (by decide)
    · rintro rfl
      exact absurd above (by decide)

-- Pieces are put before those that were read earlier.
theorem Taken.read (taken : Taken body content) (done : List Bytes) (rest : Bytes) :
    ∃ pieces, readPieces done (body ++ 0x22 :: rest) = some (pieces, rest) ∧
      pieces.reverse.flatten = done.reverse.flatten ++ content := by
  induction taken generalizing done with
  | nil =>
    rw [List.nil_append, readPieces, if_pos rfl]
    exact ⟨done, rfl, (List.append_nil _).symm⟩
  | plain visible others ih =>
    rename_i byte body content
    obtain ⟨above, quote, slash⟩ := visible
    obtain ⟨pieces, read, whole⟩ := ih ([byte] :: done)
    rw [List.cons_append, readPieces, if_neg quote, if_neg slash, if_neg above, read]
    exact ⟨pieces, rfl, by simp [whole]⟩
  | escape spells others ih =>
    rename_i letters body content scalar
    obtain ⟨pieces, read, whole⟩ := ih (String.utf8EncodeChar scalar :: done)
    have escape := readEscape_iff.mpr
      ⟨letters, scalar, spells, (rfl : letters ++ (body ++ 0x22 :: rest) = _), rfl⟩
    refine ⟨pieces, ?_, by simp [whole]⟩
    rw [List.append_assoc, List.cons_append, readPieces, if_neg (by decide), if_pos rfl]
    split
    · rename_i missing
      rw [escape] at missing
      cases missing
    · rename_i found
      rw [escape] at found
      cases found
      exact read

theorem readPieces_taken {done pieces : List Bytes}
    (read : readPieces done input = some (pieces, rest)) :
    ∃ body content, Taken body content ∧ input = body ++ 0x22 :: rest ∧
      pieces.reverse.flatten = done.reverse.flatten ++ content := by
  fun_induction readPieces done input with
  | case1 => cases read
  | case2 done after =>
    cases read
    exact ⟨[], [], .nil, rfl, (List.append_nil _).symm⟩
  | case3 => cases read
  | case4 done after piece more escape _ ih =>
    obtain ⟨letters, scalar, spells, rfl, rfl⟩ := readEscape_iff.mp escape
    obtain ⟨body, content, taken, rfl, whole⟩ := ih read
    exact ⟨_, _, .escape spells taken, by simp, by simp [whole]⟩
  | case5 => cases read
  | case6 done byte after quote slash above ih =>
    obtain ⟨body, content, taken, rfl, whole⟩ := ih read
    exact ⟨_, _, .plain ⟨above, quote, slash⟩ taken, rfl, by simp [whole]⟩

theorem Taken.plains {bytes : Bytes} (visible : ∀ byte ∈ bytes, Plain byte)
    (taken : Taken body content) : Taken (bytes ++ body) (bytes ++ content) := by
  induction bytes with
  | nil => exact taken
  | cons byte others ih =>
    obtain ⟨first, later⟩ := List.forall_mem_cons.mp visible
    exact .plain first (ih later)

-- Bytes that begin no encoding of their own are not what an escape is read as.
theorem Taken.trailing {tail more : Bytes} (inner : ∀ byte ∈ tail, ¬ Utf8.Begins [byte])
    (taken : Taken body (tail ++ more)) :
    (∀ byte ∈ tail, Plain byte) ∧ ∃ others, body = tail ++ others ∧ Taken others more := by
  induction tail generalizing body with
  | nil => exact ⟨List.forall_mem_nil _, body, rfl, taken⟩
  | cons byte tail ih =>
    obtain ⟨outside, later⟩ := List.forall_mem_cons.mp inner
    generalize whole : byte :: tail ++ more = content at taken
    cases taken with
    | nil => cases whole
    | plain visible others =>
      cases whole
      obtain ⟨plains, rest, rfl, taken⟩ := ih later others
      exact ⟨List.forall_mem_cons.mpr ⟨visible, plains⟩, rest, rfl, taken⟩
    | escape spells others =>
      rename_i letters before after scalar
      have opens : Utf8.Begins (String.utf8EncodeChar scalar) := ⟨scalar, List.prefix_refl _⟩
      obtain ⟨first, rest, spelled⟩ :=
        List.exists_cons_of_ne_nil (String.utf8EncodeChar_ne_nil (c := scalar))
      rw [spelled] at whole opens
      rw [(List.cons.inj whole).1] at outside
      exact absurd (Utf8.Begins.left opens) outside

-- In a content that is well formed, a byte taken as it is brings the rest of its encoding with it, since
-- no escape gives the later bytes of one.
theorem taken_iff : Taken body (Utf8.encode scalars) ↔ Denotes body scalars := by
  constructor
  · intro taken
    induction scalars generalizing body with
    | nil =>
      generalize whole : Utf8.encode [] = content at taken
      cases taken with
      | nil => exact .nil
      | plain => cases whole
      | escape => exact absurd (List.append_eq_nil_iff.mp whole.symm).1 String.utf8EncodeChar_ne_nil
    | cons scalar scalars ih =>
      generalize whole : Utf8.encode (scalar :: scalars) = content at taken
      cases taken with
      | nil => exact absurd (List.append_eq_nil_iff.mp whole).1 String.utf8EncodeChar_ne_nil
      | plain visible others =>
        obtain ⟨first, tail, spelled⟩ :=
          List.exists_cons_of_ne_nil (String.utf8EncodeChar_ne_nil (c := scalar))
        rw [Utf8.encode_cons, spelled, List.cons_append] at whole
        obtain ⟨rfl, rfl⟩ := List.cons.inj whole
        have begun : Utf8.Begins ([first] ++ tail) := ⟨scalar, spelled ▸ List.prefix_refl _⟩
        obtain ⟨plains, rest, rfl, taken⟩ :=
          others.trailing (begun.later (List.cons_ne_nil first []))
        have plain : ∀ byte ∈ String.utf8EncodeChar scalar, Plain byte := by
          rw [spelled]
          exact List.forall_mem_cons.mpr ⟨visible, plains⟩
        obtain ⟨above, unquoted, unescaped⟩ := plain_encoding.mp plain
        rw [← List.cons_append, ← spelled]
        exact .cons (.itself above unquoted unescaped) (ih taken)
      | escape spells others =>
        obtain ⟨rfl, rfl⟩ := Utf8.scalar_front whole
        exact .cons spells (ih others)
  · intro denotes
    induction denotes with
    | nil => exact .nil
    | cons spelling others ih =>
      cases spelling with
      | itself above unquoted unescaped =>
        exact ih.plains (plain_encoding.mpr ⟨above, unquoted, unescaped⟩)
      | short escape => exact .escape (.short escape) ih
      | unit spelled =>
        obtain ⟨digits, rfl⟩ := spelled.opens
        exact .escape (.unit spelled) ih
      | pair upper lower highBits lowBits value =>
        obtain ⟨digits, rfl⟩ := upper.opens
        exact .escape (.pair upper lower highBits lowBits value) ih

theorem readText_iff :
    readText input = some (content, rest) ↔
      ∃ body scalars, Denotes body scalars ∧ content = Utf8.encode scalars ∧
        input = body ++ 0x22 :: rest := by
  constructor
  · intro read
    unfold readText at read
    split at read
    · cases read
    · rename_i done after pieces
      dsimp only at read
      split at read
      · rename_i accepted
        cases read
        obtain ⟨scalars, same⟩ := Utf8.validate_ok_iff.mp accepted
        obtain ⟨body, content, taken, whole, flat⟩ := readPieces_taken pieces
        rw [List.reverse_nil, List.flatten_nil, List.nil_append] at flat
        rw [← flat, ← same] at taken
        exact ⟨body, scalars, taken_iff.mp taken, same.symm, whole⟩
      · cases read
  · rintro ⟨body, scalars, denotes, rfl, rfl⟩
    obtain ⟨pieces, read, flat⟩ := (taken_iff.mpr denotes).read [] rest
    rw [List.reverse_nil, List.flatten_nil, List.nil_append] at flat
    rw [readText, read]
    dsimp only
    rw [flat, Utf8.validate_ok_iff.mpr ⟨scalars, rfl⟩]

theorem isBlank_iff {byte : UInt8} :
    isBlank byte = true ↔ byte = 0x20 ∨ byte = 0x09 ∨ byte = 0x0A ∨ byte = 0x0D := by
  simp only [isBlank, Bool.or_eq_true, beq_iff_eq, or_assoc]

theorem skipBlanks_blank {before : Bytes} (blank : Blank before) (rest : Bytes) :
    skipBlanks (before ++ rest) = skipBlanks rest :=
  List.dropWhile_append_of_pos fun byte member => isBlank_iff.mpr (blank byte member)

theorem skipBlanks_other {start : UInt8} (visible : ¬ Blank [start]) (rest : Bytes) :
    skipBlanks (start :: rest) = start :: rest := by
  rw [Blank, List.forall_mem_singleton, ← isBlank_iff] at visible
  rw [skipBlanks, List.dropWhile_cons_of_neg visible]

theorem skipBlanks_split (input : Bytes) :
    ∃ before, Blank before ∧ input = before ++ skipBlanks input := by
  refine ⟨input.takeWhile isBlank, ?_, List.takeWhile_append_dropWhile.symm⟩
  intro byte member
  exact isBlank_iff.mp (List.mem_takeWhile_imp member)

theorem isOver_iff : isOver rest = true ↔ Blank rest := by
  rw [isOver, List.isEmpty_iff, skipBlanks, List.dropWhile_eq_nil_iff]
  simp only [isBlank_iff]
  exact Iff.rfl

theorem expectText_iff :
    expectText source = .ok (content, rest) ↔
      ∃ before body scalars, Blank before ∧ Denotes body scalars ∧ content = Utf8.encode scalars ∧
        source = before ++ 0x22 :: body ++ 0x22 :: rest := by
  constructor
  · intro read
    obtain ⟨before, blank, parts⟩ := skipBlanks_split source
    unfold expectText at read
    split at read
    · cases read
    · rename_i start after same
      rw [same] at parts
      split at read
      · rename_i quoted
        subst quoted
        split at read
        · rename_i found
          cases read
          obtain ⟨body, scalars, denotes, rfl, rfl⟩ := readText_iff.mp found
          exact ⟨before, body, scalars, blank, denotes, rfl, by simpa using parts⟩
        · cases read
      · cases read
  · rintro ⟨before, body, scalars, blank, denotes, rfl, rfl⟩
    have read := readText_iff.mpr ⟨body, scalars, denotes, rfl, (rfl : body ++ 0x22 :: rest = _)⟩
    rw [List.append_assoc, List.cons_append, expectText, skipBlanks_blank blank,
      skipBlanks_other (by simp [Blank])]
    dsimp only
    rw [if_pos rfl, read]

theorem expectText_wellFormed (read : expectText source = .ok (content, rest)) :
    Utf8.WellFormed content := by
  obtain ⟨_, _, scalars, _, _, same, _⟩ := expectText_iff.mp read
  exact ⟨scalars, same.symm⟩

theorem expectText_other {before : Bytes} {start : UInt8} (blank : Blank before)
    (visible : ¬ Blank [start]) (unquoted : start ≠ 0x22) (rest : Bytes) :
    ∃ error, expectText (before ++ start :: rest) = .error error := by
  rw [expectText, skipBlanks_blank blank, skipBlanks_other visible]
  dsimp only
  rw [if_neg unquoted]
  exact ⟨_, rfl⟩

theorem isText_iff :
    IsText source scalars ↔
      ∃ rest, expectText source = .ok (Utf8.encode scalars, rest) ∧ isOver rest = true := by
  simp only [isOver_iff, expectText_iff]
  constructor
  · rintro ⟨before, body, rest, blank, denotes, ended, whole⟩
    exact ⟨rest, ⟨before, body, scalars, blank, denotes, rfl, whole⟩, ended⟩
  · rintro ⟨rest, ⟨before, body, others, blank, denotes, same, whole⟩, ended⟩
    rw [Utf8.encode_injective same]
    exact ⟨before, body, rest, blank, denotes, ended, whole⟩

end InternPool.Json
