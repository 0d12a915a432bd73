import InternPool.Json.Spelling
import InternPool.Json.Text
import InternPool.Proofs.Utf8.Spelling

namespace InternPool.Json

theorem hexValue?_iff {byte : UInt8} {n : Nat} : hexValue? byte = some n ↔ HexDigit byte n := by
  simp only [hexValue?, UInt8.le_iff_toNat_le, UInt8.reduceToNat]
  constructor
  · intro digit
    have same := UInt8.ofNat_toNat (x := byte)
    split at digit
    · cases digit
      have digit := HexDigit.decimal (n := byte.toNat - 0x30) (by omega)
      rwa [Nat.add_sub_cancel' (by omega), same] at digit
    split at digit
    · cases digit
      have digit := HexDigit.upper (n := byte.toNat - 0x41) (by omega)
      rwa [Nat.add_sub_cancel' (by omega), same,
        show 10 + (byte.toNat - 0x41) = byte.toNat - 0x37 by omega] at digit
    split at digit
    · cases digit
      have digit := HexDigit.lower (n := byte.toNat - 0x61) (by omega)
      rwa [Nat.add_sub_cancel' (by omega), same,
        show 10 + (byte.toNat - 0x61) = byte.toNat - 0x57 by omega] at digit
    · cases digit
  · intro digit
    cases digit with
    | decimal small =>
      rw [UInt8.toNat_ofNat', if_pos (by omega), Option.some.injEq]
      omega
    | lower small =>
      rw [UInt8.toNat_ofNat', if_neg (by omega), if_neg (by omega), if_pos (by omega),
        Option.some.injEq]
      omega
    | upper small =>
      rw [UInt8.toNat_ofNat', if_neg (by omega), if_pos (by omega), Option.some.injEq]
      omega

-- Read from the first digit on, behind the two bytes that say that digits follow.
theorem readUnit_iff {input rest : Bytes} {unit : Nat} :
    readUnit input = some (unit, rest) ↔
      ∃ digits, Unit16 (0x5C :: 0x75 :: digits) unit ∧ input = digits ++ rest := by
  constructor
  · intro read
    unfold readUnit at read
    split at read
    · rename_i a b c d after
      split at read
      · rename_i w x y z first second third fourth
        rw [hexValue?_iff] at first second third fourth
        obtain ⟨rfl, rfl⟩ := Prod.mk.inj (Option.some.inj read)
        refine ⟨[a, b, c, d], ?_, rfl⟩
        rw [show ((w * 16 + x) * 16 + y) * 16 + z = w * 4096 + x * 256 + y * 16 + z by omega]
        exact .digits first second third fourth
      · cases read
    · cases read
  · rintro ⟨digits, spelled, rfl⟩
    cases spelled with
    | digits first second third fourth =>
      rw [← hexValue?_iff] at first second third fourth
      simp only [readUnit, List.cons_append, List.nil_append, first, second, third, fourth,
        Option.some.injEq, Prod.mk.injEq, and_true]
      omega

theorem HexDigit.lt {byte : UInt8} {n : Nat} (digit : HexDigit byte n) : n < 16 := by
  cases digit <;> omega

theorem Unit16.lt {bytes : Bytes} {unit : Nat} (spelled : Unit16 bytes unit) : unit < 0x10000 := by
  cases spelled with
  | digits first second third fourth =>
    have := first.lt
    have := second.lt
    have := third.lt
    have := fourth.lt
    omega

theorem Unit16.opens {bytes : Bytes} {unit : Nat} (spelled : Unit16 bytes unit) :
    ∃ digits, bytes = 0x5C :: 0x75 :: digits := by
  cases spelled
  exact ⟨_, rfl⟩

theorem not_surrogate (scalar : Char) : ¬ (0xD800 ≤ scalar.toNat ∧ scalar.toNat ≤ 0xDFFF) := by
  have valid := scalar.valid
  simp only [UInt32.isValidChar, Nat.isValidChar] at valid
  change (scalar.toNat < 55296 ∨ 57343 < scalar.toNat ∧ scalar.toNat < 1114112) at valid
  omega

theorem readScalar_unit {input rest : Bytes} {scalar : Char}
    (read : readUnit input = some (scalar.toNat, rest)) :
    readScalar input = some (scalar, rest) := by
  have outside := not_surrogate scalar
  rw [readScalar, read]
  dsimp only
  rw [if_neg (by omega), if_neg (by omega), Char.ofNat_toNat]

theorem readScalar_pair {input middle rest : Bytes} {scalar : Char} {high low : Nat}
    (first : readUnit input = some (0xD800 + high, 0x5C :: 0x75 :: middle))
    (second : readUnit middle = some (0xDC00 + low, rest)) (highBits : high < 0x400)
    (lowBits : low < 0x400) (value : scalar.toNat = 0x10000 + high * 0x400 + low) :
    readScalar input = some (scalar, rest) := by
  rw [readScalar, first]
  dsimp only
  rw [if_neg (by omega), if_pos (by omega), if_pos ⟨rfl, rfl⟩, second]
  dsimp only
  rw [if_pos (by omega), Nat.add_sub_cancel_left, Nat.add_sub_cancel_left,
    show high * 0x400 + low + 0x10000 = scalar.toNat by omega, Char.ofNat_toNat]

theorem encode_ne_escape {scalar : Char} (unescaped : scalar ≠ '\\') (letters : Bytes) :
    String.utf8EncodeChar scalar ≠ 0x5C :: letters := by
  intro same
  rcases Utf8.encode_ranges scalar with ⟨small, alone⟩ | ⟨_, high⟩
  · apply unescaped
    apply Utf8.utf8EncodeChar_injective
    rw [alone] at same ⊢
    rw [(List.cons.inj same).1]
    rfl
  · rw [same] at high
    exact absurd (high 0x5C List.mem_cons_self) (by decide)

theorem readScalar_iff {input rest : Bytes} {scalar : Char} :
    readScalar input = some (scalar, rest) ↔
      ∃ digits, Spells (0x5C :: 0x75 :: digits) scalar ∧ input = digits ++ rest := by
  constructor
  · intro read
    unfold readScalar at read
    split at read
    · cases read
    · rename_i unit after first
      obtain ⟨digits, spelled, rfl⟩ := readUnit_iff.mp first
      have small := spelled.lt
      split at read
      · cases read
      split at read
      · split at read
        · rename_i slash mark more
          split at read
          · rename_i marked
            obtain ⟨rfl, rfl⟩ := marked
            split at read
            · cases read
            · rename_i low last second
              obtain ⟨others, also, rfl⟩ := readUnit_iff.mp second
              split at read
              · obtain ⟨rfl, rfl⟩ := Prod.mk.inj (Option.some.inj read)
                have value := Utf8.toNat_ofNat
                  ((unit - 0xD800) * 0x400 + (low - 0xDC00) + 0x10000) (by right; omega)
                have upper : Unit16 (0x5C :: 0x75 :: digits) (0xD800 + (unit - 0xD800)) := by
                  rwa [Nat.add_sub_cancel' (by omega)]
                have lower : Unit16 (0x5C :: 0x75 :: others) (0xDC00 + (low - 0xDC00)) := by
                  rwa [Nat.add_sub_cancel' (by omega)]
                refine ⟨digits ++ 0x5C :: 0x75 :: others, ?_, ?_⟩
                · refine .pair upper lower (by omega) (by omega) ?_
                  rw [Char.toNat, value]
                  omega
                · rw [List.append_assoc, List.cons_append, List.cons_append]
              · cases read
          · cases read
        · cases read
      · obtain ⟨rfl, rfl⟩ := Prod.mk.inj (Option.some.inj read)
        have value := Utf8.toNat_ofNat unit (by simp only [Nat.isValidChar]; omega)
        exact ⟨digits, .unit (by rwa [Char.toNat, value]), rfl⟩
  · rintro ⟨digits, spells, rfl⟩
    generalize whole : 0x5C :: 0x75 :: digits = bytes at spells
    cases spells with
    | itself _ _ unescaped => exact absurd whole.symm (encode_ne_escape unescaped _)
    | short escape =>
      cases whole
      cases escape
    | unit spelled =>
      subst whole
      exact readScalar_unit (readUnit_iff.mpr ⟨digits, spelled, rfl⟩)
    | pair upper lower highBits lowBits value =>
      obtain ⟨former, rfl⟩ := upper.opens
      obtain ⟨latter, rfl⟩ := lower.opens
      rw [List.cons_append, List.cons_append] at whole
      cases whole
      refine readScalar_pair (readUnit_iff.mpr ⟨former, upper, ?_⟩)
        (readUnit_iff.mpr ⟨latter, lower, rfl⟩) highBits lowBits value
      simp

theorem shortEscape?_spells {letter byte : UInt8} (found : shortEscape? letter = some byte) :
    ∃ scalar, ShortEscape letter scalar ∧ String.utf8EncodeChar scalar = [byte] := by
  unfold shortEscape? at found
  split at found
  · rename_i itself
    cases found
    rcases itself with rfl | rfl | rfl
    · exact ⟨_, .quote, rfl⟩
    · exact ⟨_, .backslash, rfl⟩
    · exact ⟨_, .slash, rfl⟩
  repeat' split at found
  all_goals cases found
  all_goals subst_vars
  · exact ⟨_, .backspace, rfl⟩
  · exact ⟨_, .formFeed, rfl⟩
  · exact ⟨_, .lineFeed, rfl⟩
  · exact ⟨_, .carriageReturn, rfl⟩
  · exact ⟨_, .tab, rfl⟩

theorem ShortEscape.found {letter : UInt8} {scalar : Char} (escape : ShortEscape letter scalar) :
    letter ≠ 0x75 ∧
      ∃ byte, shortEscape? letter = some byte ∧ String.utf8EncodeChar scalar = [byte] := by
  cases escape <;> exact ⟨by decide, _, rfl, rfl⟩

theorem readEscape_iff {input piece rest : Bytes} :
    readEscape input = some (piece, rest) ↔
      ∃ letters scalar, Spells (0x5C :: letters) scalar ∧ input = letters ++ rest ∧
        piece = String.utf8EncodeChar scalar := by
  constructor
  · intro read
    unfold readEscape at read
    split at read
    · cases read
    · rename_i letter after
      split at read
      · rename_i numbered
        subst numbered
        obtain ⟨⟨scalar, last⟩, inner, same⟩ := Option.map_eq_some_iff.mp read
        cases same
        obtain ⟨digits, spells, rfl⟩ := readScalar_iff.mp inner
        exact ⟨0x75 :: digits, scalar, spells, rfl, rfl⟩
      · obtain ⟨byte, found, same⟩ := Option.map_eq_some_iff.mp read
        cases same
        obtain ⟨scalar, escape, spelled⟩ := shortEscape?_spells found
        exact ⟨[letter], scalar, .short escape, rfl, spelled.symm⟩
  · rintro ⟨letters, scalar, spells, rfl, rfl⟩
    -- Of all spellings with a backslash the short ones alone have no "u" after it.
    have numbered : ∀ digits, letters = 0x75 :: digits →
        readEscape (letters ++ rest) = some (String.utf8EncodeChar scalar, rest) := by
      rintro digits rfl
      have read := readScalar_iff.mpr ⟨digits, spells, (rfl : digits ++ rest = _)⟩
      rw [List.cons_append, readEscape, if_pos rfl, read]
      rfl
    generalize whole : 0x5C :: letters = bytes at spells
    cases spells with
    | itself _ _ unescaped => exact absurd whole.symm (encode_ne_escape unescaped _)
    | short escape =>
      cases whole
      obtain ⟨unnumbered, byte, found, spelled⟩ := escape.found
      rw [List.cons_append, readEscape, if_neg unnumbered, found, spelled]
      rfl
    | unit spelled =>
      obtain ⟨digits, rfl⟩ := spelled.opens
      cases whole
      exact numbered digits rfl
    | pair upper lower highBits lowBits value =>
      obtain ⟨digits, rfl⟩ := upper.opens
      cases whole
      exact numbered _ rfl

end InternPool.Json
