import InternPool.Json.Writer
import InternPool.Proofs.Json.Reading

namespace InternPool.Json

variable {byte : UInt8}

theorem escape_plain (plain : Plain byte) : escape byte = [byte] := by
  obtain ⟨above, quote, slash⟩ := plain
  have control {code : UInt8} (low : code < 0x20) : byte ≠ code := by
    rintro rfl
    exact above low
  rw [escape, quoteByte, backslash, if_neg quote, if_neg slash, if_neg (control (by decide)),
    if_neg (control (by decide)), if_neg (control (by decide)), if_neg (control (by decide)),
    if_neg (control (by decide)), if_neg above]

theorem flatMap_plain {bytes : Bytes} (plain : ∀ byte ∈ bytes, Plain byte) :
    bytes.flatMap escape = bytes := by
  induction bytes with
  | nil => rfl
  | cons byte rest ih =>
    obtain ⟨first, later⟩ := List.forall_mem_cons.mp plain
    rw [List.flatMap_cons, escape_plain first, ih later, List.singleton_append]

theorem hexValue?_hexDigit : ∀ n < 16, hexValue? (hexDigit (UInt8.ofNat n)) = some n := by
  decide

theorem hexDigit_spells (small : byte.toNat < 16) : HexDigit (hexDigit byte) byte.toNat := by
  rw [← hexValue?_iff]
  simpa using hexValue?_hexDigit byte.toNat small

theorem unit_control (low : byte < 0x20) :
    Unit16 [0x5C, 0x75, 0x30, 0x30, hexDigit (byte / 16), hexDigit (byte % 16)] byte.toNat := by
  have zero : HexDigit 0x30 0 := hexValue?_iff.mp rfl
  have high : (byte / 16).toNat = byte.toNat / 16 := UInt8.toNat_div byte 16
  have rest : (byte % 16).toNat = byte.toNat % 16 := UInt8.toNat_mod byte 16
  simp only [UInt8.lt_iff_toNat_lt, UInt8.reduceToNat] at low
  have spelled := Unit16.digits zero zero (hexDigit_spells (by omega : (byte / 16).toNat < 16))
    (hexDigit_spells (by omega : (byte % 16).toNat < 16))
  rwa [high, rest, Nat.zero_mul, Nat.zero_add, Nat.div_add_mod'] at spelled

-- What is not plain has a short escape, or is below the blank and has none.
theorem escape_cases (byte : UInt8) :
    Plain byte ∨
      (∃ letter scalar, ShortEscape letter scalar ∧ String.utf8EncodeChar scalar = [byte] ∧
        escape byte = [0x5C, letter]) ∨
      byte < 0x20 ∧
        escape byte = [0x5C, 0x75, 0x30, 0x30, hexDigit (byte / 16), hexDigit (byte % 16)] := by
  by_cases quote : byte = 0x22
  · subst quote
    exact .inr (.inl ⟨_, _, .quote, rfl, rfl⟩)
  by_cases slash : byte = 0x5C
  · subst slash
    exact .inr (.inl ⟨_, _, .backslash, rfl, rfl⟩)
  by_cases backspace : byte = 0x08
  · subst backspace
    exact .inr (.inl ⟨_, _, .backspace, rfl, rfl⟩)
  by_cases tab : byte = 0x09
  · subst tab
    exact .inr (.inl ⟨_, _, .tab, rfl, rfl⟩)
  by_cases lineFeed : byte = 0x0A
  · subst lineFeed
    exact .inr (.inl ⟨_, _, .lineFeed, rfl, rfl⟩)
  by_cases formFeed : byte = 0x0C
  · subst formFeed
    exact .inr (.inl ⟨_, _, .formFeed, rfl, rfl⟩)
  by_cases carriageReturn : byte = 0x0D
  · subst carriageReturn
    exact .inr (.inl ⟨_, _, .carriageReturn, rfl, rfl⟩)
  by_cases low : byte < 0x20
  · refine .inr (.inr ⟨low, ?_⟩)
    rw [escape, quoteByte, backslash, if_neg quote, if_neg slash, if_neg backspace, if_neg tab,
      if_neg lineFeed, if_neg formFeed, if_neg carriageReturn, if_pos low]
  · exact .inl ⟨low, quote, slash⟩

theorem spells_escape (scalar : Char) :
    Spells ((String.utf8EncodeChar scalar).flatMap escape) scalar := by
  by_cases plain : ∀ byte ∈ String.utf8EncodeChar scalar, Plain byte
  · obtain ⟨above, unquoted, unescaped⟩ := plain_encoding.mp plain
    rw [flatMap_plain plain]
    exact .itself above unquoted unescaped
  rcases Utf8.encode_ranges scalar with ⟨small, alone⟩ | ⟨large, _⟩
  · rw [alone, List.forall_mem_singleton] at plain
    rw [alone, List.flatMap_singleton]
    rcases escape_cases (UInt8.ofNat scalar.toNat) with
      visible | ⟨letter, other, named, spelled, written⟩ | ⟨low, written⟩
    · exact absurd visible plain
    · rw [written, Utf8.utf8EncodeChar_injective (alone.trans spelled.symm)]
      exact .short named
    · have spelled := unit_control low
      rw [UInt8.toNat_ofNat', Nat.mod_eq_of_lt (by omega)] at spelled
      rw [written]
      exact .unit spelled
  · exact absurd (plain_encoding.mpr (visible_above large)) plain

theorem writeText_isText (scalars : List Char) : IsText (writeText (Utf8.encode scalars)) scalars := by
  refine ⟨[], (Utf8.encode scalars).flatMap escape, [], nofun, ?_, nofun, rfl⟩
  induction scalars with
  | nil => exact .nil
  | cons scalar scalars ih =>
    rw [Utf8.encode_cons, List.flatMap_append]
    exact .cons (spells_escape scalar) ih

end InternPool.Json
