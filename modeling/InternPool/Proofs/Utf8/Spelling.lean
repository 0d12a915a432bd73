import InternPool.Utf8.Ascii
import InternPool.Utf8.Sequence

namespace InternPool.Utf8

-- Bytes that keep what a lead byte announced: the first in the given range, every later one in
-- `80..BF`.
def Continues (lower upper : UInt8) : Bytes → Prop
  | [] => True
  | byte :: rest => (lower ≤ byte ∧ byte ≤ upper) ∧ Continues 0x80 0xBF rest

-- Bytes that begin the encoding of a scalar value, and may be all of it.
def Begins (bytes : Bytes) : Prop :=
  ∃ scalar, bytes <+: String.utf8EncodeChar scalar

-- The bits of a scalar value that its lead byte gives, and six more from every byte after it.
def leadValue (width : Nat) (byte : UInt8) : Nat :=
  match width with
  | 2 => byte.toNat % 32
  | 3 => byte.toNat % 16
  | _ => byte.toNat % 8

def gather (value : Nat) (tail : Bytes) : Nat :=
  tail.foldl (fun value byte => value * 64 + byte.toNat % 64) value

theorem Continues.left {lower upper : UInt8} {left right : Bytes}
    (kept : Continues lower upper (left ++ right)) : Continues lower upper left := by
  induction left generalizing lower upper with
  | nil => trivial
  | cons byte rest ih => exact ⟨kept.1, ih kept.2⟩

theorem Continues.complete {lower upper : UInt8} {tail : Bytes} (range : lower ≤ upper)
    (kept : Continues lower upper tail) (missing : Nat) :
    ∃ more, more.length = missing ∧ Continues lower upper (tail ++ more) := by
  induction tail generalizing lower upper with
  | nil =>
    induction missing generalizing lower upper with
    | zero => exact ⟨[], rfl, trivial⟩
    | succ missing ih =>
      obtain ⟨more, length, goesOn⟩ := ih (by decide : (0x80 : UInt8) ≤ 0xBF) trivial
      exact ⟨lower :: more, by rw [List.length_cons, length], ⟨UInt8.le_refl lower, range⟩, goesOn⟩
  | cons byte rest ih =>
    obtain ⟨more, length, goesOn⟩ := ih (by decide) kept.2
    exact ⟨more, length, kept.1, goesOn⟩

theorem Continues.trailing {lower upper : UInt8} {tail : Bytes}
    (kept : Continues lower upper tail) (low : 0x80 ≤ lower.toNat) (high : upper.toNat ≤ 0xBF) :
    ∀ byte ∈ tail, 0x80 ≤ byte.toNat ∧ byte.toNat ≤ 0xBF := by
  induction tail generalizing lower upper with
  | nil =>
    intro byte member
    cases member
  | cons first rest ih =>
    obtain ⟨⟨above, below⟩, later⟩ := kept
    rw [UInt8.le_iff_toNat_le] at above below
    exact List.forall_mem_cons.mpr
      ⟨⟨Nat.le_trans low above, Nat.le_trans below high⟩, ih later (by decide) (by decide)⟩

-- What the table announces, in numbers. The narrowed ranges stand where the shortest form, the
-- surrogates and the end of the scalar values ask for them.
theorem Lead.of?_numbers {byte : UInt8} {lead : Lead} (announced : Lead.of? byte = some lead) :
    (lead.width = 2 ∧ 0xC2 ≤ byte.toNat ∧ byte.toNat ≤ 0xDF ∧
        lead.lower.toNat = 0x80 ∧ lead.upper.toNat = 0xBF) ∨
      (lead.width = 3 ∧ 0xE0 ≤ byte.toNat ∧ byte.toNat ≤ 0xEF ∧
        (byte.toNat = 0xE0 ∧ lead.lower.toNat = 0xA0 ∨
          byte.toNat ≠ 0xE0 ∧ lead.lower.toNat = 0x80) ∧
        (byte.toNat = 0xED ∧ lead.upper.toNat = 0x9F ∨
          byte.toNat ≠ 0xED ∧ lead.upper.toNat = 0xBF)) ∨
      (lead.width = 4 ∧ 0xF0 ≤ byte.toNat ∧ byte.toNat ≤ 0xF4 ∧
        (byte.toNat = 0xF0 ∧ lead.lower.toNat = 0x90 ∨
          byte.toNat ≠ 0xF0 ∧ lead.lower.toNat = 0x80) ∧
        (byte.toNat = 0xF4 ∧ lead.upper.toNat = 0x8F ∨
          byte.toNat ≠ 0xF4 ∧ lead.upper.toNat = 0xBF)) := by
  simp only [Lead.of?, UInt8.lt_iff_toNat_lt, UInt8.le_iff_toNat_le, ← UInt8.toNat_inj,
    UInt8.reduceToNat] at announced
  repeat' split at announced
  all_goals cases announced
  all_goals dsimp only
  all_goals simp only [UInt8.reduceToNat, Nat.reduceEqDiff, true_and, false_and, and_true,
    and_false, or_false, false_or]
  all_goals omega

theorem Lead.of?_some (byte : UInt8) (low : 0xC2 ≤ byte.toNat) (high : byte.toNat ≤ 0xF4) :
    ∃ lead, Lead.of? byte = some lead := by
  simp only [Lead.of?, UInt8.lt_iff_toNat_lt, UInt8.le_iff_toNat_le, ← UInt8.toNat_inj,
    UInt8.reduceToNat]
  repeat' split
  all_goals first
    | exact ⟨_, rfl⟩
    | omega

theorem Lead.range {byte : UInt8} {lead : Lead} (announced : Lead.of? byte = some lead) :
    lead.lower ≤ lead.upper := by
  have numbers := Lead.of?_numbers announced
  rw [UInt8.le_iff_toNat_le]
  omega

theorem Lead.not_ascii {byte : UInt8} {lead : Lead} (announced : Lead.of? byte = some lead) :
    isAscii byte = false := by
  have numbers := Lead.of?_numbers announced
  simp only [isAscii, UInt8.lt_iff_toNat_lt, UInt8.reduceToNat, decide_eq_false_iff_not]
  omega

theorem toNat_ofNat (value : Nat) (valid : value.isValidChar) :
    (Char.ofNat value).val.toNat = value := by
  rw [Char.ofNat, dif_pos valid]
  rfl

theorem encode_one {a : UInt8} (ascii : isAscii a = true) :
    String.utf8EncodeChar (Char.ofNat a.toNat) = [a] := by
  simp only [isAscii, UInt8.lt_iff_toNat_lt, UInt8.reduceToNat, decide_eq_true_eq] at ascii
  have value := toNat_ofNat a.toNat (by left; omega)
  rw [String.utf8EncodeChar]
  simp only [value]
  rw [if_pos (by omega), UInt8.ofNat_toNat]

theorem encode_two {a b : UInt8} (lead : 0xC2 ≤ a.toNat ∧ a.toNat ≤ 0xDF)
    (second : 0x80 ≤ b.toNat ∧ b.toNat ≤ 0xBF) :
    String.utf8EncodeChar (Char.ofNat (a.toNat % 32 * 64 + b.toNat % 64)) = [a, b] := by
  have value := toNat_ofNat (a.toNat % 32 * 64 + b.toNat % 64) (by left; omega)
  rw [String.utf8EncodeChar]
  simp only [value]
  rw [if_neg (by omega), if_pos (by omega)]
  simp only [List.cons.injEq, ← UInt8.toNat_inj, UInt8.toNat_ofNat', and_true]
  omega

theorem encode_three {a b c : UInt8} (lead : 0xE0 ≤ a.toNat ∧ a.toNat ≤ 0xEF)
    (second : 0x80 ≤ b.toNat ∧ b.toNat ≤ 0xBF) (third : 0x80 ≤ c.toNat ∧ c.toNat ≤ 0xBF)
    (shortest : a.toNat = 0xE0 → 0xA0 ≤ b.toNat) (scalar : a.toNat = 0xED → b.toNat ≤ 0x9F) :
    String.utf8EncodeChar
      (Char.ofNat ((a.toNat % 16 * 64 + b.toNat % 64) * 64 + c.toNat % 64)) = [a, b, c] := by
  have value := toNat_ofNat ((a.toNat % 16 * 64 + b.toNat % 64) * 64 + c.toNat % 64)
    (by simp only [Nat.isValidChar]; omega)
  rw [String.utf8EncodeChar]
  simp only [value]
  rw [if_neg (by omega), if_neg (by omega), if_pos (by omega)]
  simp only [List.cons.injEq, ← UInt8.toNat_inj, UInt8.toNat_ofNat', and_true]
  omega

theorem encode_four {a b c d : UInt8} (lead : 0xF0 ≤ a.toNat ∧ a.toNat ≤ 0xF4)
    (second : 0x80 ≤ b.toNat ∧ b.toNat ≤ 0xBF) (third : 0x80 ≤ c.toNat ∧ c.toNat ≤ 0xBF)
    (fourth : 0x80 ≤ d.toNat ∧ d.toNat ≤ 0xBF)
    (shortest : a.toNat = 0xF0 → 0x90 ≤ b.toNat) (scalar : a.toNat = 0xF4 → b.toNat ≤ 0x8F) :
    String.utf8EncodeChar
      (Char.ofNat (((a.toNat % 8 * 64 + b.toNat % 64) * 64 + c.toNat % 64) * 64 + d.toNat % 64)) =
      [a, b, c, d] := by
  have value := toNat_ofNat
    (((a.toNat % 8 * 64 + b.toNat % 64) * 64 + c.toNat % 64) * 64 + d.toNat % 64)
    (by simp only [Nat.isValidChar]; omega)
  rw [String.utf8EncodeChar]
  simp only [value]
  rw [if_neg (by omega), if_neg (by omega), if_neg (by omega)]
  simp only [List.cons.injEq, ← UInt8.toNat_inj, UInt8.toNat_ofNat', and_true]
  omega

-- From the table to the scalar values: a lead byte with as many bytes as it announced spells one.
theorem encode_gather {byte : UInt8} {lead : Lead} {tail : Bytes}
    (announced : Lead.of? byte = some lead) (whole : tail.length + 1 = lead.width)
    (kept : Continues lead.lower lead.upper tail) :
    String.utf8EncodeChar (Char.ofNat (gather (leadValue lead.width byte) tail)) = byte :: tail := by
  obtain ⟨width, low, high, limits⟩ | ⟨width, low, high, limits⟩ | ⟨width, low, high, limits⟩ :=
    Lead.of?_numbers announced
  all_goals rw [width] at whole ⊢
  · match tail, whole with
    | [b], _ =>
      simp only [Continues, UInt8.le_iff_toNat_le] at kept
      exact encode_two ⟨low, high⟩ (by omega)
  · match tail, whole with
    | [b, c], _ =>
      simp only [Continues, UInt8.le_iff_toNat_le, UInt8.reduceToNat] at kept
      exact encode_three ⟨low, high⟩ (by omega) (by omega) (by omega) (by omega)
  · match tail, whole with
    | [b, c, d], _ =>
      simp only [Continues, UInt8.le_iff_toNat_le, UInt8.reduceToNat] at kept
      exact encode_four ⟨low, high⟩ (by omega) (by omega) (by omega) (by omega) (by omega)

theorem encode_announced (scalar : Char) :
    (∃ byte, isAscii byte = true ∧ String.utf8EncodeChar scalar = [byte]) ∨
      ∃ byte lead tail, String.utf8EncodeChar scalar = byte :: tail ∧
        Lead.of? byte = some lead ∧ tail.length + 1 = lead.width ∧
        Continues lead.lower lead.upper tail := by
  have valid := scalar.valid
  simp only [UInt32.isValidChar, Nat.isValidChar] at valid
  rw [String.utf8EncodeChar]
  change (scalar.val.toNat < 55296 ∨ _) at valid
  generalize scalar.val.toNat = value at valid ⊢
  split
  · left
    refine ⟨_, ?_, rfl⟩
    simp only [isAscii, UInt8.lt_iff_toNat_lt, UInt8.toNat_ofNat', UInt8.reduceToNat,
      decide_eq_true_eq]
    omega
  right
  have announced (n : Nat) (low : 0xC2 ≤ n) (high : n ≤ 0xF4) :=
    Lead.of?_some (UInt8.ofNat n) (by rw [UInt8.toNat_ofNat']; omega)
      (by rw [UInt8.toNat_ofNat']; omega)
  split
  · obtain ⟨lead, found⟩ := announced (value / 64 % 32 + 0xC0) (by omega) (by omega)
    have numbers := Lead.of?_numbers found
    refine ⟨_, lead, _, rfl, found, ?_⟩
    simp only [Continues, UInt8.le_iff_toNat_le, UInt8.toNat_ofNat', List.length_cons,
      List.length_nil, and_true] at numbers ⊢
    omega
  split
  · obtain ⟨lead, found⟩ := announced (value / 4096 % 16 + 0xE0) (by omega) (by omega)
    have numbers := Lead.of?_numbers found
    refine ⟨_, lead, _, rfl, found, ?_⟩
    simp only [Continues, UInt8.le_iff_toNat_le, UInt8.toNat_ofNat', List.length_cons,
      List.length_nil, UInt8.reduceToNat, and_true] at numbers ⊢
    omega
  · obtain ⟨lead, found⟩ := announced (value / 262144 % 8 + 0xF0) (by omega) (by omega)
    have numbers := Lead.of?_numbers found
    refine ⟨_, lead, _, rfl, found, ?_⟩
    simp only [Continues, UInt8.le_iff_toNat_le, UInt8.toNat_ofNat', List.length_cons,
      List.length_nil, UInt8.reduceToNat, and_true] at numbers ⊢
    omega

theorem spelled_iff {byte : UInt8} {tail : Bytes} :
    (∃ scalar, String.utf8EncodeChar scalar = byte :: tail) ↔
      (isAscii byte = true ∧ tail = []) ∨
        ∃ lead, Lead.of? byte = some lead ∧ tail.length + 1 = lead.width ∧
          Continues lead.lower lead.upper tail := by
  constructor
  · intro encoded
    obtain ⟨scalar, spelled⟩ := encoded
    rcases encode_announced scalar with ⟨first, ascii, whole⟩ | ⟨first, lead, rest, whole, facts⟩
    · rw [spelled] at whole
      cases whole
      exact .inl ⟨ascii, rfl⟩
    · rw [spelled] at whole
      cases whole
      exact .inr ⟨lead, facts⟩
  · intro begun
    rcases begun with ⟨ascii, rfl⟩ | ⟨lead, announced, whole, kept⟩
    · exact ⟨_, encode_one ascii⟩
    · exact ⟨_, encode_gather announced whole kept⟩

theorem opening_iff {byte : UInt8} {tail : Bytes} :
    Opening (byte :: tail) ↔
      ∃ lead, Lead.of? byte = some lead ∧ tail.length + 1 < lead.width ∧
        Continues lead.lower lead.upper tail := by
  constructor
  · intro opens
    obtain ⟨scalar, more, missing, spelled⟩ := opens
    rw [List.cons_append] at spelled
    rcases spelled_iff.mp ⟨scalar, spelled⟩ with ⟨_, single⟩ | ⟨lead, announced, whole, kept⟩
    · exact absurd (List.append_eq_nil_iff.mp single).2 missing
    · have positive := List.length_pos_iff.mpr missing
      rw [List.length_append] at whole
      exact ⟨lead, announced, by omega, kept.left⟩
  · intro begun
    obtain ⟨lead, announced, short, kept⟩ := begun
    obtain ⟨more, length, whole⟩ :=
      kept.complete (Lead.range announced) (lead.width - (tail.length + 1))
    refine ⟨_, more, ?_, (encode_gather announced ?_ whole).trans (List.cons_append).symm⟩
    · exact List.ne_nil_of_length_pos (by omega)
    · rw [List.length_append]
      omega

theorem begins_iff_spelled_or_opening {bytes : Bytes} :
    Begins bytes ↔ (∃ scalar, String.utf8EncodeChar scalar = bytes) ∨ Opening bytes := by
  constructor
  · intro opens
    obtain ⟨scalar, more, spelled⟩ := opens
    by_cases missing : more = []
    · exact .inl ⟨scalar, by rw [← spelled, missing, List.append_nil]⟩
    · exact .inr ⟨scalar, more, missing, spelled.symm⟩
  · intro either
    rcases either with ⟨scalar, rfl⟩ | ⟨scalar, more, _, spelled⟩
    · exact ⟨scalar, List.prefix_refl _⟩
    · exact ⟨scalar, more, spelled.symm⟩

theorem begins_iff {byte : UInt8} {tail : Bytes} :
    Begins (byte :: tail) ↔
      (isAscii byte = true ∧ tail = []) ∨
        ∃ lead, Lead.of? byte = some lead ∧ tail.length + 1 ≤ lead.width ∧
          Continues lead.lower lead.upper tail := by
  rw [begins_iff_spelled_or_opening, spelled_iff, opening_iff]
  constructor
  · intro either
    rcases either with (ascii | ⟨lead, announced, whole, kept⟩) | ⟨lead, announced, short, kept⟩
    · exact .inl ascii
    · exact .inr ⟨lead, announced, Nat.le_of_eq whole, kept⟩
    · exact .inr ⟨lead, announced, Nat.le_of_lt short, kept⟩
  · intro begun
    rcases begun with ascii | ⟨lead, announced, fits, kept⟩
    · exact .inl (.inl ascii)
    · rcases Nat.lt_or_eq_of_le fits with short | whole
      · exact .inr ⟨lead, announced, short, kept⟩
      · exact .inl (.inr ⟨lead, announced, whole, kept⟩)

theorem Begins.left {left right : Bytes} (begun : Begins (left ++ right)) : Begins left := by
  obtain ⟨scalar, spelled⟩ := begun
  exact ⟨scalar, (List.prefix_append left right).trans spelled⟩

-- The bytes of an encoding after its first begin no encoding of their own.
theorem Begins.later {left right : Bytes} (begun : Begins (left ++ right))
    (present : left ≠ []) : ∀ byte ∈ right, ¬ Begins [byte] := by
  cases left with
  | nil => exact absurd rfl present
  | cons first tail =>
    rw [List.cons_append, begins_iff] at begun
    rcases begun with ⟨_, alone⟩ | ⟨lead, announced, _, kept⟩
    · rw [(List.append_eq_nil_iff.mp alone).2]
      nofun
    · intro byte member opens
      have numbers := Lead.of?_numbers announced
      have trailing := kept.trailing (by omega) (by omega) byte (List.mem_append_right tail member)
      rcases begins_iff.mp opens with ⟨ascii, _⟩ | ⟨other, leads, _⟩
      · simp only [isAscii, UInt8.lt_iff_toNat_lt, UInt8.reduceToNat, decide_eq_true_eq] at ascii
        omega
      · have high := Lead.of?_numbers leads
        omega

theorem Begins.inner {left right : Bytes} (begun : Begins (left ++ right)) (present : left ≠ [])
    (beyond : right ≠ []) (more : Bytes) : ¬ Begins (right ++ more) := by
  cases right with
  | nil => exact absurd rfl beyond
  | cons first rest =>
    intro opens
    rw [List.cons_append, ← List.singleton_append] at opens
    exact begun.later present first List.mem_cons_self opens.left

theorem Opening.begins {bytes : Bytes} (opening : Opening bytes) : Begins bytes :=
  begins_iff_spelled_or_opening.mpr (.inr opening)

theorem Opening.nil : Opening [] :=
  ⟨'a', String.utf8EncodeChar 'a', String.utf8EncodeChar_ne_nil, rfl⟩

theorem encode_injective {left right : List Char} (same : encode left = encode right) :
    left = right := by
  rw [← ofText_ofList, ← ofText_ofList] at same
  have texts : String.ofList left = String.ofList right :=
    String.toByteArray_inj.mp (ByteArray.ext (Array.ext' same))
  simpa only [String.toList_ofList] using congrArg String.toList texts

theorem utf8EncodeChar_injective {left right : Char}
    (same : String.utf8EncodeChar left = String.utf8EncodeChar right) : left = right := by
  have lists : encode [left] = encode [right] := by simp [same]
  exact List.singleton_inj.mp (encode_injective lists)

-- One byte is the scalar value itself; more than one are all above ASCII, and so is the value.
theorem encode_ranges (scalar : Char) :
    (scalar.toNat < 0x80 ∧ String.utf8EncodeChar scalar = [UInt8.ofNat scalar.toNat]) ∨
      (0x80 ≤ scalar.toNat ∧ ∀ byte ∈ String.utf8EncodeChar scalar, 0x80 ≤ byte.toNat) := by
  by_cases small : scalar.toNat < 0x80
  · have value : (UInt8.ofNat scalar.toNat).toNat = scalar.toNat := by
      rw [UInt8.toNat_ofNat']
      omega
    have alone : String.utf8EncodeChar (Char.ofNat (UInt8.ofNat scalar.toNat).toNat) = _ :=
      encode_one (by simpa [isAscii, UInt8.lt_iff_toNat_lt, value] using small)
    rw [value, Char.ofNat_toNat] at alone
    exact .inl ⟨small, alone⟩
  · refine .inr ⟨Nat.le_of_not_lt small, ?_⟩
    rcases encode_announced scalar with
      ⟨byte, ascii, spelled⟩ | ⟨byte, lead, tail, spelled, announced, _, kept⟩
    · have same := utf8EncodeChar_injective (spelled.trans (encode_one ascii).symm)
      simp only [isAscii, UInt8.lt_iff_toNat_lt, UInt8.reduceToNat, decide_eq_true_eq] at ascii
      have value : scalar.toNat = byte.toNat := by
        rw [same]
        exact toNat_ofNat byte.toNat (by left; omega)
      omega
    · have numbers := Lead.of?_numbers announced
      rw [spelled]
      intro other member
      rcases List.mem_cons.mp member with rfl | later
      · omega
      · exact (kept.trailing (by omega) (by omega) other later).1

end InternPool.Utf8
