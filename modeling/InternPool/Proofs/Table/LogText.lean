import Std.Data.String.ToNat
import InternPool.Process

namespace InternPool

namespace Text

def hexDigitValue (digit : Char) : Nat :=
  if digit.isDigit then digit.toNat - '0'.toNat else digit.toNat - 'a'.toNat + 10

def hexValue (digits : List Char) : Nat :=
  digits.foldl (fun value digit => 16 * value + hexDigitValue digit) 0

theorem hexDigitValue_digitChar : ∀ digit < 16, hexDigitValue digit.digitChar = digit := by
  decide

theorem hexValue_digits (n : Nat) : hexValue (hexDigits n) = n := by
  induction n using Nat.strongRecOn with
  | ind n ih =>
    rw [hexDigits, Nat.toDigits_eq_if (by decide)]
    split
    · rename_i small
      rw [hexValue, List.foldl_cons, List.foldl_nil, hexDigitValue_digitChar n small, Nat.mul_zero,
        Nat.zero_add]
    · rename_i large
      have high := ih (n / 16) (Nat.div_lt_self (by omega) (by decide))
      rw [hexDigits, hexValue] at high
      rw [hexValue, List.foldl_append, high, List.foldl_cons, List.foldl_nil,
        hexDigitValue_digitChar _ (Nat.mod_lt n (by decide))]
      exact Nat.div_add_mod n 16

theorem hexValue_zeros (count : Nat) (digits : List Char) :
    hexValue (List.replicate count '0' ++ digits) = hexValue digits := by
  induction count with
  | zero => rfl
  | succ count ih => exact ih

theorem hexWord_exact (word : UInt64) :
    (hexWord word).toList.length = 16 ∧ hexValue (hexWord word).toList = word.toNat := by
  have short : (hexDigits word.toNat).length ≤ 16 :=
    (Nat.length_toDigits_le_iff (by decide) (by decide)).mpr word.toNat_lt
  rw [hexWord, String.toList_ofList]
  refine ⟨?_, ?_⟩
  · rw [List.length_append, List.length_replicate, Nat.sub_add_cancel short]
  · rw [hexValue_zeros, hexValue_digits]

-- What follows a number begins with no digit, so it is told where the number ends.
theorem digits_end {left right rest others : List Char} {stop : Char}
    (digits : ∀ digit ∈ left, digit.isDigit = true) (too : ∀ digit ∈ right, digit.isDigit = true)
    (other : stop.isDigit = false) (same : left ++ stop :: rest = right ++ stop :: others) :
    left = right ∧ rest = others := by
  have cut : ∀ {number : List Char}, (∀ digit ∈ number, digit.isDigit = true) → ∀ more,
      (number ++ stop :: more).takeWhile Char.isDigit = number := by
    intro number all more
    rw [List.takeWhile_append_of_pos all, List.takeWhile_cons_of_neg (by rw [other]; decide),
      List.append_nil]
  have equal : left = right := by rw [← cut digits rest, same, cut too others]
  subst equal
  exact ⟨rfl, (List.cons.inj (List.append_cancel_left same)).2⟩

theorem digits_repr (n : Nat) : ∀ digit ∈ (toString n).toList, digit.isDigit = true := by
  intro digit member
  rw [Nat.toString_eq_repr, Nat.toList_repr] at member
  exact Nat.isDigit_of_mem_toDigits (by decide) (by decide) member

theorem repr_inj {n m : Nat} (same : (toString n).toList = (toString m).toList) : n = m :=
  Nat.repr_injective (String.toList_inj.mp same)

end Text

namespace Event

-- The text of the event names the length in decimal, the hash in sixteen digits to base 16 and the
-- shard in decimal, and it is the text of no other event.
structure Renders (event : Event) (length : Nat) (hash : UInt64) (shard : Nat) : Prop where
  text : ∃ digits : List Char, digits.length = 16 ∧ Text.hexValue digits = hash.toNat ∧
    event.message = "canonicalized " ++ toString length ++ " bytes (hash 0x" ++
      String.ofList digits ++ ") in shard " ++ toString shard
  only : ∀ other : Event, other.message = event.message → other = .canonicalized length hash shard

theorem message_canonicalized (length : Nat) (hash : UInt64) (shard : Nat) :
    (Event.canonicalized length hash shard).message =
      "canonicalized " ++ toString length ++ " bytes (hash 0x" ++ Text.hexWord hash ++
        ") in shard " ++ toString shard := by
  unfold message
  rfl

theorem message_inj {size length : Nat} {word hash : UInt64} {place shard : Nat}
    (same : (Event.canonicalized size word place).message.toList =
      (Event.canonicalized length hash shard).message.toList) :
    Event.canonicalized size word place = .canonicalized length hash shard := by
  have stop : " bytes (hash 0x".toList = ' ' :: "bytes (hash 0x".toList := by decide
  simp only [message_canonicalized, String.toList_append, List.append_assoc,
    List.append_cancel_left_eq, stop, List.cons_append] at same
  obtain ⟨sizes, same⟩ := Text.digits_end (Text.digits_repr size) (Text.digits_repr length)
    (by decide) same
  have words := Text.hexWord_exact word
  have hashes := Text.hexWord_exact hash
  -- Hashes all have as many digits, so they end at the same place.
  obtain ⟨alike, same⟩ := List.append_inj (List.append_cancel_left same)
    (words.1.trans hashes.1.symm)
  rw [alike, hashes.2] at words
  rw [Text.repr_inj sizes, Text.repr_inj (List.append_cancel_left same),
    UInt64.toNat_inj.mp words.2]

theorem canonicalized_renders (length : Nat) (hash : UInt64) (shard : Nat) :
    (Event.canonicalized length hash shard).Renders length hash shard where
  text := by
    obtain ⟨size, value⟩ := Text.hexWord_exact hash
    exact ⟨_, size, value, by rw [String.ofList_toList, message_canonicalized]⟩
  only := by
    intro other same
    replace same := congrArg String.toList same
    cases other with
    | canonicalized size word place => exact message_inj same
    | created | initializing | configured =>
      rw [message_canonicalized] at same
      unfold message at same
      simp only [String.toList_append, List.append_assoc] at same
      simp at same

end Event

end InternPool
