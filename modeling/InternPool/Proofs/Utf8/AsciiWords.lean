import InternPool.Proofs.Utf8.AsciiRun
import InternPool.Proofs.Utf8.Verdict

namespace InternPool.Utf8

-- The words of eight bytes from the front on; fewer than eight bytes at the end are in none.
def words (bytes : List UInt8) : List UInt64 :=
  match bytes with
  | a :: b :: c :: d :: e :: f :: g :: h :: rest => word a b c d e f g h :: words rest
  | _ => []

def isClear (word : UInt64) : Bool :=
  word &&& highBits == 0

def clearWords (bytes : Bytes) : Nat :=
  ((words bytes).takeWhile isClear).length

def afterWords (bytes : Bytes) : Bytes :=
  bytes.drop (8 * clearWords bytes)

variable {bytes : Bytes}

theorem short_of_no_word
    (none : ∀ a b c d e f g h rest, bytes = a :: b :: c :: d :: e :: f :: g :: h :: rest → False) :
    bytes.length < 8 := by
  apply Nat.lt_of_not_le
  intro long
  match bytes, long with
  | a :: b :: c :: d :: e :: f :: g :: h :: rest, _ => exact none a b c d e f g h rest rfl

theorem length_words (bytes : Bytes) : (words bytes).length = bytes.length / 8 := by
  fun_induction words bytes with
  | case1 a b c d e f g h rest ih =>
    simp only [List.length_cons, ih]
    omega
  | case2 bytes none => rw [List.length_nil, Nat.div_eq_of_lt (short_of_no_word none)]

-- The place of a word among the words tells the place of its bytes in the input.
theorem words_ascii {place : Nat} {word : UInt64} (found : (words bytes)[place]? = some word) :
    word &&& highBits = 0 ↔ ∀ byte ∈ (bytes.drop (8 * place)).take 8, isAscii byte = true := by
  fun_induction words bytes generalizing place with
  | case1 a b c d e f g h rest ih =>
    cases place with
    | zero =>
      cases found
      exact word_ascii a b c d e f g h
    | succ place =>
      rw [List.getElem?_cons_succ] at found
      exact ih found
  | case2 => cases found

-- A machine that puts the first byte highest makes the same of the test.
theorem word_reversed (a b c d e f g h : UInt8) :
    word h g f e d c b a &&& highBits = 0 ↔ word a b c d e f g h &&& highBits = 0 := by
  rw [word_ascii, word_ascii]
  simp only [List.forall_mem_cons]
  grind

-- The word path stops at the first word that is not clear, and single bytes do the rest.
theorem asciiRun_parts (bytes : Bytes) :
    asciiRun bytes = 8 * clearWords bytes + ((afterWords bytes).takeWhile isAscii).length := by
  fun_induction asciiRun bytes with
  | case1 a b c d e f g h rest clear ih =>
    have first : isClear (word a b c d e f g h) = true := beq_iff_eq.mpr clear
    have more : clearWords (a :: b :: c :: d :: e :: f :: g :: h :: rest) = clearWords rest + 1 := by
      rw [clearWords, words, List.takeWhile_cons_of_pos first, List.length_cons, clearWords]
    rw [ih, afterWords, afterWords, more]
    change _ = 8 * (clearWords rest + 1) + ((rest.drop (8 * clearWords rest)).takeWhile isAscii).length
    omega
  | case2 a b c d e f g h rest high =>
    have first : ¬ isClear (word a b c d e f g h) = true := fun clear => high (beq_iff_eq.mp clear)
    have none : clearWords (a :: b :: c :: d :: e :: f :: g :: h :: rest) = 0 := by
      rw [clearWords, words, List.takeWhile_cons_of_neg first, List.length_nil]
    rw [afterWords, none, Nat.mul_zero, Nat.zero_add, List.drop_zero]
  | case3 bytes none =>
    have empty : words bytes = [] := by
      rw [← List.length_eq_zero_iff, length_words, Nat.div_eq_of_lt (short_of_no_word none)]
    have none : clearWords bytes = 0 := by
      rw [clearWords, empty, List.takeWhile_nil, List.length_nil]
    rw [afterWords, none, Nat.mul_zero, Nat.zero_add, List.drop_zero]

-- The word behind the clear ones, if there is one, is not clear.
theorem stopped_not_clear {word : UInt64} (found : (words bytes)[clearWords bytes]? = some word) :
    isClear word = false := by
  have parts := List.takeWhile_append_dropWhile (p := isClear) (l := words bytes)
  have first : ((words bytes).dropWhile isClear).head? = some word := by
    rw [← found, List.head?_eq_getElem?, clearWords, ← Nat.sub_self (clearWords bytes), clearWords,
      ← List.getElem?_append_right (Nat.le_refl _), parts]
  have high := List.head?_dropWhile_not isClear (words bytes)
  rwa [first] at high

-- Eight ASCII bytes in a row would have been one more clear word.
theorem afterWords_run_lt (bytes : Bytes) : asciiRun (afterWords bytes) < 8 := by
  cases found : (words bytes)[clearWords bytes]? with
  | none =>
    have all := List.getElem?_eq_none_iff.mp found
    have fits := asciiRun_le (afterWords bytes)
    rw [length_words] at all
    rw [afterWords, List.length_drop] at fits
    rw [afterWords]
    omega
  | some word =>
    apply Nat.lt_of_not_le
    intro long
    have ascii : ∀ byte ∈ (afterWords bytes).take 8, isAscii byte = true := fun byte member =>
      take_asciiRun (afterWords bytes) byte (List.take_subset_take_left _ long member)
    have clear := (words_ascii found).mpr ascii
    exact absurd clear (beq_eq_false_iff_ne.mp (stopped_not_clear found))

theorem asciiRun_longest (bytes : Bytes) :
    LongestPrefix (fun front => ∀ byte ∈ front, byte < 0x80) bytes (asciiRun bytes) := by
  simp only [← isAscii_iff]
  refine ⟨asciiRun_le bytes, take_asciiRun bytes, ?_⟩
  intro other fits ascii
  have front : (bytes.take other ++ bytes.drop other).takeWhile isAscii =
      bytes.take other ++ (bytes.drop other).takeWhile isAscii :=
    List.takeWhile_append_of_pos ascii
  rw [List.take_append_drop] at front
  rw [asciiRun_exact, front, List.length_append, List.length_take]
  omega

structure AsciiMeasured (bytes : Bytes) : Prop where
  longest : LongestPrefix (fun front => ∀ byte ∈ front, byte < 0x80) bytes (asciiRun bytes)
  count : (words bytes).length = bytes.length / 8
  tested : ∀ {place word}, (words bytes)[place]? = some word →
    (word &&& highBits = 0 ↔ ∀ byte ∈ (bytes.drop (8 * place)).take 8, byte < 0x80)
  parts : asciiRun bytes =
    8 * clearWords bytes + ((afterWords bytes).takeWhile (· < 0x80)).length
  remainder : ((afterWords bytes).takeWhile (· < 0x80)).length < 8
  fits : asciiRun bytes ≤ bytes.length
  advances : ∀ {byte rest}, bytes = byte :: rest → byte < 0x80 → 1 ≤ asciiRun bytes

-- The test of a word does not ask in which order the bytes are put into it.
theorem ascii_measured (bytes : Bytes) :
    AsciiMeasured bytes ∧ ∀ a b c d e f g h : UInt8,
      (word a b c d e f g h &&& highBits = 0 ↔
        ∀ byte ∈ [a, b, c, d, e, f, g, h], byte < 0x80) ∧
      (word h g f e d c b a &&& highBits = 0 ↔ word a b c d e f g h &&& highBits = 0) := by
  have remainder := afterWords_run_lt bytes
  rw [asciiRun_exact] at remainder
  refine ⟨⟨asciiRun_longest bytes, length_words bytes, ?_, asciiRun_parts bytes, remainder,
    asciiRun_le bytes, ?_⟩, ?_⟩
  · intro place word found
    simpa only [isAscii_iff] using words_ascii found
  · rintro byte rest rfl ascii
    exact asciiRun_pos rest (isAscii_iff.mpr ascii)
  · intro a b c d e f g h
    refine ⟨?_, word_reversed a b c d e f g h⟩
    simpa only [isAscii_iff] using word_ascii a b c d e f g h

-- The word that is not clear begins with three ASCII bytes, which count all the same.
example :
    let bytes := List.replicate 11 0x61 ++ [0xFF, 0x61, 0x61, 0x61, 0x61]
    clearWords bytes = 1 ∧ asciiRun bytes = 11 := by decide

end InternPool.Utf8
