import InternPool.Utf8.Ascii

namespace InternPool.Utf8

-- Where the high bits of the eight bytes of a word stand.
def highPlaces : List Nat := [7, 15, 23, 31, 39, 47, 55, 63]

theorem isAscii_iff {byte : UInt8} : isAscii byte = true ↔ byte < 0x80 :=
  decide_eq_true_iff

theorem isAscii_highBit (byte : UInt8) : isAscii byte = !byte.toBitVec.getLsbD 7 := by
  have bound := byte.toNat_lt
  rw [isAscii, Bool.eq_iff_iff]
  simp only [UInt8.lt_iff_toNat_lt, UInt8.reduceToNat, decide_eq_true_eq, Bool.not_eq_true',
    BitVec.getLsbD, UInt8.toNat_toBitVec, Nat.testBit_eq_decide_div_mod_eq, decide_eq_false_iff_not]
  omega

theorem bit_highBits :
    ∀ place < 64, highBits.toBitVec.getLsbD place = decide (place ∈ highPlaces) := by
  decide

theorem highPlaces_inside : ∀ place ∈ highPlaces, place < 64 := by
  decide

theorem bits_word (a b c d e f g h : UInt8) :
    highPlaces.map (word a b c d e f g h).toBitVec.getLsbD =
      [a, b, c, d, e, f, g, h].map fun byte => byte.toBitVec.getLsbD 7 := by
  simp [word, highPlaces]

theorem and_highBits {word : UInt64} :
    word &&& highBits = 0 ↔ ∀ bit ∈ highPlaces.map word.toBitVec.getLsbD, (!bit) = true := by
  rw [List.forall_mem_map, ← UInt64.toBitVec_inj]
  constructor
  · intro clear place high
    have bit := congrArg (fun bits : BitVec 64 => bits.getLsbD place) clear
    simp only [UInt64.toBitVec_and, BitVec.getLsbD_and,
      bit_highBits place (highPlaces_inside place high), high] at bit
    simpa using bit
  · intro low
    apply BitVec.eq_of_getLsbD_eq
    intro place inside
    rw [UInt64.toBitVec_and, BitVec.getLsbD_and, bit_highBits place inside]
    by_cases high : place ∈ highPlaces
    · have clear := low place high
      simp_all
    · simp [high]

theorem word_ascii (a b c d e f g h : UInt8) :
    word a b c d e f g h &&& highBits = 0 ↔
      ∀ byte ∈ [a, b, c, d, e, f, g, h], isAscii byte = true := by
  simp only [isAscii_highBit]
  rw [and_highBits, bits_word, List.forall_mem_map]

theorem asciiRun_exact (bytes : Bytes) : asciiRun bytes = (bytes.takeWhile isAscii).length := by
  fun_induction asciiRun bytes with
  | case1 a b c d e f g h rest clear ih =>
    have ascii := (word_ascii a b c d e f g h).mp clear
    change asciiRun rest + 8 = (([a, b, c, d, e, f, g, h] ++ rest).takeWhile isAscii).length
    rw [ih, List.takeWhile_append_of_pos ascii, List.length_append, Nat.add_comm]
    rfl
  | case2 => rfl
  | case3 => rfl

theorem take_asciiRun (bytes : Bytes) :
    ∀ byte ∈ bytes.take (asciiRun bytes), isAscii byte = true := by
  intro byte member
  rw [asciiRun_exact, ← List.prefix_iff_eq_take.mp (List.takeWhile_prefix isAscii)] at member
  exact List.all_eq_true.mp List.all_takeWhile byte member

end InternPool.Utf8
