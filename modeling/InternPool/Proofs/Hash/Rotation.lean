import InternPool.Hash.Lanes

namespace InternPool.Hash

variable {word one other count : UInt64} {bytes : Bytes}

theorem toNat_shift (count : UInt64) : (count.toBitVec % 64).toNat = count.toNat % 64 := by
  rw [BitVec.toNat_umod, UInt64.toNat_toBitVec]
  rfl

-- The rotation is the one of bit strings, by any count; for a whole turn both shifts leave the word
-- as it is.
theorem toBitVec_rotateLeft (word count : UInt64) :
    (rotateLeft word count).toBitVec = word.toBitVec.rotateLeft count.toNat := by
  have down : ((64 - count).toBitVec % 64).toNat = (64 - count.toNat % 64) % 64 := by
    have bound := count.toNat_lt
    rw [toNat_shift, UInt64.toNat_sub]
    change (2 ^ 64 - count.toNat + 64) % 2 ^ 64 % 64 = _
    omega
  rw [rotateLeft, UInt64.toBitVec_or, UInt64.toBitVec_shiftLeft, UInt64.toBitVec_shiftRight,
    BitVec.shiftLeft_eq', BitVec.ushiftRight_eq', toNat_shift, down, BitVec.rotateLeft_def]
  by_cases whole : count.toNat % 64 = 0
  · rw [whole, BitVec.ushiftRight_eq_zero (Nat.le_refl 64), BitVec.or_zero, BitVec.shiftLeft_zero]
    exact BitVec.or_self
  · have part : 64 - count.toNat % 64 < 64 := by omega
    rw [Nat.mod_eq_of_lt part]

theorem bit_rotateLeft (word count : UInt64) {bit : Nat} (inside : bit < 64) :
    (rotateLeft word count).toBitVec.getLsbD bit =
      word.toBitVec.getLsbD ((bit + (64 - count.toNat % 64)) % 64) := by
  rw [toBitVec_rotateLeft, BitVec.getLsbD_rotateLeft]
  by_cases low : bit < count.toNat % 64
  · have place : (bit + (64 - count.toNat % 64)) % 64 = 64 - count.toNat % 64 + bit := by omega
    rw [place, decide_eq_true low, cond_true]
  · have place : (bit + (64 - count.toNat % 64)) % 64 = bit - count.toNat % 64 := by omega
    rw [place, decide_eq_false low, cond_false, decide_eq_true inside, Bool.true_and]

theorem eq_of_bits
    (same : ∀ bit < 64, one.toBitVec.getLsbD bit = other.toBitVec.getLsbD bit) : one = other :=
  UInt64.toBitVec_inj.mp (BitVec.eq_of_getLsbD_eq same)

theorem rotateLeft_zero (word : UInt64) : rotateLeft word 0 = word := by
  apply eq_of_bits
  intro bit inside
  rw [bit_rotateLeft word 0 inside]
  congr 1
  change (bit + 64) % 64 = bit
  omega

theorem rotateLeft_twice {first second both : UInt64}
    (sum : (first.toNat + second.toNat) % 64 = both.toNat % 64) (word : UInt64) :
    rotateLeft (rotateLeft word first) second = rotateLeft word both := by
  apply eq_of_bits
  intro bit inside
  have within : (bit + (64 - second.toNat % 64)) % 64 < 64 := Nat.mod_lt _ (by decide)
  rw [bit_rotateLeft _ _ inside, bit_rotateLeft _ _ within, bit_rotateLeft _ _ inside]
  congr 1
  omega

theorem rotateLeft_xor (one other count : UInt64) :
    rotateLeft (one ^^^ other) count = rotateLeft one count ^^^ rotateLeft other count := by
  apply eq_of_bits
  intro bit inside
  simp only [UInt64.toBitVec_xor, BitVec.getLsbD_xor, bit_rotateLeft _ _ inside]

-- Rotating on to a full turn gives the word back.
theorem rotateLeft_inj : rotateLeft one count = rotateLeft other count ↔ one = other := by
  constructor
  · intro same
    have turn : (count.toNat + (64 - count % 64).toNat) % 64 = (0 : UInt64).toNat % 64 := by
      rw [UInt64.toNat_sub, UInt64.toNat_mod]
      simp only [UInt64.reduceToNat]
      omega
    rw [← rotateLeft_zero one, ← rotateLeft_twice turn, same, rotateLeft_twice turn,
      rotateLeft_zero]
  · rintro rfl
    rfl

-- A byte in a lane: its bits stand there, and all others are clear.
theorem bit_placed (byte : UInt8) {lane : Nat} (few : lane < 8) (bit : Nat) :
    (byte.toUInt64 <<< UInt64.ofNat (8 * lane)).toBitVec.getLsbD bit =
      (decide (bit / 8 = lane) && byte.toBitVec.getLsbD (bit % 8)) := by
  have shift : ((UInt64.ofNat (8 * lane)).toBitVec % 64).toNat = 8 * lane := by
    rw [toNat_shift, UInt64.toNat_ofNat']
    omega
  rw [UInt64.toBitVec_shiftLeft, BitVec.shiftLeft_eq', shift, BitVec.getLsbD_shiftLeft,
    UInt8.toBitVec_toUInt64, BitVec.getLsbD_setWidth]
  by_cases here : bit / 8 = lane
  · have place : bit - 8 * lane = bit % 8 := by omega
    have inside : bit < 64 := by omega
    have reached : ¬ bit < 8 * lane := by omega
    have within : bit % 8 < 64 := by omega
    simp only [place, inside, reached, within, here, decide_true, decide_false, Bool.not_false,
      Bool.true_and]
  · rw [decide_eq_false here, Bool.false_and]
    by_cases reached : bit < 8 * lane
    · simp only [reached, decide_true, Bool.not_true, Bool.and_false, Bool.false_and]
    · have above : 8 ≤ bit - 8 * lane := by omega
      rw [BitVec.getLsbD_of_ge byte.toBitVec _ above, Bool.and_false, Bool.and_false]

-- With only the first lanes filled, those above are still clear.
theorem bit_gathered (byteOf : Nat → UInt8) {count : Nat} (few : count ≤ 8) (bit : Nat) :
    ((List.range count).foldl
        (fun sum lane => sum ^^^ (byteOf lane).toUInt64 <<< UInt64.ofNat (8 * lane))
        0).toBitVec.getLsbD bit =
      (decide (bit / 8 < count) && (byteOf (bit / 8)).toBitVec.getLsbD (bit % 8)) := by
  induction count with
  | zero => simp
  | succ count ih =>
    rw [List.range_succ, List.foldl_append, List.foldl_cons, List.foldl_nil, UInt64.toBitVec_xor,
      BitVec.getLsbD_xor, ih (Nat.le_of_succ_le few), bit_placed (byteOf count) few]
    by_cases here : bit / 8 = count
    · simp [here]
    · have below : bit / 8 < count + 1 ↔ bit / 8 < count := by omega
      rw [decide_eq_false here, Bool.false_and, Bool.xor_false, decide_eq_decide.mpr below]

theorem bit_lanes (bytes : Bytes) {bit : Nat} (inside : bit < 64) :
    (lanes bytes).toBitVec.getLsbD bit =
      (laneOf bytes (bit / 8)).toBitVec.getLsbD (bit % 8) := by
  have few : bit / 8 < 8 := by omega
  rw [lanes, bit_gathered (laneOf bytes) (Nat.le_refl 8), decide_eq_true few, Bool.true_and]

theorem eq_lanes_iff :
    word = lanes bytes ↔
      ∀ lane < 8, word.toBitVec.extractLsb' (8 * lane) 8 = (laneOf bytes lane).toBitVec := by
  constructor
  · rintro rfl lane few
    apply BitVec.eq_of_getLsbD_eq
    intro bit within
    have inside : 8 * lane + bit < 64 := by omega
    have lanePart : (8 * lane + bit) / 8 = lane := by omega
    have bitPart : (8 * lane + bit) % 8 = bit := by omega
    rw [BitVec.getLsbD_extractLsb', decide_eq_true within, Bool.true_and, bit_lanes bytes inside,
      lanePart, bitPart]
  · intro each
    apply eq_of_bits
    intro bit inside
    have few : bit / 8 < 8 := by omega
    have within : bit % 8 < 8 := Nat.mod_lt _ (by decide)
    rw [bit_lanes bytes inside, ← each (bit / 8) few, BitVec.getLsbD_extractLsb',
      decide_eq_true within, Bool.true_and, Nat.div_add_mod]

-- One more byte moves all others up by a lane, those of the highest round to the lowest, and goes
-- there itself.
theorem laneOf_concat (bytes : Bytes) (byte : UInt8) {lane : Nat} (few : lane < 8) :
    laneOf (bytes ++ [byte]) lane =
      laneOf bytes ((lane + 7) % 8) ^^^ if lane = 0 then byte else 0 := by
  have moved : ∀ entry ∈ bytes.zipIdx,
      ((bytes.length + 1 - 1 - entry.2) % 8 == lane) =
        ((bytes.length - 1 - entry.2) % 8 == (lane + 7) % 8) := by
    intro entry member
    have place := List.snd_lt_of_mem_zipIdx member
    rw [Bool.eq_iff_iff, beq_iff_eq, beq_iff_eq]
    omega
  rw [laneOf, List.zipIdx_append, List.length_append, List.length_singleton, List.filter_append,
    List.filter_congr moved, List.foldl_append, ← laneOf, List.zipIdx_singleton]
  by_cases lowest : lane = 0
  · simp [lowest]
  · simp [lowest, Ne.symm lowest]

theorem lanes_concat (bytes : Bytes) (byte : UInt8) :
    lanes (bytes ++ [byte]) = rotateLeft (lanes bytes) 8 ^^^ byte.toUInt64 := by
  apply eq_of_bits
  intro bit inside
  have few : bit / 8 < 8 := by omega
  have within : (bit + (64 - 8)) % 64 < 64 := Nat.mod_lt _ (by decide)
  have lanePart : (bit + (64 - 8)) % 64 / 8 = (bit / 8 + 7) % 8 := by omega
  have bitPart : (bit + (64 - 8)) % 64 % 8 = bit % 8 := by omega
  rw [bit_lanes _ inside, laneOf_concat bytes byte few, UInt64.toBitVec_xor, BitVec.getLsbD_xor,
    bit_rotateLeft _ _ inside]
  change _ = ((lanes bytes).toBitVec.getLsbD ((bit + (64 - 8)) % 64) ^^ _)
  rw [bit_lanes bytes within, lanePart, bitPart, UInt8.toBitVec_xor, BitVec.getLsbD_xor,
    UInt8.toBitVec_toUInt64, BitVec.getLsbD_setWidth, decide_eq_true inside, Bool.true_and]
  by_cases lowest : bit / 8 = 0
  · have part : bit % 8 = bit := by omega
    rw [if_pos lowest, part]
  · have above : 8 ≤ bit := by omega
    rw [if_neg lowest, BitVec.getLsbD_of_ge byte.toBitVec _ above, UInt8.toBitVec_zero,
      BitVec.getLsbD_zero]

end InternPool.Hash
