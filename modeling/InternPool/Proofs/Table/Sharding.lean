import InternPool.Proofs.Table.Valid
import InternPool.Table.Request

namespace InternPool

namespace Options

variable {options : Options}

theorem isPowerOfTwo_iff {n : UInt64} : isPowerOfTwo n = true ↔ n.toNat.isPowerOfTwo := by
  rw [← Nat.ne_zero_and_sub_one_eq_zero_iff_isPowerOfTwo, isPowerOfTwo, Bool.and_eq_true,
    bne_iff_ne, beq_iff_eq, Ne, ← UInt64.toNat_inj, UInt64.toNat_zero]
  apply and_congr_right
  intro positive
  have one : (1 : UInt64) ≤ n := UInt64.le_iff_toNat_le.mpr (Nat.one_le_iff_ne_zero.mpr positive)
  rw [← UInt64.toNat_inj, UInt64.toNat_and, UInt64.toNat_sub_of_le _ _ one, UInt64.toNat_zero]
  rfl

theorem validate_ok_iff :
    options.validate = .ok () ↔
      isPowerOfTwo options.shards = true ∧ options.shards ≤ maxShards ∧
        options.initialCapacity ≤ maxInitialCapacity ∧
        options.arenaChunkSize ≤ maxArenaChunkSize := by
  rw [validate]
  split
  · rename_i refused
    simp only [Bool.or_eq_true, Bool.not_eq_true', decide_eq_true_eq] at refused
    simp only [reduceCtorEq, false_iff]
    rintro ⟨power, fits, _⟩
    rcases refused with odd | large
    · rw [power] at odd
      cases odd
    · exact UInt64.not_le.mpr large fits
  · rename_i accepted
    simp only [Bool.or_eq_true, Bool.not_eq_true', decide_eq_true_eq, not_or,
      Bool.not_eq_false, UInt64.not_lt] at accepted
    split
    · rename_i large
      simp only [reduceCtorEq, false_iff]
      rintro ⟨_, _, fits, _⟩
      exact UInt64.not_le.mpr large fits
    split
    · rename_i large
      simp only [reduceCtorEq, false_iff]
      rintro ⟨_, _, _, fits⟩
      exact UInt64.not_le.mpr large fits
    · rename_i roomy small
      exact iff_of_true rfl
        ⟨accepted.1, accepted.2, UInt64.not_lt.mp roomy, UInt64.not_lt.mp small⟩

end Options

namespace Table

structure Shaped (table : Table) (options : Options) : Prop where
  shards : table.shards.length = options.shards.toNat
  mask : table.mask = options.shards - 1
  hasher : table.hasher = ⟨options.hashSeed⟩

variable {table : Table} {options : Options}

theorem withOptions_ok_iff :
    withOptions options = .ok table ↔ options.validate = .ok () ∧ table = build options := by
  rw [withOptions]
  cases options.validate with
  | ok accepted => simp [eq_comm]
  | error refusal => simp

theorem build_shaped (options : Options) : (build options).Shaped options :=
  ⟨List.length_replicate, rfl, rfl⟩

theorem Shaped.enter (shaped : table.Shaped options) (process : Process) (hash : UInt64)
    (content : Bytes) : (table.enter process hash content).table.Shaped options := by
  refine ⟨?_, shaped.mask, shaped.hasher⟩
  rw [Table.enter, List.length_set]
  exact shaped.shards

-- The number of shards is a power of two, so the mask takes the remainder by it.
theorem Shaped.shardOf (shaped : table.Shaped options) (accepted : options.validate = .ok ())
    (hash : UInt64) : table.shardOf hash = (hash >>> 32).toNat % options.shards.toNat := by
  obtain ⟨exponent, power⟩ :=
    Options.isPowerOfTwo_iff.mp (Options.validate_ok_iff.mp accepted).1
  have one : (1 : UInt64) ≤ options.shards := by
    rw [UInt64.le_iff_toNat_le, power]
    exact Nat.one_le_two_pow
  rw [Table.shardOf, UInt64.toNat_and, shaped.mask, UInt64.toNat_sub_of_le _ _ one, power]
  exact Nat.and_two_pow_sub_one_eq_mod _ exponent

variable [ContentHash]

theorem Shaped.call (shaped : table.Shaped options) (process : Process) (call : Call) :
    (table.call process call).table.Shaped options := by
  cases interns : call.interns with
  | true =>
    rw [call_interning interns]
    exact shaped.enter process _ _
  | false =>
    rw [call_looking interns]
    exact shaped

theorem Shaped.answer (shaped : table.Shaped options) (process : Process) (request : Request) :
    (table.answer process request).table.Shaped options := by
  cases request with
  | call call => exact shaped.call process call
  | length | isEmpty | stats | shardLengths | entries => exact shaped

end Table

end InternPool
