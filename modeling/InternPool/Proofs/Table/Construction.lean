import Mathlib.Algebra.Order.Floor.Div
import InternPool.Hash.Xxh3
import InternPool.Proofs.Concurrent.Representation

namespace InternPool

-- Words as long as a result fits; where it does not, the program stops.
namespace Word

def plus? (left right : UInt64) : Option UInt64 :=
  if left.toNat + right.toNat < UInt64.size then some (left + right) else none

def minus? (left right : UInt64) : Option UInt64 :=
  if right ≤ left then some (left - right) else none

def divide? (left right : UInt64) : Option (UInt64 × UInt64) :=
  if right = 0 then none else some (left / right, left % right)

end Word

-- What gives a new shard its room, so many slots for its index and so many bytes for content, if it
-- can.
abbrev Reserve := (slots arenaChunkSize : UInt64) → Option Shard

-- It can within the bounds that options are held to.
def Reserve.Provides (reserve : Reserve) : Prop :=
  ∀ slots arenaChunkSize, slots ≤ Options.maxInitialCapacity →
    arenaChunkSize ≤ Options.maxArenaChunkSize → reserve slots arenaChunkSize = some .empty

namespace Options

def slots? (options : Options) : Option UInt64 := do
  let (share, rest) ← Word.divide? options.initialCapacity options.shards
  if rest = 0 then some share else Word.plus? share 1

def ShardsAllowed (options : Options) : Prop :=
  ∃ exponent ≤ 10, options.shards.toNat = 2 ^ exponent

structure Admitted (options : Options) : Prop where
  shards : options.ShardsAllowed
  initialCapacity : options.initialCapacity.toNat ≤ 2 ^ 24
  arenaChunkSize : options.arenaChunkSize.toNat ≤ 2 ^ 26

-- The first of the rules that the options break, and the value that breaks it.
inductive Violates (options : Options) : Refusal → Prop where
  | shards (disallowed : ¬ options.ShardsAllowed) :
      Violates options (.invalidShardCount options.shards)
  | initialCapacity (allowed : options.ShardsAllowed)
      (large : 2 ^ 24 < options.initialCapacity.toNat) :
      Violates options (.initialCapacityTooLarge options.initialCapacity)
  | arenaChunkSize (allowed : options.ShardsAllowed)
      (fits : options.initialCapacity.toNat ≤ 2 ^ 24)
      (large : 2 ^ 26 < options.arenaChunkSize.toNat) :
      Violates options (.arenaChunkTooLarge options.arenaChunkSize)

variable {options : Options} {refusal : Refusal}

theorem shardsAllowed_iff :
    options.ShardsAllowed ↔ isPowerOfTwo options.shards = true ∧ options.shards ≤ maxShards := by
  rw [isPowerOfTwo_iff, UInt64.le_iff_toNat_le]
  have top : maxShards.toNat = 2 ^ 10 := rfl
  constructor
  · rintro ⟨exponent, small, power⟩
    refine ⟨⟨exponent, power⟩, ?_⟩
    rw [top, power]
    exact Nat.pow_le_pow_right (by decide) small
  · rintro ⟨⟨exponent, power⟩, fits⟩
    rw [top, power] at fits
    exact ⟨exponent, (Nat.pow_le_pow_iff_right (by decide)).mp fits, power⟩

theorem initialCapacity_le_iff :
    options.initialCapacity ≤ maxInitialCapacity ↔ options.initialCapacity.toNat ≤ 2 ^ 24 :=
  UInt64.le_iff_toNat_le

theorem arenaChunkSize_le_iff :
    options.arenaChunkSize ≤ maxArenaChunkSize ↔ options.arenaChunkSize.toNat ≤ 2 ^ 26 :=
  UInt64.le_iff_toNat_le

theorem admitted_iff : options.Admitted ↔ options.validate = .ok () := by
  rw [validate_ok_iff, ← and_assoc, ← shardsAllowed_iff, initialCapacity_le_iff,
    arenaChunkSize_le_iff]
  exact ⟨fun ⟨shards, capacity, chunk⟩ => ⟨shards, capacity, chunk⟩,
    fun ⟨shards, capacity, chunk⟩ => ⟨shards, capacity, chunk⟩⟩

theorem shards_refused_iff :
    (!isPowerOfTwo options.shards || decide (maxShards < options.shards)) = true ↔
      ¬ options.ShardsAllowed := by
  rw [shardsAllowed_iff, not_and_or, UInt64.not_le, Bool.or_eq_true, Bool.not_eq_true',
    Bool.not_eq_true, decide_eq_true_iff]

theorem Violates.refused (violates : options.Violates refusal) :
    options.validate = .error refusal := by
  rw [validate]
  cases violates with
  | shards disallowed => rw [if_pos (shards_refused_iff.mpr disallowed)]
  | initialCapacity allowed large =>
    rw [← Nat.not_le, ← initialCapacity_le_iff, UInt64.not_le] at large
    rw [if_neg (fun refused => shards_refused_iff.mp refused allowed), if_pos large]
  | arenaChunkSize allowed fits large =>
    rw [← initialCapacity_le_iff] at fits
    rw [← Nat.not_le, ← arenaChunkSize_le_iff, UInt64.not_le] at large
    rw [if_neg (fun refused => shards_refused_iff.mp refused allowed),
      if_neg (UInt64.not_lt.mpr fits), if_pos large]

theorem admitted_or_violates (options : Options) :
    options.Admitted ∨ ∃ refusal, options.Violates refusal := by
  by_cases allowed : options.ShardsAllowed
  · by_cases fits : options.initialCapacity.toNat ≤ 2 ^ 24
    · by_cases small : options.arenaChunkSize.toNat ≤ 2 ^ 26
      · exact .inl ⟨allowed, fits, small⟩
      · exact .inr ⟨_, .arenaChunkSize allowed fits (Nat.lt_of_not_le small)⟩
    · exact .inr ⟨_, .initialCapacity allowed (Nat.lt_of_not_le fits)⟩
  · exact .inr ⟨_, .shards allowed⟩

theorem violates_iff : options.Violates refusal ↔ options.validate = .error refusal := by
  constructor
  · exact Violates.refused
  · intro refused
    rcases options.admitted_or_violates with admitted | ⟨other, violates⟩
    · rw [admitted_iff.mp admitted] at refused
      cases refused
    · rw [violates.refused] at refused
      cases refused
      exact violates

theorem Admitted.positive (admitted : options.Admitted) : 1 ≤ options.shards.toNat := by
  obtain ⟨exponent, _, power⟩ := admitted.shards
  rw [power]
  exact Nat.one_le_two_pow

theorem Admitted.share_le (admitted : options.Admitted) :
    (options.initialCapacity / options.shards).toNat ≤ 2 ^ 24 := by
  rw [UInt64.toNat_div]
  exact Nat.le_trans (Nat.div_le_self _ _) admitted.initialCapacity

theorem Admitted.slots?_some (admitted : options.Admitted) :
    options.slots? = some options.slots := by
  have share := admitted.share_le
  have shards : options.shards ≠ 0 := by
    intro zero
    have positive := admitted.positive
    rw [zero] at positive
    cases positive
  rw [slots?, Word.divide?, if_neg shards, slots]
  dsimp only [Option.bind_eq_bind, Option.bind_some]
  split
  · rfl
  · rw [Word.plus?, if_pos]
    change _ + 1 < 2 ^ 64
    omega

theorem Admitted.slots_eq (admitted : options.Admitted) :
    options.slots.toNat = options.initialCapacity.toNat / options.shards.toNat +
      if options.initialCapacity.toNat % options.shards.toNat = 0 then 0 else 1 := by
  have share := admitted.share_le
  have even : options.initialCapacity % options.shards = 0 ↔
      options.initialCapacity.toNat % options.shards.toNat = 0 := by
    rw [← UInt64.toNat_inj, UInt64.toNat_mod, UInt64.toNat_zero]
  simp only [slots, even]
  split
  · rw [UInt64.toNat_div, Nat.add_zero]
  · rw [UInt64.toNat_add, UInt64.toNat_one, Nat.mod_eq_of_lt (by omega), UInt64.toNat_div]

-- The slots of all shards together cover the capacity, and one slot fewer in each would not.
theorem Admitted.slots_bounds (admitted : options.Admitted) :
    options.initialCapacity.toNat ≤ options.slots.toNat * options.shards.toNat ∧
      options.slots.toNat * options.shards.toNat <
        options.initialCapacity.toNat + options.shards.toNat := by
  have shared := Nat.div_add_mod' options.initialCapacity.toNat options.shards.toNat
  have part := Nat.mod_lt options.initialCapacity.toNat admitted.positive
  rw [admitted.slots_eq, Nat.add_mul]
  split <;> omega

theorem Admitted.slots_ceil (admitted : options.Admitted) :
    options.slots.toNat = options.initialCapacity.toNat ⌈/⌉ options.shards.toNat := by
  have positive := admitted.positive
  obtain ⟨covers, fits⟩ := admitted.slots_bounds
  rw [Nat.ceilDiv_eq_add_pred_div]
  refine (Nat.div_eq_of_lt_le ?_ ?_).symm
  · omega
  · rw [Nat.succ_mul]
    omega

-- No shard gets more room than the options may ask for in all.
theorem Admitted.slots_le (admitted : options.Admitted) : options.slots ≤ maxInitialCapacity := by
  obtain ⟨_, fits⟩ := admitted.slots_bounds
  rw [UInt64.le_iff_toNat_le]
  change options.slots.toNat ≤ 2 ^ 24
  refine Nat.le_trans ?_ admitted.initialCapacity
  by_contra more
  have most := Nat.mul_le_mul_right options.shards.toNat (Nat.lt_of_not_le more)
  have whole := Nat.le_mul_of_pos_right options.initialCapacity.toNat admitted.positive
  rw [Nat.succ_mul] at most
  omega

theorem Admitted.mask?_some (admitted : options.Admitted) :
    Word.minus? options.shards 1 = some (options.shards - 1) := by
  rw [Word.minus?, if_pos]
  exact UInt64.le_iff_toNat_le.mpr admitted.positive

end Options

namespace Table

structure Built where
  table : Table
  creation : Event

def build? (reserve : Reserve) (options : Options) : Option Built := do
  let slots ← options.slots?
  let shards ← (List.range options.shards.toNat).mapM fun _ =>
    reserve slots options.arenaChunkSize
  let mask ← Word.minus? options.shards 1
  some
    { table := { shards, mask, hasher := ⟨options.hashSeed⟩ }
      creation := .created options.shards slots options.arenaChunkSize }

def withOptions? (reserve : Reserve) (options : Options) : Option (Except Refusal Built) :=
  match options.validate with
  | .ok () => (build? reserve options).map .ok
  | .error refusal => some (.error refusal)

variable {table : Table} {options : Options} {reserve : Reserve}

theorem build?_some (provides : reserve.Provides) (admitted : options.Admitted) :
    build? reserve options = some ⟨build options, creation options⟩ := by
  have shards : (List.range options.shards.toNat).mapM
      (fun _ => reserve options.slots options.arenaChunkSize) =
      some (List.replicate options.shards.toNat .empty) := by
    have chunk := Options.arenaChunkSize_le_iff.mpr admitted.arenaChunkSize
    rw [provides _ _ admitted.slots_le chunk, ← Option.pure_def, List.mapM_pure, List.map_const',
      List.length_range]
    rfl
  rw [build?, admitted.slots?_some]
  dsimp only [Option.bind_eq_bind, Option.bind_some]
  rw [shards, admitted.mask?_some]
  rfl

theorem withOptions?_some (provides : reserve.Provides) (options : Options) :
    withOptions? reserve options =
      some ((withOptions options).map fun table => ⟨table, creation options⟩) := by
  rw [withOptions?, withOptions]
  cases accepted : options.validate with
  | ok _ =>
    simp only
    rw [build?_some provides (Options.admitted_iff.mpr accepted)]
    rfl
  | error refusal => rfl

theorem shard_found {number : Nat} (inside : number < table.shards.length) :
    table.shards[number]? = some (table.shard number) := by
  rw [shard_of_lt inside, List.getElem?_eq_getElem inside]

-- The number stands in the middle bits of a hash that picks it.
theorem Shaped.selected (shaped : table.Shaped options) (admitted : options.Admitted) {number : Nat}
    (small : number < options.shards.toNat) :
    ∃ hash, table.shardOf hash = number := by
  refine ⟨UInt64.ofNat number <<< 32, ?_⟩
  have most : options.shards.toNat ≤ 2 ^ 10 := by
    obtain ⟨exponent, few, power⟩ := admitted.shards
    rw [power]
    exact Nat.pow_le_pow_right (by decide) few
  have value : (UInt64.ofNat number <<< 32 >>> 32).toNat = number := by
    rw [UInt64.toNat_shiftRight, UInt64.toNat_shiftLeft, UInt64.toNat_ofNat']
    simp only [UInt64.reduceToNat, Nat.shiftLeft_eq, Nat.shiftRight_eq_div_pow, Nat.reduceMod,
      Nat.reducePow]
    omega
  rw [shaped.shardOf (Options.admitted_iff.mp admitted), value, Nat.mod_eq_of_lt small]

section
variable [ContentHash]

-- The shard is picked once, for the look and for the entry.
def internContent? (table : Table) (process : Process) (content : Bytes) : Option Entered := do
  let hash := table.hasher.hash content
  let number := table.shardOf hash
  let shard ← table.shards[number]?
  match shard.find? hash content with
  | some handle => some ⟨handle, table, process⟩
  | none =>
    let entered := shard.enter process number hash content
    some
      { handle := entered.handle
        table := { table with shards := table.shards.set number entered.shard }
        process := entered.process }

def getContent? (table : Table) (content : Bytes) : Option (Option Handle) := do
  let hash := table.hasher.hash content
  let shard ← table.shards[table.shardOf hash]?
  some (shard.find? hash content)

def call? (table : Table) (process : Process) (call : Call) : Option Called :=
  if call.interns then do
    let entered ← table.internContent? process call.content
    some ⟨some entered.handle, entered.table, entered.process⟩
  else do
    let found ← table.getContent? call.content
    some ⟨found, table, process⟩

theorem internContent?_some (inside : ∀ hash, table.shardOf hash < table.shards.length)
    (process : Process) (content : Bytes) :
    table.internContent? process content = some (table.internContent process content) := by
  rw [internContent?, internContent]
  simp only [shard_found (inside _), Option.bind_eq_bind, Option.bind_some, probe]
  cases (table.shard (table.shardOf (table.hasher.hash content))).find? (table.hasher.hash content)
    content with
  | some handle => rfl
  | none => rfl

theorem getContent?_some (inside : ∀ hash, table.shardOf hash < table.shards.length)
    (content : Bytes) : table.getContent? content = some (table.getContent content) := by
  rw [getContent?]
  simp only [shard_found (inside _), Option.bind_eq_bind, Option.bind_some]
  rfl

theorem call?_some (inside : ∀ hash, table.shardOf hash < table.shards.length) (process : Process)
    (call : Call) : table.call? process call = some (table.call process call) := by
  rw [call?, Table.call, internContent?_some inside, getContent?_some inside]
  split <;> rfl

-- How a table with the options picks its shards: by the remainder, always one that is there, and
-- each of them by some hash.
structure Selects (table : Table) (options : Options) : Prop where
  count : table.shards.length = options.shards.toNat
  shardOf : ∀ hash, table.shardOf hash = (hash >>> 32).toNat % options.shards.toNat
  inside : ∀ hash, table.shardOf hash < table.shards.length
  calls : ∀ process call, table.call? process call = some (table.call process call)
  selected : ∀ number < table.shards.length, ∃ hash, table.shardOf hash = number

theorem Shaped.selects (shaped : table.Shaped options) (admitted : options.Admitted) :
    table.Selects options := by
  have shardOf := shaped.shardOf (Options.admitted_iff.mp admitted)
  have inside : ∀ hash, table.shardOf hash < table.shards.length := by
    intro hash
    rw [shardOf, shaped.shards]
    exact Nat.mod_lt _ admitted.positive
  refine ⟨shaped.shards, shardOf, inside, call?_some inside, ?_⟩
  intro number present
  rw [shaped.shards] at present
  exact shaped.selected admitted present

theorem construction_safe {reserve : Reserve} (provides : reserve.Provides) (options : Options) :
    withOptions? reserve options =
        some ((withOptions options).map fun table => ⟨table, creation options⟩) ∧
      ((∃ table, withOptions options = .ok table) ↔ options.Admitted) ∧
      (∀ refusal, withOptions options = .error refusal ↔ options.Violates refusal) ∧
      ∀ table, withOptions options = .ok table →
        (options.slots.toNat = options.initialCapacity.toNat ⌈/⌉ options.shards.toNat ∧
          options.initialCapacity.toNat ≤ options.slots.toNat * options.shards.toNat ∧
          options.slots.toNat * options.shards.toNat <
            options.initialCapacity.toNat + options.shards.toNat) ∧
        ∀ process requests state, Threads.Runs sections (table.threads process requests) state →
          state.shared.table.Selects options := by
  refine ⟨withOptions?_some provides options, ?_, ?_, ?_⟩
  · simp only [withOptions_ok_iff, Options.admitted_iff, exists_eq_right]
  · intro refusal
    rw [Options.violates_iff, withOptions]
    cases options.validate with
    | ok _ => simp
    | error other => simp
  · intro table built
    obtain ⟨accepted, rfl⟩ := withOptions_ok_iff.mp built
    have admitted := Options.admitted_iff.mpr accepted
    refine ⟨⟨admitted.slots_ceil, admitted.slots_bounds⟩, ?_⟩
    intro process requests state path
    have reached := (Threads.start_sound (built_sound built process) requests).runs
      (sections_keep options) path
    exact reached.shared.shaped.selects admitted

end

-- Twenty slots for eight shards; no shards at all, and a capacity that is one too large.
theorem construction_safe_eight :
    let reserve : Reserve := fun slots arenaChunkSize =>
      if slots ≤ Options.maxInitialCapacity ∧ arenaChunkSize ≤ Options.maxArenaChunkSize then
        some .empty
      else none
    let options : Options :=
      { shards := 8, initialCapacity := 20, arenaChunkSize := 64, hashSeed := 3 }
    reserve.Provides ∧
      withOptions? reserve options = some (.ok ⟨build options, .created 8 3 64⟩) ∧
      withOptions { shards := 0, initialCapacity := 16777217 } = .error (.invalidShardCount 0) ∧
      withOptions { shards := 1024, initialCapacity := 16777217 } =
        .error (.initialCapacityTooLarge 16777217) ∧
      ∃ state : Threads Site Request Unfinished (Response Handle),
        state = ((build options).threads {}
          [[.call (.intern [0xFF])], [.call (.intern [0xC3]), .entries]]).run sections [0, 1, 1, 0] ∧
        state.shared.table.shardOf 0x7FFFFFFFFFFFFFFF = 7 ∧ state.shared.table.Selects options := by
  intro reserve options
  have provides : reserve.Provides := fun slots arenaChunkSize few small => if_pos ⟨few, small⟩
  obtain ⟨safe, _, _, selects⟩ := construction_safe provides options
  obtain ⟨_, _, shards, _⟩ :=
    construction_safe provides { shards := 0, initialCapacity := 16777217 }
  obtain ⟨_, _, capacity, _⟩ :=
    construction_safe provides { shards := 1024, initialCapacity := 16777217 }
  have built : withOptions options = .ok (build options) :=
    withOptions_ok_iff.mpr ⟨by decide +kernel, rfl⟩
  have path : Threads.Runs sections ((build options).threads {}
      [[.call (.intern [0xFF])], [.call (.intern [0xC3]), .entries]]) _ :=
    Threads.run_runs _ [0, 1, 1, 0]
  have reached := (selects _ built).2 _ _ _ path
  refine ⟨provides, ?_, ?_, ?_, _, rfl, ?_, reached⟩
  · have logged : creation options = .created 8 3 64 := by decide +kernel
    rw [safe, built, ← logged]
    rfl
  · refine (shards _).mpr (.shards ?_)
    rintro ⟨exponent, _, power⟩
    exact Nat.ne_of_lt (Nat.two_pow_pos exponent) power
  · refine (capacity _).mpr (.initialCapacity ⟨10, Nat.le_refl _, rfl⟩ ?_)
    decide
  · rw [reached.shardOf]
    decide +kernel

end Table

end InternPool
