import Mathlib.Data.List.Induction
import InternPool.Handle
import InternPool.Proofs.Hash.Rotation

namespace InternPool

def PassThroughHasher.hashAll (hasher : PassThroughHasher) (values : List Hashed) :
    PassThroughHasher :=
  hasher.writeAll (values.flatMap Hashed.writes)

namespace Hashed

open Hash

def word? : Hashed → Option UInt64
  | .word value => some value
  | .signedWord value => some (UInt64.ofInt value)
  | _ => none

def passed : Hashed → Bytes
  | .natural width value => toLittleEndian width value
  | .integer width value => twosComplement width value
  | .word _ => []
  | .signedWord _ => []
  | .bytes value => value
  | .slice value => toLittleEndian 8 value.length ++ value
  | .text value => Utf8.ofText value ++ [0xFF]

def Wordless (values : List Hashed) : Prop :=
  ∀ value ∈ values, value.word? = none

instance (values : List Hashed) : Decidable (Wordless values) :=
  inferInstanceAs (Decidable (∀ value ∈ values, value.word? = none))

-- The last word written, or the one at the start if there is none, and all bytes behind it.
inductive Settles (start : UInt64) : List Hashed → UInt64 → Bytes → Prop where
  | unset {values : List Hashed} (wordless : Wordless values) :
      Settles start values start (values.flatMap passed)
  | set {before after : List Hashed} {last : Hashed} {word : UInt64} (sets : last.word? = some word)
      (wordless : Wordless after) :
      Settles start (before ++ last :: after) word (after.flatMap passed)

end Hashed

namespace Hash

variable {word one other : UInt64}

theorem closedForm_nil (word : UInt64) : closedForm word [] = word := by
  have none : lanes [] = 0 := by decide
  rw [closedForm, none, UInt64.xor_zero]
  exact rotateLeft_zero word

-- One more byte turns the word and its lanes alike, so the turn can be taken of both at once.
theorem closedForm_concat (word : UInt64) (bytes : Bytes) (byte : UInt8) :
    closedForm word (bytes ++ [byte]) =
      PassThroughHasher.foldByte (closedForm word bytes) byte := by
  have turned : ((UInt64.ofNat (8 * bytes.length % 64)).toNat + (8 : UInt64).toNat) % 64 =
      (UInt64.ofNat (8 * (bytes.length + 1) % 64)).toNat % 64 := by
    rw [UInt64.toNat_ofNat', UInt64.toNat_ofNat']
    change (8 * bytes.length % 64 % 2 ^ 64 + 8) % 64 = _
    omega
  rw [closedForm, lanes_concat, List.length_append, List.length_singleton, ← UInt64.xor_assoc,
    ← rotateLeft_twice turned, ← rotateLeft_xor]
  rfl

theorem closedForm_append (word : UInt64) (bytes more : Bytes) :
    closedForm word (bytes ++ more) =
      more.foldl PassThroughHasher.foldByte (closedForm word bytes) := by
  induction more generalizing bytes with
  | nil => rw [List.append_nil, List.foldl_nil]
  | cons byte more ih =>
    rw [List.append_cons, ih, closedForm_concat, List.foldl_cons]

-- The bytes turn both words alike and fall into the same lanes.
theorem closedForm_inj {bytes : Bytes} :
    closedForm one bytes = closedForm other bytes ↔ one = other := by
  rw [closedForm, closedForm, UInt64.xor_left_inj, rotateLeft_inj]

theorem settled_word (start : UInt64) (writes : List HashWrite) (word : UInt64) :
    settled start (writes ++ [.word word]) = (word, []) := by
  rw [settled, List.foldl_append]
  rfl

theorem settled_bytes (start : UInt64) (writes : List HashWrite) (bytes : Bytes) :
    settled start (writes ++ [.bytes bytes]) =
      ((settled start writes).1, (settled start writes).2 ++ bytes) := by
  rw [settled, List.foldl_append]
  rfl

theorem settled_pieces (start : UInt64) (writes : List HashWrite) (pieces : List Bytes) :
    settled start (writes ++ pieces.map .bytes) =
      ((settled start writes).1, (settled start writes).2 ++ pieces.flatten) := by
  induction pieces generalizing writes with
  | nil => rw [List.map_nil, List.append_nil, List.flatten_nil, List.append_nil]
  | cons piece pieces ih =>
    rw [List.map_cons, List.append_cons, ih, settled_bytes, List.flatten_cons, List.append_assoc]

end Hash

namespace PassThroughHasher

open Hash

theorem writeAll_settled (hasher : PassThroughHasher) (writes : List HashWrite) :
    (hasher.writeAll writes).finish =
      closedForm (settled hasher.state writes).1 (settled hasher.state writes).2 := by
  induction writes using List.reverseRecOn with
  | nil => exact (closedForm_nil hasher.state).symm
  | append_singleton writes write ih =>
    have step : hasher.writeAll (writes ++ [write]) = (hasher.writeAll writes).write write := by
      rw [writeAll, List.foldl_append]
      rfl
    rw [step]
    cases write with
    | bytes bytes =>
      rw [settled_bytes, closedForm_append, ← ih]
      rfl
    | word word =>
      rw [settled_word, closedForm_nil]
      rfl

end PassThroughHasher

namespace Hashed

open Hash

variable {start word : UInt64} {bytes : Bytes} {values : List Hashed} {value : Hashed}

theorem writes_word (sets : value.word? = some word) : value.writes = [.word word] := by
  cases value <;> cases sets <;> rfl

theorem writes_pieces (none : value.word? = none) :
    ∃ pieces : List Bytes, value.writes = pieces.map .bytes ∧ pieces.flatten = value.passed := by
  cases value with
  | word | signedWord => cases none
  | natural width value => exact ⟨[toLittleEndian width value], rfl, List.flatten_singleton⟩
  | integer width value => exact ⟨[twosComplement width value], rfl, List.flatten_singleton⟩
  | bytes value => exact ⟨[value], rfl, List.flatten_singleton⟩
  | slice value => exact ⟨[toLittleEndian 8 value.length, value], rfl, by simp [passed]⟩
  | text value => exact ⟨[Utf8.ofText value, [0xFF]], rfl, by simp [passed]⟩

theorem Wordless.pieces (wordless : Wordless values) :
    ∃ pieces : List Bytes, values.flatMap writes = pieces.map .bytes ∧
      pieces.flatten = values.flatMap passed := by
  induction values with
  | nil => exact ⟨[], rfl, rfl⟩
  | cons value values ih =>
    obtain ⟨none, rest⟩ := List.forall_mem_cons.mp wordless
    obtain ⟨front, written, whole⟩ := writes_pieces none
    obtain ⟨pieces, later, joined⟩ := ih rest
    refine ⟨front ++ pieces, ?_, ?_⟩
    · rw [List.flatMap_cons, written, later, List.map_append]
    · rw [List.flatten_append, whole, joined, List.flatMap_cons]

theorem Settles.settled (settles : Settles start values word bytes) :
    Hash.settled start (values.flatMap writes) = (word, bytes) := by
  cases settles with
  | unset wordless =>
    obtain ⟨pieces, written, joined⟩ := wordless.pieces
    rw [written, ← joined]
    exact settled_pieces start [] pieces
  | set sets wordless =>
    obtain ⟨pieces, written, joined⟩ := wordless.pieces
    rw [List.flatMap_append, List.flatMap_cons, writes_word sets, written, ← joined,
      ← List.append_assoc, settled_pieces, settled_word, List.nil_append]

-- By the last value: it decides everything, or it comes behind what was decided before.
theorem settles_exist (start : UInt64) (values : List Hashed) :
    ∃ word bytes, Settles start values word bytes := by
  induction values using List.reverseRecOn with
  | nil => exact ⟨start, [], .unset nofun⟩
  | append_singleton values value ih =>
    cases sets : value.word? with
    | some word => exact ⟨word, [], .set sets nofun⟩
    | none =>
      have grows : ∀ {others}, Wordless others → Wordless (others ++ [value]) :=
        fun wordless => List.forall_mem_append.mpr ⟨wordless, List.forall_mem_singleton.mpr sets⟩
      obtain ⟨_, _, settles⟩ := ih
      cases settles with
      | unset wordless => exact ⟨_, _, .unset (grows wordless)⟩
      | set sets wordless =>
        rw [List.append_assoc, List.cons_append]
        exact ⟨_, _, .set sets (grows wordless)⟩

theorem settles_iff :
    Settles start values word bytes ↔
      Hash.settled start (values.flatMap writes) = (word, bytes) := by
  constructor
  · exact Settles.settled
  · intro settled
    obtain ⟨_, _, settles⟩ := settles_exist start values
    rw [settles.settled] at settled
    cases settled
    exact settles

end Hashed

namespace PassThroughHasher

open Hash Hashed

variable {hasher one other : PassThroughHasher} {values others : List Hashed} {value : Hashed}
  {word : UInt64} {bytes : Bytes}

theorem finish_inj : one.finish = other.finish ↔ one = other := by
  cases one
  cases other
  rw [mk.injEq]
  rfl

theorem hashAll_append (hasher : PassThroughHasher) (values others : List Hashed) :
    hasher.hashAll (values ++ others) = (hasher.hashAll values).hashAll others := by
  rw [hashAll, List.flatMap_append, writeAll, List.foldl_append]
  rfl

theorem finish_settled (settles : Settles hasher.state values word bytes) :
    (hasher.hashAll values).finish = closedForm word bytes := by
  rw [hashAll, writeAll_settled, settles.settled]

theorem finish_wordless (hasher : PassThroughHasher) (wordless : Wordless values) :
    (hasher.hashAll values).finish = closedForm hasher.state (values.flatMap passed) :=
  finish_settled (.unset wordless)

theorem hashAll_regrouped (hasher : PassThroughHasher) (wordless : Wordless values)
    (alike : Wordless others) (same : values.flatMap passed = others.flatMap passed) :
    hasher.hashAll values = hasher.hashAll others := by
  rw [← finish_inj, finish_wordless hasher wordless, finish_wordless hasher alike, same]

theorem finish_wordless_inj (wordless : Wordless values) :
    (one.hashAll values).finish = (other.hashAll values).finish ↔ one = other := by
  rw [finish_wordless one wordless, finish_wordless other wordless, closedForm_inj]
  exact finish_inj

theorem hashAll_word (hasher : PassThroughHasher) (sets : value.word? = some word) :
    hasher.hashAll [value] = ⟨word⟩ := by
  have settles : Settles hasher.state ([] ++ [value]) word [] := .set sets nofun
  rw [← finish_inj]
  exact (finish_settled settles).trans (closedForm_nil word)

-- Where any values leave a hasher, and what that does not depend on.
structure PassesThrough (hasher : PassThroughHasher) : Prop where
  written : ∀ writes, (hasher.writeAll writes).finish =
    closedForm (settled hasher.state writes).1 (settled hasher.state writes).2
  settles : ∀ values word bytes, Settles hasher.state values word bytes ↔
    settled hasher.state (values.flatMap Hashed.writes) = (word, bytes)
  finish : ∀ {values word bytes}, Settles hasher.state values word bytes →
    (hasher.hashAll values).finish = closedForm word bytes
  regrouped : ∀ before {values others} after, Wordless values → Wordless others →
    values.flatMap passed = others.flatMap passed →
      hasher.hashAll (before ++ values ++ after) = hasher.hashAll (before ++ others ++ after)
  forgets : ∀ (other : PassThroughHasher) before earlier {value again word} after,
    value.word? = some word → again.word? = some word →
      hasher.hashAll (before ++ value :: after) = other.hashAll (earlier ++ again :: after)
  apart : ∀ (other : PassThroughHasher) {values}, Wordless values →
    ((hasher.hashAll values).finish ≠ (other.hashAll values).finish ↔ hasher ≠ other)
  handle : ∀ values (handle : Handle),
    ((hasher.hashAll values).writeAll handle.writes).finish = handle.hash

theorem passesThrough (hasher : PassThroughHasher) : hasher.PassesThrough where
  written := writeAll_settled hasher
  settles _ _ _ := settles_iff
  finish := finish_settled
  regrouped before _ _ after wordless alike same := by
    simp only [hashAll_append]
    rw [hashAll_regrouped (hasher.hashAll before) wordless alike same]
  forgets other before earlier _ _ _ after sets again := by
    rw [List.append_cons before, List.append_cons earlier]
    simp only [hashAll_append, hashAll_word _ sets, hashAll_word _ again]
  apart _ _ wordless := not_congr (finish_wordless_inj wordless)
  handle _ _ := rfl

-- The rotation is that of bit strings, and the lanes are told by the eight bits at each place.
theorem finish_closed (hasher : PassThroughHasher) :
    hasher.PassesThrough ∧
      (∀ word count, (rotateLeft word count).toBitVec = word.toBitVec.rotateLeft count.toNat) ∧
      ∀ bytes word, word = lanes bytes ↔
        ∀ lane < 8, word.toBitVec.extractLsb' (8 * lane) 8 = (laneOf bytes lane).toBitVec :=
  ⟨passesThrough hasher, toBitVec_rotateLeft, fun _ _ => eq_lanes_iff⟩

-- Seventeen bytes behind the last word, in six pieces: they go round the lanes twice.
theorem finish_closed_mixed :
    let before : List Hashed := [.text "é", .word 5, .slice [1, 2, 3]]
    let values : List Hashed :=
      [.natural 4 0x04030201, .integer 1 (-1), .slice [0x0A, 0x0B], .text "z"]
    let bytes : Bytes := [1, 2, 3, 4, 0xFF, 2, 0, 0, 0, 0, 0, 0, 0, 0x0A, 0x0B, 0x7A, 0xFF]
    let hasher : PassThroughHasher := {}
    let handle : Handle := ⟨⟨0, [0x7A, 0]⟩, 0x123456789ABCDEF0⟩
    Settles 0 (before ++ .signedWord (-2) :: values) 0xFFFFFFFFFFFFFFFE bytes ∧
      Settles 0 values 0 bytes ∧
      (hasher.hashAll (before ++ .signedWord (-2) :: values)).finish = 0xFDFCFB00F7F48401 ∧
      (hasher.hashAll values).finish = 0x020304FF080B7AFE ∧
      hasher.hashAll (before ++ values ++ [.natural 2 3]) =
        hasher.hashAll (before ++ [.bytes bytes] ++ [.natural 2 3]) ∧
      hasher.hashAll (before ++ .signedWord (-2) :: values) =
        PassThroughHasher.hashAll ⟨9⟩ ([.bytes [7]] ++ .word 0xFFFFFFFFFFFFFFFE :: values) ∧
      (hasher.hashAll values).finish ≠ (PassThroughHasher.hashAll ⟨9⟩ values).finish ∧
      ((hasher.hashAll values).writeAll handle.writes).finish = handle.hash := by
  intro before values bytes hasher handle
  obtain ⟨through, _, _⟩ := finish_closed hasher
  have wordless : Wordless values := by decide
  have whole : values.flatMap passed = bytes := by decide +kernel
  have last : Settles 0 (before ++ .signedWord (-2) :: values) 0xFFFFFFFFFFFFFFFE bytes := by
    rw [← whole]
    exact .set (by decide) wordless
  have none : Settles 0 values 0 bytes := by
    rw [← whole]
    exact .unset wordless
  refine ⟨last, none, ?_, ?_, ?_, ?_, ?_, ?_⟩
  · rw [through.finish last]
    decide +kernel
  · rw [through.finish none]
    decide +kernel
  · have alike : Wordless [.bytes bytes] := by decide
    have same : values.flatMap passed = [Hashed.bytes bytes].flatMap passed := by
      rw [whole]
      exact List.append_nil bytes
    exact through.regrouped before [.natural 2 3] wordless alike same
  · exact through.forgets ⟨9⟩ before [.bytes [7]] values (by decide) rfl
  · exact (through.apart ⟨9⟩ wordless).mpr (by decide)
  · exact through.handle values handle

end PassThroughHasher

end InternPool
