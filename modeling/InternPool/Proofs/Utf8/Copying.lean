import Mathlib.Data.List.Chain
import InternPool.Proofs.Utf8.Measure
import InternPool.Proofs.Utf8.Searching

namespace InternPool.Utf8

-- The loop before it copies: what was put out, up to where the input is used, and the fault ahead.
structure Copying where
  out : Bytes
  copied : Nat
  fault : Fault
deriving Repr, DecidableEq

inductive Iteration where
  | goesOn (later : Copying)
  | ends (out : Bytes)
deriving Repr, DecidableEq

-- Where the offsets are not in order or not in the input, the program stops.
def slice? (bytes : Bytes) (first last : Nat) : Option Bytes :=
  if first ≤ last ∧ last ≤ bytes.length then some (between bytes first last) else none

def iterate? (bytes : Bytes) (state : Copying) : Option Iteration := do
  let run ← slice? bytes state.copied state.fault.offset
  let out := state.out ++ run ++ replacement
  let copied := state.fault.offset + state.fault.subpart.length
  match nextFault bytes copied with
  | some fault => some (.goesOn ⟨out, copied, fault⟩)
  | none =>
    let tail ← slice? bytes copied bytes.length
    some (.ends (out ++ tail))

-- From a state through the later ones, one for each further iteration, to what is put out.
inductive Iterates (bytes : Bytes) : Copying → List Copying → Bytes → Prop where
  | last {state : Copying} {out : Bytes} (ends : iterate? bytes state = some (.ends out)) :
      Iterates bytes state [] out
  | more {state next : Copying} {later : List Copying} {out : Bytes}
      (goesOn : iterate? bytes state = some (.goesOn next)) (others : Iterates bytes next later out) :
      Iterates bytes state (next :: later) out

inductive Use where
  | copied
  | skipped
deriving Repr, DecidableEq

structure Piece where
  use : Use
  first : Nat
  last : Nat
deriving Repr, DecidableEq

namespace Piece

def within (bytes : Bytes) (piece : Piece) : Bytes :=
  between bytes piece.first piece.last

def output (bytes : Bytes) (piece : Piece) : Bytes :=
  match piece.use with
  | .copied => piece.within bytes
  | .skipped => replacement

def holds (offset : Nat) (piece : Piece) : Bool :=
  piece.first ≤ offset && offset < piece.last

def Tiles : Nat → List Piece → Nat → Prop
  | first, [], last => first = last
  | first, piece :: rest, last => piece.first = first ∧ first ≤ piece.last ∧ Tiles piece.last rest last

variable {first last : Nat} {pieces : List Piece}

theorem Tiles.le (tiles : Tiles first pieces last) : first ≤ last := by
  induction pieces generalizing first with
  | nil => exact Nat.le_of_eq tiles
  | cons piece rest ih => exact Nat.le_trans tiles.2.1 (ih tiles.2.2)

theorem between_append (bytes : Bytes) {middle : Nat} (left : first ≤ middle) (right : middle ≤ last) :
    between bytes first middle ++ between bytes middle last = between bytes first last := by
  have further : middle = first + (middle - first) := by omega
  have whole : last - first = (middle - first) + (last - middle) := by omega
  rw [between, between, between, whole, List.take_add, List.drop_drop, ← further]

theorem Tiles.joined (tiles : Tiles first pieces last) (bytes : Bytes) :
    pieces.flatMap (within bytes) = between bytes first last := by
  induction pieces generalizing first with
  | nil =>
    cases tiles
    rw [List.flatMap_nil, between, Nat.sub_self, List.take_zero]
  | cons piece rest ih =>
    obtain ⟨rfl, order, others⟩ := tiles
    rw [List.flatMap_cons, ih others, within, between_append bytes order others.le]

theorem Tiles.once (tiles : Tiles first pieces last) (offset : Nat) :
    pieces.countP (holds offset) = if first ≤ offset ∧ offset < last then 1 else 0 := by
  induction pieces generalizing first with
  | nil =>
    cases tiles
    rw [List.countP_nil, if_neg (by omega)]
  | cons piece rest ih =>
    obtain ⟨rfl, order, others⟩ := tiles
    have fits := others.le
    rw [List.countP_cons, ih others]
    simp only [holds, Bool.and_eq_true, decide_eq_true_eq]
    split <;> split <;> split <;> omega

end Piece

namespace Copying

def start (fault : Fault) : Copying := ⟨[], 0, fault⟩

def run (state : Copying) : Piece :=
  ⟨.copied, state.copied, state.fault.offset⟩

def gap (state : Copying) : Piece :=
  ⟨.skipped, state.fault.offset, state.fault.next⟩

-- All that a loop copies and skips from a state on, the rest of the input behind the last fault too.
def pieces (bytes : Bytes) (state : Copying) : List Copying → List Piece
  | [] => [state.run, state.gap, ⟨.copied, state.fault.next, bytes.length⟩]
  | next :: later => state.run :: state.gap :: next.pieces bytes later

-- The fault is the first from where the input is not used yet.
def Ahead (bytes : Bytes) (state : Copying) : Prop :=
  nextFault bytes state.copied = some state.fault

structure Inside (bytes : Bytes) (state : Copying) : Prop where
  ordered : state.copied ≤ state.fault.offset
  there : state.fault.offset < bytes.length
  forward : state.fault.offset < state.fault.next
  fits : state.fault.next ≤ bytes.length

structure Copies (bytes : Bytes) (state : Copying) (later : List Copying) (out : Bytes) : Prop where
  each : ∀ other ∈ state :: later, other.Inside bytes
  chained : (state :: later).IsChain fun one next =>
    one.copied < next.copied ∧ next.copied = one.fault.next ∧ next.copied ≤ next.fault.offset
  few : (state :: later).length + state.copied ≤ bytes.length
  tiles : Piece.Tiles state.copied (state.pieces bytes later) bytes.length
  told : out = state.out ++ (state.pieces bytes later).flatMap (Piece.output bytes)
  mended : out = state.out ++ mend (bytes.drop state.copied)
  searched : (state :: later).map Copying.fault = faults bytes state.copied

variable {bytes out : Bytes} {state next : Copying} {later : List Copying}

theorem Ahead.inside (ahead : state.Ahead bytes) : state.Inside bytes := by
  have found := nextFault_found ahead
  have positive := found.small.1
  have fits := found.inside
  refine ⟨found.behind, by omega, ?_, fits⟩
  rw [Fault.next]
  omega

-- Both parts of the input that an iteration may ask for are there.
theorem Ahead.iterate (ahead : state.Ahead bytes) :
    iterate? bytes state =
      match nextFault bytes state.fault.next with
      | some fault =>
        some (.goesOn ⟨state.out ++ state.run.output bytes ++ replacement, state.fault.next, fault⟩)
      | none =>
        some (.ends (state.out ++ state.run.output bytes ++ replacement ++
          between bytes state.fault.next bytes.length)) := by
  obtain ⟨ordered, there, forward, fits⟩ := ahead.inside
  have run : slice? bytes state.copied state.fault.offset = some (state.run.output bytes) :=
    if_pos ⟨ordered, by omega⟩
  have tail : slice? bytes state.fault.next bytes.length =
      some (between bytes state.fault.next bytes.length) := if_pos ⟨fits, Nat.le_refl _⟩
  rw [iterate?, run]
  change (match nextFault bytes state.fault.next with | some fault => _ | none => _) = _
  cases nextFault bytes state.fault.next with
  | some fault => rfl
  | none =>
    dsimp only
    change (slice? bytes state.fault.next bytes.length).bind _ = _
    rw [tail]
    rfl

theorem Ahead.ends (ahead : state.Ahead bytes) (ends : iterate? bytes state = some (.ends out)) :
    nextFault bytes state.fault.next = none ∧
      out = state.out ++ state.run.output bytes ++ replacement ++
        between bytes state.fault.next bytes.length := by
  rw [ahead.iterate] at ends
  cases found : nextFault bytes state.fault.next with
  | some fault =>
    rw [found] at ends
    cases ends
  | none =>
    rw [found] at ends
    cases ends
    exact ⟨rfl, rfl⟩

theorem Ahead.goesOn (ahead : state.Ahead bytes)
    (goesOn : iterate? bytes state = some (.goesOn next)) :
    next.Ahead bytes ∧ next.copied = state.fault.next ∧
      next.out = state.out ++ state.run.output bytes ++ replacement := by
  rw [ahead.iterate] at goesOn
  cases found : nextFault bytes state.fault.next with
  | some fault =>
    rw [found] at goesOn
    cases goesOn
    exact ⟨found, rfl, rfl⟩
  | none =>
    rw [found] at goesOn
    cases goesOn

-- Every iteration uses a byte of the input at least.
theorem Ahead.iterates (ahead : state.Ahead bytes) :
    ∃ later out, Iterates bytes state later out := by
  induction left : bytes.length - state.copied using Nat.strongRecOn generalizing state with
  | ind left ih =>
    subst left
    have step := ahead.iterate
    have inside := ahead.inside
    cases found : nextFault bytes state.fault.next with
    | none =>
      rw [found] at step
      exact ⟨[], _, .last step⟩
    | some fault =>
      rw [found] at step
      obtain ⟨following, copied, _⟩ := ahead.goesOn step
      obtain ⟨ordered, there, forward, fits⟩ := inside
      obtain ⟨later, out, others⟩ := ih _ (by rw [copied]; omega) following rfl
      exact ⟨_, out, .more step others⟩

theorem Ahead.mended (ahead : state.Ahead bytes) :
    mend (bytes.drop state.copied) =
      state.run.output bytes ++ replacement ++ mend (bytes.drop state.fault.next) := by
  obtain ⟨ordered, there, forward, fits⟩ := ahead.inside
  rw [mend_fault ahead, List.drop_drop]
  congr 3
  omega

theorem Ahead.copies (ahead : state.Ahead bytes) (iterates : Iterates bytes state later out) :
    state.Copies bytes later out := by
  induction iterates with
  | @last state out ends =>
    have inside := ahead.inside
    obtain ⟨clean, told⟩ := ahead.ends ends
    have rest : between bytes state.fault.next bytes.length = bytes.drop state.fault.next := by
      rw [between, ← List.length_drop, List.take_length]
    refine ⟨List.forall_mem_singleton.mpr inside, .singleton state, ?_, ?_, ?_, ?_, ?_⟩
    · obtain ⟨ordered, there, forward, fits⟩ := inside
      simp only [List.length_singleton]
      omega
    · exact ⟨rfl, inside.ordered, rfl, Nat.le_of_lt inside.forward, rfl, inside.fits, rfl⟩
    · rw [told]
      simp only [pieces, List.flatMap_cons, List.flatMap_nil, Piece.output, gap, Piece.within,
        List.append_assoc, List.append_nil]
    · rw [told, ahead.mended, rest, mend_faultless clean]
      simp only [List.append_assoc]
    · rw [faults_some ahead, faults_none clean]
      rfl
  | @more state next later out goesOn others ih =>
    have inside := ahead.inside
    obtain ⟨following, copied, told⟩ := ahead.goesOn goesOn
    obtain ⟨each, chained, few, tiles, output, mended, searched⟩ := ih following
    have ordered := inside.ordered
    have forward := inside.forward
    refine ⟨List.forall_mem_cons.mpr ⟨inside, each⟩, ?_, ?_, ?_, ?_, ?_, ?_⟩
    · exact .cons_cons ⟨by omega, copied, following.inside.ordered⟩ chained
    · rw [copied] at few
      simp only [List.length_cons] at few ⊢
      omega
    · rw [copied] at tiles
      exact ⟨rfl, ordered, rfl, Nat.le_of_lt forward, tiles⟩
    · rw [output, told]
      simp only [pieces, List.flatMap_cons, Piece.output, gap, List.append_assoc]
    · rw [mended, told, ahead.mended, copied]
      simp only [List.append_assoc]
    · rw [List.map_cons, searched, copied, faults_some ahead]

end Copying

variable {bytes : Bytes} {fault : Fault}

theorem repair_eq_rebuilt (found : nextFault bytes 0 = some fault) :
    repair bytes = .rebuilt (mend bytes) := by
  have value := repair_mended bytes
  rw [nextFault, List.drop_zero] at found
  rw [repair, Mending.advance, Mending.start, found] at value ⊢
  exact congrArg Repaired.rebuilt value

theorem repair_loop_safe (bytes : Bytes) :
    (nextFault bytes 0 = none → repair bytes = .kept bytes) ∧
    ∀ fault, nextFault bytes 0 = some fault →
      (∃ later out, Iterates bytes (.start fault) later out) ∧
      ∀ later out, Iterates bytes (.start fault) later out →
        repair bytes = .rebuilt out ∧ (Copying.start fault).Copies bytes later out ∧
        ((Copying.start fault).pieces bytes later).flatMap (Piece.within bytes) = bytes ∧
        ∀ offset < bytes.length,
          ((Copying.start fault).pieces bytes later).countP (Piece.holds offset) = 1 := by
  constructor
  · intro clean
    rw [nextFault, List.drop_zero] at clean
    rw [repair, Mending.advance, Mending.start, clean]
  · intro fault found
    have ahead : (Copying.start fault).Ahead bytes := found
    refine ⟨ahead.iterates, ?_⟩
    intro later out iterates
    have copies := ahead.copies iterates
    refine ⟨?_, copies, ?_, ?_⟩
    · rw [repair_eq_rebuilt found, copies.mended]
      rfl
    · rw [copies.tiles.joined]
      exact List.take_length
    · intro offset inside
      rw [copies.tiles.once, if_pos ⟨Nat.zero_le _, inside⟩]

-- A subpart that a byte breaks off, and one that the end of the input does.
theorem repair_loop_safe_twice :
    let bytes : Bytes := [0x61, 0xE2, 0x28, 0xC3]
    let first : Fault := ⟨1, .invalid 1⟩
    let second : Copying := ⟨[0x61, 0xEF, 0xBF, 0xBD], 2, ⟨3, .truncated 1⟩⟩
    let out : Bytes := [0x61, 0xEF, 0xBF, 0xBD, 0x28, 0xEF, 0xBF, 0xBD]
    nextFault [0x61] 0 = none ∧ repair [0x61] = .kept [0x61] ∧
      nextFault bytes 0 = some first ∧ Iterates bytes (.start first) [second] out ∧
      repair bytes = .rebuilt out ∧ (Copying.start first).Copies bytes [second] out ∧
      ((Copying.start first).pieces bytes [second]).countP (Piece.holds 3) = 1 := by
  intro bytes first second out
  have clean : nextFault [0x61] 0 = none := by decide +kernel
  have found : nextFault bytes 0 = some first := by decide +kernel
  have goesOn : iterate? bytes (.start first) = some (.goesOn second) := by decide +kernel
  have ends : iterate? bytes second = some (.ends out) := by decide +kernel
  have iterates : Iterates bytes (.start first) [second] out := .more goesOn (.last ends)
  obtain ⟨repaired, copies, _, once⟩ := ((repair_loop_safe bytes).2 first found).2 _ _ iterates
  exact ⟨clean, (repair_loop_safe [0x61]).1 clean, found, iterates, repaired, copies,
    once 3 (by decide)⟩

end InternPool.Utf8
