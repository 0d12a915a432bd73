import InternPool.Utf8.Scan

namespace InternPool.Utf8

inductive Segment where
  | sequence (bytes : Bytes)
  | malformed (bytes : Bytes) (subpart : Subpart)
deriving Repr, DecidableEq

def Segment.bytes : Segment → Bytes
  | .sequence bytes => bytes
  | .malformed bytes _ => bytes

def readOne (byte : UInt8) (rest : Bytes) : Except Subpart Nat :=
  if isAscii byte = true then .ok 1 else readSequence byte rest

theorem readOne_ok {byte : UInt8} {rest : Bytes} {width : Nat} (read : readOne byte rest = .ok width) :
    1 ≤ width ∧ width ≤ 4 ∧ width ≤ rest.length + 1 := by
  unfold readOne at read
  split at read
  · cases read
    omega
  · have := readSequence_ok read
    omega

theorem readOne_error {byte : UInt8} {rest : Bytes} {subpart : Subpart}
    (broken : readOne byte rest = .error subpart) :
    1 ≤ subpart.length ∧ subpart.length ≤ 3 ∧ subpart.length ≤ rest.length + 1 := by
  unfold readOne at broken
  split at broken
  · cases broken
  · exact readSequence_error broken

-- Read one sequence at a time, with no skipping: the plain account of what `scan` looks for.
def segments : Bytes → List Segment
  | [] => []
  | byte :: rest =>
    match _ : readOne byte rest with
    | .ok width => .sequence ((byte :: rest).take width) :: segments ((byte :: rest).drop width)
    | .error subpart =>
      .malformed ((byte :: rest).take subpart.length) subpart ::
        segments ((byte :: rest).drop subpart.length)
termination_by bytes => bytes.length
decreasing_by
  · have := readOne_ok ‹_›
    simp only [List.length_drop, List.length_cons]
    omega
  · have := readOne_error ‹_›
    simp only [List.length_drop, List.length_cons]
    omega

def firstFault (pos : Nat) : List Segment → Option Fault
  | [] => none
  | .sequence bytes :: rest => firstFault (pos + bytes.length) rest
  | .malformed _ subpart :: _ => some ⟨pos, subpart⟩

def plainFault (bytes : Bytes) (pos : Nat) : Option Fault :=
  firstFault pos (segments (bytes.drop pos))

theorem segments_flatten (bytes : Bytes) : (segments bytes).flatMap Segment.bytes = bytes := by
  fun_induction segments bytes with
  | case1 => rfl
  | case2 byte rest width _ ih =>
    rw [List.flatMap_cons, ih]
    exact List.take_append_drop width (byte :: rest)
  | case3 byte rest subpart _ ih =>
    rw [List.flatMap_cons, ih]
    exact List.take_append_drop subpart.length (byte :: rest)

end InternPool.Utf8
