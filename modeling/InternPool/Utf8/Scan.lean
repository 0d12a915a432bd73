import InternPool.Utf8.Ascii
import InternPool.Utf8.Sequence

namespace InternPool.Utf8

structure Fault where
  offset : Nat
  subpart : Subpart
deriving Repr, DecidableEq

def Fault.next (fault : Fault) : Nat :=
  fault.offset + fault.subpart.length

-- `bytes` lie at offset `pos` of the input.
def scan (pos : Nat) : Bytes → Option Fault
  | [] => none
  | byte :: rest =>
    if _ : isAscii byte = true then
      let run := asciiRun (byte :: rest)
      scan (pos + run) ((byte :: rest).drop run)
    else
      match _ : readSequence byte rest with
      | .ok width => scan (pos + width) ((byte :: rest).drop width)
      | .error subpart => some ⟨pos, subpart⟩
termination_by bytes => bytes.length
decreasing_by
  · have := asciiRun_pos rest ‹_›
    simp only [List.length_drop, List.length_cons]
    omega
  · have := readSequence_ok ‹_›
    simp only [List.length_drop, List.length_cons]
    omega

def nextFault (bytes : Bytes) (pos : Nat) : Option Fault :=
  scan pos (bytes.drop pos)

theorem scan_bounds {pos : Nat} {bytes : Bytes} {fault : Fault} (found : scan pos bytes = some fault) :
    pos ≤ fault.offset ∧ 1 ≤ fault.subpart.length ∧ fault.subpart.length ≤ 3 ∧
      fault.next ≤ pos + bytes.length := by
  fun_induction scan pos bytes with
  | case1 => cases found
  | case2 pos byte rest ascii run ih =>
    have := ih found
    have := asciiRun_pos rest ascii
    have : asciiRun (byte :: rest) ≤ (byte :: rest).length := asciiRun_le _
    simp only [List.length_drop, run] at *
    omega
  | case3 pos byte rest _ width read ih =>
    have := ih found
    have := readSequence_ok read
    simp only [List.length_drop, List.length_cons] at *
    omega
  | case4 pos byte rest _ subpart broken =>
    cases found
    have := readSequence_error broken
    simp only [Fault.next, List.length_cons]
    omega

end InternPool.Utf8
