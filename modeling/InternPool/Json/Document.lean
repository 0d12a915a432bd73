import InternPool.Json.Number
import InternPool.Json.Text
import InternPool.Utf8.Decoder

namespace InternPool.Json

inductive Error where
  | malformed
  | mismatch (mismatch : Mismatch)
deriving Repr, DecidableEq

def isBlank (byte : UInt8) : Bool :=
  byte == 0x20 || byte == 0x09 || byte == 0x0A || byte == 0x0D

def skipBlanks (input : Bytes) : Bytes :=
  input.dropWhile isBlank

-- The type of a value that was not expected, from its start: a literal and a number are read whole,
-- of a list or an object the bracket is enough.
def unexpected (expected : Expected) (input : Bytes) : Error :=
  let literal (name : String) (found : Found) : Option Found :=
    if (Utf8.ofText name).isPrefixOf input then some found else none
  let found : Option Found :=
    match input with
    | [] => none
    | start :: rest =>
      if start = 0x6E then literal "null" .null
      else if start = 0x74 then literal "true" (.boolean true)
      else if start = 0x66 then literal "false" (.boolean false)
      else if start = 0x2D then readUnsigned true rest
      else if isDigit start then readUnsigned false input
      else if start = 0x22 then (readText rest).map fun (content, _) => .text (Utf8.text content)
      else if start = 0x5B then some .sequence
      else if start = 0x7B then some .map
      else none
  match found with
  | some found => .mismatch ⟨found, expected⟩
  | none => .malformed

def expectText (input : Bytes) : Except Error (Bytes × Bytes) :=
  match skipBlanks input with
  | [] => .error .malformed
  | start :: rest =>
    if start = 0x22 then
      match readText rest with
      | some found => .ok found
      | none => .error .malformed
    else .error (unexpected .text (start :: rest))

def expectByte (byte : UInt8) (input : Bytes) : Option Bytes :=
  match skipBlanks input with
  | [] => none
  | start :: rest => if start = byte then some rest else none

def expectKey (input : Bytes) : Option (Bytes × Bytes) :=
  (expectByte 0x22 input).bind readText

def expectValue (input : Bytes) : Except Error (Bytes × Bytes) :=
  match expectByte 0x3A input with
  | none => .error .malformed
  | some rest => expectText rest

theorem skipBlanks_le (input : Bytes) : (skipBlanks input).length ≤ input.length :=
  (List.dropWhile_suffix isBlank).length_le

theorem readText_le {input content rest : Bytes} (read : readText input = some (content, rest)) :
    rest.length ≤ input.length := by
  unfold readText at read
  split at read
  · cases read
  · rename_i done after pieces
    have := readPieces_shorter pieces
    simp only at read
    split at read
    · cases read
      omega
    · cases read

theorem expectByte_shorter {byte : UInt8} {input rest : Bytes}
    (next : expectByte byte input = some rest) : rest.length < input.length := by
  unfold expectByte at next
  have := skipBlanks_le input
  split at next
  · cases next
  · rename_i start after same
    split at next
    · cases next
      rw [same, List.length_cons] at this
      omega
    · cases next

theorem expectText_le {input content rest : Bytes} (read : expectText input = .ok (content, rest)) :
    rest.length ≤ input.length := by
  unfold expectText at read
  have := skipBlanks_le input
  split at read
  · cases read
  · rename_i start after same
    rw [same, List.length_cons] at this
    split at read
    · split at read
      · rename_i text
        cases read
        have := readText_le text
        omega
      · cases read
    · cases read

theorem expectKey_shorter {input key rest : Bytes} (read : expectKey input = some (key, rest)) :
    rest.length < input.length := by
  obtain ⟨opened, opens, text⟩ := Option.bind_eq_some_iff.mp read
  have := expectByte_shorter opens
  have := readText_le text
  omega

theorem expectValue_shorter {input value rest : Bytes}
    (read : expectValue input = .ok (value, rest)) : rest.length < input.length := by
  unfold expectValue at read
  split at read
  · cases read
  · rename_i opened colon
    have := expectByte_shorter colon
    have := expectText_le read
    omega

-- Keys and values in turn, and what follows the closing brace, or why that was not reached.
@[ext]
structure Members where
  texts : List Bytes
  ended : Except Error Bytes
deriving Repr

def inPairs {α : Type} : List α → List (α × α)
  | key :: value :: rest => (key, value) :: inPairs rest
  | _ => []

-- `done` are the keys and values before, in opposite order.
def readMembers (done : List Bytes) (input : Bytes) : Members :=
  match _ : expectKey input with
  | none => ⟨done.reverse, .error .malformed⟩
  | some (key, tail) =>
    match _ : expectValue tail with
    | .error error => ⟨(key :: done).reverse, .error error⟩
    | .ok (value, tail) =>
      match _ : skipBlanks tail with
      | [] => ⟨(value :: key :: done).reverse, .error .malformed⟩
      | mark :: rest =>
        if mark = 0x7D then ⟨(value :: key :: done).reverse, .ok rest⟩
        else if mark = 0x2C then readMembers (value :: key :: done) rest
        else ⟨(value :: key :: done).reverse, .error .malformed⟩
termination_by input.length
decreasing_by
  have := expectKey_shorter ‹_›
  have := expectValue_shorter ‹_›
  have := skipBlanks_le tail
  simp only [‹skipBlanks tail = _›, List.length_cons] at this
  omega

def expectObject (input : Bytes) : Members :=
  match skipBlanks input with
  | [] => ⟨[], .error .malformed⟩
  | start :: rest =>
    if start = 0x7B then
      match expectByte 0x7D rest with
      | some rest => ⟨[], .ok rest⟩
      | none => readMembers [] rest
    else ⟨[], .error (unexpected .map (start :: rest))⟩

def isOver (rest : Bytes) : Bool :=
  (skipBlanks rest).isEmpty

end InternPool.Json
