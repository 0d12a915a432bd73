import InternPool.Utf8.Scalar

namespace InternPool.Json

inductive HexDigit : UInt8 → Nat → Prop where
  | decimal {n : Nat} (small : n < 10) : HexDigit (UInt8.ofNat (0x30 + n)) n
  | lower {n : Nat} (small : n < 6) : HexDigit (UInt8.ofNat (0x61 + n)) (10 + n)
  | upper {n : Nat} (small : n < 6) : HexDigit (UInt8.ofNat (0x41 + n)) (10 + n)

inductive Unit16 : Bytes → Nat → Prop where
  | digits {a b c d : UInt8} {w x y z : Nat} (first : HexDigit a w) (second : HexDigit b x)
      (third : HexDigit c y) (fourth : HexDigit d z) :
      Unit16 [0x5C, 0x75, a, b, c, d] (w * 4096 + x * 256 + y * 16 + z)

inductive ShortEscape : UInt8 → Char → Prop where
  | quote : ShortEscape 0x22 '"'
  | backslash : ShortEscape 0x5C '\\'
  | slash : ShortEscape 0x2F '/'
  | backspace : ShortEscape 0x62 '\x08'
  | formFeed : ShortEscape 0x66 '\x0C'
  | lineFeed : ShortEscape 0x6E '\n'
  | carriageReturn : ShortEscape 0x72 '\r'
  | tab : ShortEscape 0x74 '\t'

inductive Spells : Bytes → Char → Prop where
  | itself {scalar : Char} (visible : 0x20 ≤ scalar.toNat) (unquoted : scalar ≠ '"')
      (unescaped : scalar ≠ '\\') : Spells (String.utf8EncodeChar scalar) scalar
  | short {letter : UInt8} {scalar : Char} (escape : ShortEscape letter scalar) :
      Spells [0x5C, letter] scalar
  | unit {bytes : Bytes} {scalar : Char} (unit : Unit16 bytes scalar.toNat) : Spells bytes scalar
  | pair {first second : Bytes} {high low : Nat} {scalar : Char} (upper : Unit16 first (0xD800 + high))
      (lower : Unit16 second (0xDC00 + low)) (highBits : high < 0x400) (lowBits : low < 0x400)
      (value : scalar.toNat = 0x10000 + high * 0x400 + low) : Spells (first ++ second) scalar

inductive Denotes : Bytes → List Char → Prop where
  | nil : Denotes [] []
  | cons {piece rest : Bytes} {scalar : Char} {scalars : List Char} (spelling : Spells piece scalar)
      (others : Denotes rest scalars) : Denotes (piece ++ rest) (scalar :: scalars)

def Blank (bytes : Bytes) : Prop :=
  ∀ byte ∈ bytes, byte = 0x20 ∨ byte = 0x09 ∨ byte = 0x0A ∨ byte = 0x0D

def IsText (source : Bytes) (scalars : List Char) : Prop :=
  ∃ before body after, Blank before ∧ Denotes body scalars ∧ Blank after ∧
    source = before ++ 0x22 :: body ++ 0x22 :: after

def IsMember (source : Bytes) (member : List Char × List Char) : Prop :=
  ∃ key value, IsText key member.1 ∧ IsText value member.2 ∧ source = key ++ 0x3A :: value

inductive AreMembers : Bytes → List (List Char × List Char) → Prop where
  | last {source : Bytes} {member : List Char × List Char} (only : IsMember source member) :
      AreMembers source [member]
  | more {source others : Bytes} {member : List Char × List Char}
      {members : List (List Char × List Char)} (first : IsMember source member)
      (rest : AreMembers others members) : AreMembers (source ++ 0x2C :: others) (member :: members)

inductive IsBody : Bytes → List (List Char × List Char) → Prop where
  | none {inner : Bytes} (blank : Blank inner) : IsBody inner []
  | some {inner : Bytes} {members : List (List Char × List Char)} (are : AreMembers inner members) :
      IsBody inner members

-- A key may come more than once.
def IsObject (source : Bytes) (members : List (List Char × List Char)) : Prop :=
  ∃ before inner after, Blank before ∧ IsBody inner members ∧ Blank after ∧
    source = before ++ 0x7B :: inner ++ 0x7D :: after

end InternPool.Json
