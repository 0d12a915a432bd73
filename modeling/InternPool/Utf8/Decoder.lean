import InternPool.Utf8.Scalar

namespace InternPool.Utf8

def replacementScalar : Char := '\uFFFD'

-- `lower` and `upper` are the range of the next byte that a sequence needs.
structure Decoder where
  value : Nat := 0
  needed : Nat := 0
  lower : UInt8 := 0x80
  upper : UInt8 := 0xBF
  emitted : Array Char := #[]
deriving Repr, DecidableEq

namespace Decoder

def emit (decoder : Decoder) (scalar : Char) : Decoder :=
  { emitted := decoder.emitted.push scalar }

def start (decoder : Decoder) (byte : UInt8) : Decoder :=
  let value := byte.toNat
  if byte ≤ 0x7F then decoder.emit (Char.ofNat value)
  else if 0xC2 ≤ byte ∧ byte ≤ 0xDF then { decoder with value := value % 32, needed := 1 }
  else if 0xE0 ≤ byte ∧ byte ≤ 0xEF then
    { decoder with
      value := value % 16
      needed := 2
      lower := if byte = 0xE0 then 0xA0 else 0x80
      upper := if byte = 0xED then 0x9F else 0xBF }
  else if 0xF0 ≤ byte ∧ byte ≤ 0xF4 then
    { decoder with
      value := value % 8
      needed := 3
      lower := if byte = 0xF0 then 0x90 else 0x80
      upper := if byte = 0xF4 then 0x8F else 0xBF }
  else decoder.emit replacementScalar

def push (decoder : Decoder) (byte : UInt8) : Decoder :=
  if decoder.needed = 0 then decoder.start byte
  else if byte < decoder.lower ∨ decoder.upper < byte then
    (decoder.emit replacementScalar).start byte
  else
    let value := decoder.value * 64 + byte.toNat % 64
    if decoder.needed = 1 then decoder.emit (Char.ofNat value)
    else { decoder with value, needed := decoder.needed - 1, lower := 0x80, upper := 0xBF }

def finish (decoder : Decoder) : List Char :=
  if decoder.needed = 0 then decoder.emitted.toList
  else (decoder.emitted.push replacementScalar).toList

end Decoder

def decode (bytes : Bytes) : List Char :=
  (bytes.foldl Decoder.push {}).finish

def text (bytes : Bytes) : String :=
  String.ofList (decode bytes)

end InternPool.Utf8
