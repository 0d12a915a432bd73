import InternPool.Utf8.Scalar

namespace InternPool.Json

def quoteByte : UInt8 := 0x22
def backslash : UInt8 := 0x5C

def hexDigit (n : UInt8) : UInt8 :=
  if n < 10 then 0x30 + n else 0x57 + n

def escape (byte : UInt8) : Bytes :=
  if byte = quoteByte then [backslash, quoteByte]
  else if byte = backslash then [backslash, backslash]
  else if byte = 0x08 then [backslash, 0x62]
  else if byte = 0x09 then [backslash, 0x74]
  else if byte = 0x0A then [backslash, 0x6E]
  else if byte = 0x0C then [backslash, 0x66]
  else if byte = 0x0D then [backslash, 0x72]
  else if byte < 0x20 then
    [backslash, 0x75, 0x30, 0x30, hexDigit (byte / 16), hexDigit (byte % 16)]
  else [byte]

def writeText (content : Bytes) : Bytes :=
  quoteByte :: content.flatMap escape ++ [quoteByte]

def writeObject (members : List (Bytes × Bytes)) : Bytes :=
  0x7B :: [(0x2C : UInt8)].intercalate
    (members.map fun (key, value) => writeText key ++ 0x3A :: writeText value) ++ [0x7D]

end InternPool.Json
