import InternPool.Utf8.Scalar

namespace InternPool.Hash

def littleEndian (bytes : Bytes) : Nat :=
  bytes.foldr (fun byte high => byte.toNat + 256 * high) 0

def toLittleEndian : (count : Nat) → Nat → Bytes
  | 0, _ => []
  | count + 1, n => UInt8.ofNat n :: toLittleEndian count (n / 256)

def twosComplement : (count : Nat) → Int → Bytes
  | 0, _ => []
  | count + 1, n => UInt8.ofInt n :: twosComplement count (n / 256)

def read32 (bytes : Bytes) (offset : Nat) : UInt64 :=
  UInt64.ofNat (littleEndian ((bytes.drop offset).take 4))

def read64 (bytes : Bytes) (offset : Nat) : UInt64 :=
  UInt64.ofNat (littleEndian ((bytes.drop offset).take 8))

def rotateLeft (word : UInt64) (count : UInt64) : UInt64 :=
  word <<< count ||| word >>> (64 - count)

def swapBytes (word : UInt64) : UInt64 :=
  UInt64.ofNat (littleEndian (toLittleEndian 8 word.toNat).reverse)

def swapBytes32 (word : UInt64) : UInt64 :=
  UInt64.ofNat (littleEndian (toLittleEndian 4 word.toNat).reverse)

-- The two halves of the full product of two words, folded into one by exclusive or.
def foldedProduct (left right : UInt64) : UInt64 :=
  let product := left.toNat * right.toNat
  UInt64.ofNat product ^^^ UInt64.ofNat (product / UInt64.size)

end InternPool.Hash
