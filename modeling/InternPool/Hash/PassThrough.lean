import InternPool.Hash.Words

namespace InternPool

structure PassThroughHasher where
  state : UInt64 := 0
deriving Repr, DecidableEq, Inhabited

inductive HashWrite where
  | bytes (bytes : Bytes)
  | word (word : UInt64)
deriving Repr, DecidableEq

namespace PassThroughHasher

def foldByte (state : UInt64) (byte : UInt8) : UInt64 :=
  Hash.rotateLeft state 8 ^^^ byte.toUInt64

def write (hasher : PassThroughHasher) : HashWrite → PassThroughHasher
  | .bytes bytes => ⟨bytes.foldl foldByte hasher.state⟩
  | .word word => ⟨word⟩

def finish (hasher : PassThroughHasher) : UInt64 :=
  hasher.state

def writeAll (hasher : PassThroughHasher) (writes : List HashWrite) : PassThroughHasher :=
  writes.foldl write hasher

end PassThroughHasher

-- A value that can be hashed. Numbers of `width` bytes are written as bytes, the lowest first, in
-- two's complement if they are signed; only numbers of 64 bits that are not sizes are written as
-- words.
inductive Hashed where
  | natural (width : Nat) (value : Nat)
  | integer (width : Nat) (value : Int)
  | word (value : UInt64)
  | signedWord (value : Int)
  | bytes (value : Bytes)
  | slice (value : Bytes)
  | text (value : String)
deriving Repr, DecidableEq

-- A slice writes its length before its bytes, a text the byte `FF` after them.
def Hashed.writes : Hashed → List HashWrite
  | .natural width value => [.bytes (Hash.toLittleEndian width value)]
  | .integer width value => [.bytes (Hash.twosComplement width value)]
  | .word value => [.word value]
  | .signedWord value => [.word (UInt64.ofInt value)]
  | .bytes value => [.bytes value]
  | .slice value => [.bytes (Hash.toLittleEndian 8 value.length), .bytes value]
  | .text value => [.bytes (Utf8.ofText value), .bytes [0xFF]]

end InternPool
