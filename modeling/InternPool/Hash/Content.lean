import InternPool.Utf8.Scalar

namespace InternPool

-- Tables work with any hash of bytes under a seed; the one of the program is `Hash.Xxh3.hash`.
class ContentHash where
  hash (seed : UInt64) (bytes : Bytes) : UInt64

structure ContentHasher where
  seed : UInt64 := 0
deriving Repr, DecidableEq, Inhabited

namespace ContentHasher

-- All of a content counts, embedded NULs included.
def hash [ContentHash] (hasher : ContentHasher) (bytes : Bytes) : UInt64 :=
  ContentHash.hash hasher.seed bytes

def inspect (hasher : ContentHasher) : String :=
  "ContentHasher \x7b seed: " ++ toString hasher.seed.toNat ++ " \x7d"

end ContentHasher

end InternPool
