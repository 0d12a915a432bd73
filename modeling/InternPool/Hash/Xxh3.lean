import InternPool.Hash.Content
import InternPool.Hash.Words

namespace InternPool.Hash.Xxh3

def prime32One : UInt64 := 0x9E3779B1
def prime32Two : UInt64 := 0x85EBCA77
def prime32Three : UInt64 := 0xC2B2AE3D
def prime64One : UInt64 := 0x9E3779B185EBCA87
def prime64Two : UInt64 := 0xC2B2AE3D27D4EB4F
def prime64Three : UInt64 := 0x165667B19E3779F9
def prime64Four : UInt64 := 0x85EBCA77C2B2AE63
def prime64Five : UInt64 := 0x27D4EB2F165667C5
def mixOne : UInt64 := 0x165667919E3779F9
def mixTwo : UInt64 := 0x9FB21C651E98DF25

def secret : Bytes :=
  [0xb8, 0xfe, 0x6c, 0x39, 0x23, 0xa4, 0x4b, 0xbe, 0x7c, 0x01, 0x81, 0x2c, 0xf7, 0x21, 0xad, 0x1c,
   0xde, 0xd4, 0x6d, 0xe9, 0x83, 0x90, 0x97, 0xdb, 0x72, 0x40, 0xa4, 0xa4, 0xb7, 0xb3, 0x67, 0x1f,
   0xcb, 0x79, 0xe6, 0x4e, 0xcc, 0xc0, 0xe5, 0x78, 0x82, 0x5a, 0xd0, 0x7d, 0xcc, 0xff, 0x72, 0x21,
   0xb8, 0x08, 0x46, 0x74, 0xf7, 0x43, 0x24, 0x8e, 0xe0, 0x35, 0x90, 0xe6, 0x81, 0x3a, 0x26, 0x4c,
   0x3c, 0x28, 0x52, 0xbb, 0x91, 0xc3, 0x00, 0xcb, 0x88, 0xd0, 0x65, 0x8b, 0x1b, 0x53, 0x2e, 0xa3,
   0x71, 0x64, 0x48, 0x97, 0xa2, 0x0d, 0xf9, 0x4e, 0x38, 0x19, 0xef, 0x46, 0xa9, 0xde, 0xac, 0xd8,
   0xa8, 0xfa, 0x76, 0x3f, 0xe3, 0x9c, 0x34, 0x3f, 0xf9, 0xdc, 0xbb, 0xc7, 0xc7, 0x0b, 0x4f, 0x1d,
   0x8a, 0x51, 0xe0, 0x4b, 0xcd, 0xb4, 0x59, 0x31, 0xc8, 0x9f, 0x7e, 0xc9, 0xd9, 0x78, 0x73, 0x64,
   0xea, 0xc5, 0xac, 0x83, 0x34, 0xd3, 0xeb, 0xc3, 0xc5, 0x81, 0xa0, 0xff, 0xfa, 0x13, 0x63, 0xeb,
   0x17, 0x0d, 0xdd, 0x51, 0xb7, 0xf0, 0xda, 0x49, 0xd3, 0x16, 0x55, 0x26, 0x29, 0xd4, 0x68, 0x9e,
   0x2b, 0x16, 0xbe, 0x58, 0x7d, 0x47, 0xa1, 0xfc, 0x8f, 0xf8, 0xb8, 0xd1, 0x7a, 0xd0, 0x31, 0xce,
   0x45, 0xcb, 0x3a, 0x8f, 0x95, 0x16, 0x04, 0x28, 0xaf, 0xd7, 0xfb, 0xca, 0xbb, 0x4b, 0x40, 0x7e]

def foldDown (word : UInt64) (count : UInt64) : UInt64 :=
  word ^^^ word >>> count

def avalanche (word : UInt64) : UInt64 :=
  foldDown (foldDown word 37 * mixOne) 32

def shortAvalanche (word : UInt64) : UInt64 :=
  foldDown (foldDown (foldDown word 33 * prime64Two) 29 * prime64Three) 32

def hashEmpty (seed : UInt64) : UInt64 :=
  shortAvalanche (seed ^^^ read64 secret 56 ^^^ read64 secret 64)

def hashUpTo3 (bytes : Bytes) (seed : UInt64) : UInt64 :=
  let length := bytes.length
  let byteAt (i : Nat) := (bytes.getD i 0).toUInt64
  let combined :=
    byteAt 0 <<< 16 ||| byteAt (length / 2) <<< 24 ||| byteAt (length - 1) |||
      UInt64.ofNat length <<< 8
  shortAvalanche (combined ^^^ ((read32 secret 0 ^^^ read32 secret 4) + seed))

def hashUpTo8 (bytes : Bytes) (seed : UInt64) : UInt64 :=
  let length := bytes.length
  let seed := seed ^^^ swapBytes32 seed <<< 32
  let input := read32 bytes (length - 4) + read32 bytes 0 <<< 32
  let keyed := input ^^^ ((read64 secret 8 ^^^ read64 secret 16) - seed)
  let mixed := (keyed ^^^ rotateLeft keyed 49 ^^^ rotateLeft keyed 24) * mixTwo
  foldDown ((mixed ^^^ (mixed >>> 35 + UInt64.ofNat length)) * mixTwo) 28

def hashUpTo16 (bytes : Bytes) (seed : UInt64) : UInt64 :=
  let length := bytes.length
  let low := read64 bytes 0 ^^^ ((read64 secret 24 ^^^ read64 secret 32) + seed)
  let high := read64 bytes (length - 8) ^^^ ((read64 secret 40 ^^^ read64 secret 48) - seed)
  avalanche (UInt64.ofNat length + swapBytes low + high + foldedProduct low high)

def mix16 (bytes : Bytes) (offset : Nat) (secretOffset : Nat) (seed : UInt64) : UInt64 :=
  foldedProduct
    (read64 bytes offset ^^^ (read64 secret secretOffset + seed))
    (read64 bytes (offset + 8) ^^^ (read64 secret (secretOffset + 8) - seed))

-- Pairs of sixteen bytes from both ends inwards.
def hashUpTo128 (bytes : Bytes) (seed : UInt64) : UInt64 :=
  let length := bytes.length
  let pairs := (length - 1) / 32 + 1
  let pair (i : Nat) :=
    mix16 bytes (16 * i) (32 * i) seed + mix16 bytes (length - 16 * (i + 1)) (32 * i + 16) seed
  avalanche ((List.range pairs).foldl (fun sum i => sum + pair i) (UInt64.ofNat length * prime64One))

def hashUpTo240 (bytes : Bytes) (seed : UInt64) : UInt64 :=
  let length := bytes.length
  let start :=
    (List.range 8).foldl (fun sum i => sum + mix16 bytes (16 * i) (16 * i) seed)
      (UInt64.ofNat length * prime64One)
  let later :=
    (List.range' 8 (length / 16 - 8)).foldl
      (fun sum i => sum + mix16 bytes (16 * i) (16 * (i - 8) + 3) seed) (avalanche start)
  avalanche (later + mix16 bytes (length - 16) 119 seed)

-- The seed 0 leaves the default secret as it is.
def seededSecret (seed : UInt64) : Bytes :=
  (List.range 12).flatMap fun i =>
    toLittleEndian 8 (read64 secret (16 * i) + seed).toNat ++
      toLittleEndian 8 (read64 secret (16 * i + 8) - seed).toNat

def startAccumulators : List UInt64 :=
  [prime32Three, prime64One, prime64Two, prime64Three, prime64Four, prime32Two, prime64Five, prime32One]

def stripeWords (bytes : Bytes) : List UInt64 :=
  (List.range 8).map fun i => read64 bytes (8 * i)

-- Each lane adds the product of its keyed halves; the plain word goes to the neighbouring lane.
def accumulate (accumulators words keys : List UInt64) : List UInt64 :=
  match accumulators, words, keys with
  | a :: b :: accumulators, v :: w :: words, k :: l :: keys =>
    let product (word key : UInt64) :=
      let keyed := word ^^^ key
      (keyed &&& (0xFFFFFFFF : UInt64)) * (keyed >>> 32)
    (a + w + product v k) :: (b + v + product w l) :: accumulate accumulators words keys
  | _, _, _ => []

def scramble (accumulators keys : List UInt64) : List UInt64 :=
  List.zipWith (fun (sum key : UInt64) => (sum ^^^ sum >>> 47 ^^^ key) * prime32One) accumulators keys

-- Of the sixteen stripes of the present block, `inBlock` have been taken.
def takeStripes (keys : Array (List UInt64)) (scrambleKeys : List UInt64) :
    (count inBlock : Nat) → List UInt64 → Bytes → List UInt64
  | 0, _, accumulators, _ => accumulators
  | count + 1, inBlock, accumulators, bytes =>
    let taken := accumulate accumulators (stripeWords bytes) (keys.getD inBlock [])
    if inBlock = 15 then
      takeStripes keys scrambleKeys count 0 (scramble taken scrambleKeys) (bytes.drop 64)
    else takeStripes keys scrambleKeys count (inBlock + 1) taken (bytes.drop 64)

def merge (accumulators keys : List UInt64) (start : UInt64) : UInt64 :=
  match accumulators, keys with
  | a :: b :: accumulators, k :: l :: keys =>
    merge accumulators keys (start + foldedProduct (a ^^^ k) (b ^^^ l))
  | _, _ => avalanche start

-- The last stripe is the last 64 bytes, which may overlap the one before.
def hashLong (bytes : Bytes) (seed : UInt64) : UInt64 :=
  let length := bytes.length
  let secret := seededSecret seed
  let keys := ((List.range 16).map fun i => stripeWords (secret.drop (8 * i))).toArray
  let taken :=
    takeStripes keys (stripeWords (secret.drop 128)) ((length - 1) / 64) 0 startAccumulators bytes
  let last :=
    accumulate taken (stripeWords (bytes.drop (length - 64))) (stripeWords (secret.drop 121))
  merge last (stripeWords (secret.drop 11)) (UInt64.ofNat length * prime64One)

def hash (seed : UInt64) (bytes : Bytes) : UInt64 :=
  let length := bytes.length
  if length = 0 then hashEmpty seed
  else if length ≤ 3 then hashUpTo3 bytes seed
  else if length ≤ 8 then hashUpTo8 bytes seed
  else if length ≤ 16 then hashUpTo16 bytes seed
  else if length ≤ 128 then hashUpTo128 bytes seed
  else if length ≤ 240 then hashUpTo240 bytes seed
  else hashLong bytes seed

instance : ContentHash := ⟨hash⟩

end InternPool.Hash.Xxh3
