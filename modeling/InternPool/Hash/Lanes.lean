import InternPool.Hash.PassThrough

namespace InternPool.Hash

def settled (start : UInt64) (writes : List HashWrite) : UInt64 × Bytes :=
  writes.foldl
    (fun (word, bytes) write =>
      match write with
      | .word new => (new, [])
      | .bytes more => (word, bytes ++ more))
    (start, [])

-- Every byte moves the word up by one of its eight lanes, round the end, and falls into the lane at
-- the bottom.
def laneOf (bytes : Bytes) (lane : Nat) : UInt8 :=
  (bytes.zipIdx.filter fun (_, i) => (bytes.length - 1 - i) % 8 == lane).foldl
    (fun sum (byte, _) => sum ^^^ byte) 0

def lanes (bytes : Bytes) : UInt64 :=
  (List.range 8).foldl
    (fun sum lane => sum ^^^ (laneOf bytes lane).toUInt64 <<< UInt64.ofNat (8 * lane)) 0

def closedForm (word : UInt64) (bytes : Bytes) : UInt64 :=
  rotateLeft word (UInt64.ofNat (8 * bytes.length % 64)) ^^^ lanes bytes

end InternPool.Hash
