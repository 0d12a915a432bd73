import InternPool.Hash.PassThrough
import InternPool.Utf8.Decoder

namespace InternPool

-- The number tells a buffer from all others. `bytes` is what the store of the process has under it.
structure Buffer where
  number : Nat
  bytes : Bytes
deriving Repr, DecidableEq, Inhabited

structure Handle where
  buffer : Buffer
  hash : UInt64
deriving Repr, DecidableEq, Inhabited

-- Where each buffer lies.
abbrev Placement := Nat → Nat

def cutAtNul (memory : Bytes) : Bytes :=
  memory.takeWhile (· != 0)

namespace Handle

def same (left right : Handle) : Bool :=
  left.buffer.number == right.buffer.number

def length (handle : Handle) : Nat :=
  handle.buffer.bytes.length - 1

def isEmpty (handle : Handle) : Bool :=
  handle.length == 0

def content (handle : Handle) : Bytes :=
  handle.buffer.bytes.take handle.length

def terminated (handle : Handle) : Bytes :=
  handle.buffer.bytes

def text (handle : Handle) : String :=
  Utf8.text handle.content

-- What a reader sees who stops at the first NUL.
def cView (handle : Handle) : Bytes :=
  cutAtNul handle.buffer.bytes

-- There is none for a content that holds a NUL: a reader in C would not see all of it.
def cString? (handle : Handle) : Option Bytes :=
  if handle.cView.length + 1 = handle.buffer.bytes.length then some handle.cView else none

def holds (handle : Handle) (hash : UInt64) (content : Bytes) : Bool :=
  handle.hash == hash && handle.content == content

def equalsText (handle : Handle) (text : String) : Bool :=
  handle.content == Utf8.ofText text

def textEquals (text : String) (handle : Handle) : Bool :=
  Utf8.ofText text == handle.content

-- Strings of two tables may have equal content in two buffers: their places then decide, so that
-- only the same handle compares equal.
def compare (place : Placement) (left right : Handle) : Ordering :=
  (Ord.compare left.content right.content).then
    (Ord.compare (place left.buffer.number) (place right.buffer.number))

-- No two handles are without an order.
def compare? (place : Placement) (left right : Handle) : Option Ordering :=
  some (compare place left right)

instance (place : Placement) : Std.TransCmp (compare place) :=
  inferInstanceAs (Std.TransCmp (compareLex (compareOn content)
    (compareOn fun handle => place handle.buffer.number)))

def writes (handle : Handle) : List HashWrite :=
  [.word handle.hash]

end Handle

end InternPool
