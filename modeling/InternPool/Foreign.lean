import InternPool.Handle

namespace InternPool

structure ForeignValue where
  pointer : Buffer
  length : Nat
  hash : UInt64
deriving Repr, DecidableEq, Inhabited

namespace ForeignValue

def ofHandle (handle : Handle) : ForeignValue :=
  ⟨handle.buffer, handle.length, handle.hash⟩

def isEmpty (value : ForeignValue) : Bool :=
  value.length == 0

def same (left right : ForeignValue) : Bool :=
  left.pointer.number == right.pointer.number

def content (value : ForeignValue) : Bytes :=
  value.pointer.bytes.take value.length

def cString (value : ForeignValue) : Bytes :=
  cutAtNul value.pointer.bytes

end ForeignValue

-- With the length 0 the pointer may be null.
def readMemory (memory : Option Bytes) (length : Nat) : Bytes :=
  if length = 0 then [] else (memory.getD []).take length

end InternPool
