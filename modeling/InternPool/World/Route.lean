import InternPool.World

namespace InternPool

inductive TextForm where
  | plain
  | literal
  | reference
  | owned
  | ownedReference
  | boxed
  | lazyBorrowed
  | lazyOwned
  | parsed
deriving Repr, DecidableEq

inductive BytesForm where
  | plain
  | slice
  | byteString
deriving Repr, DecidableEq

inductive ValueForm where
  | transient
  | borrowed
  | owned
deriving Repr, DecidableEq

inductive Value where
  | text (form : ValueForm) (text : String)
  | scalar (scalar : Char)
  | bytes (form : ValueForm) (bytes : Bytes)
  | sequence
  | map
  | unit
  | boolean (value : Bool)
  | integer (value : Int)
  | floating (digits : String)
  | optional
  | wrapped
  | enumerated
deriving Repr, DecidableEq

def Value.content : Value → Except Mismatch Bytes
  | .text _ string => .ok (Utf8.ofText string)
  | .scalar char => .ok (String.utf8EncodeChar char)
  | .bytes _ input => .ok (Utf8.repair input).value
  | .sequence => .error ⟨.sequence, .text⟩
  | .map => .error ⟨.map, .text⟩
  | .unit => .error ⟨.unit, .text⟩
  | .boolean value => .error ⟨.boolean value, .text⟩
  | .integer value => .error ⟨.integer value, .text⟩
  | .floating digits => .error ⟨.floating digits, .text⟩
  | .optional => .error ⟨.optional, .text⟩
  | .wrapped => .error ⟨.wrapped, .text⟩
  | .enumerated => .error ⟨.enumerated, .text⟩

inductive Route where
  | empty
  | text (form : TextForm) (text : String)
  | lenient (form : BytesForm) (bytes : Bytes)
  | strict (bytes : Bytes)
  | cString (memory : Bytes)
  | value (value : Value)
  | json (source : Bytes)
deriving Repr, DecidableEq

inductive Rejection where
  | illFormed (error : Utf8.Error)
  | mismatch (mismatch : Mismatch)
  | malformed
deriving Repr, DecidableEq

def Rejection.ofJson : Json.Error → Rejection
  | .malformed => .malformed
  | .mismatch cause => .mismatch cause

namespace World

variable [ContentHash]

-- The string is interned before what follows it is looked at.
def constructJson (world : World) (source : Bytes) : Outcome (Except Rejection Handle) :=
  match Json.expectText source with
  | .error error => ⟨.error (.ofJson error), world⟩
  | .ok (content, rest) =>
    let interned := world.internShared content
    { answer := if Json.isOver rest then .ok interned.answer else .error .malformed
      world := interned.world }

def arrive (world : World) (content : Bytes) : Outcome (Except Rejection Handle) :=
  let interned := world.internShared content
  ⟨.ok interned.answer, interned.world⟩

def construct (world : World) : Route → Outcome (Except Rejection Handle)
  | .empty => world.arrive []
  | .text _ text => world.arrive (Utf8.ofText text)
  | .lenient _ bytes => world.arrive (Utf8.repair bytes).value
  | .strict bytes =>
    match Utf8.validate bytes with
    | .ok () => world.arrive bytes
    | .error error => ⟨.error (.illFormed error), world⟩
  | .cString memory => world.arrive (Utf8.repair (cutAtNul memory)).value
  | .value value =>
    match value.content with
    | .ok content => world.arrive content
    | .error mismatch => ⟨.error (.mismatch mismatch), world⟩
  | .json source => world.constructJson source

def foreignNew (world : World) (memory : Bytes) : Outcome ForeignValue :=
  let interned := world.internShared (Utf8.repair (cutAtNul memory)).value
  ⟨.ofHandle interned.answer, interned.world⟩

def foreignFromBytes (world : World) (memory : Option Bytes) (length : Nat) :
    Outcome ForeignValue :=
  let interned := world.internShared (Utf8.repair (readMemory memory length)).value
  ⟨.ofHandle interned.answer, interned.world⟩

end World

end InternPool
