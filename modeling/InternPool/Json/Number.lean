import InternPool.Decimal.Shortest
import InternPool.Mismatch
import InternPool.Utf8.Scalar

namespace InternPool.Json

def isDigit (byte : UInt8) : Bool :=
  0x30 ≤ byte && byte ≤ 0x39

def digitValue (byte : UInt8) : Nat :=
  byte.toNat - 0x30

def exponentText (exponent : Int) : String :=
  if exponent < 0 then toString exponent else "+" ++ toString exponent

-- With a point up to sixteen whole digits and down to five places, in powers of ten beyond that.
def layOut (number : Decimal.Digits) : String :=
  let all := Nat.toDigits 10 number.digits
  let digits := (all.reverse.dropWhile (· == '0')).reverse
  let count := (digits.length : Int)
  let point := number.point
  if count ≤ point ∧ point ≤ 16 then
    String.ofList (digits ++ List.replicate (point - count).toNat '0') ++ ".0"
  else if 0 < point ∧ point ≤ 16 then
    String.ofList (digits.take point.toNat ++ '.' :: digits.drop point.toNat)
  else if -5 < point ∧ point ≤ 0 then
    "0." ++ String.ofList (List.replicate (-point).toNat '0' ++ digits)
  else
    let tail := digits.drop 1
    String.ofList (digits.take 1 ++ if tail.isEmpty then [] else '.' :: tail) ++ "e" ++
      exponentText (point - 1)

def floatText (negative : Bool) (magnitude : Float) : String :=
  (if negative then "-" else "") ++
    if magnitude == 0 then "0.0" else layOut (Decimal.Digits.ofFloat magnitude)

def powerOfTen (exponent : Nat) : Float :=
  Float.ofScientific 1 false exponent

-- Below 1e-308 one division is not enough; each further one takes 308 from the exponent.
def scale (significand : Nat) (exponent : Int) : Option Float :=
  let start := (UInt64.ofNat significand).toFloat
  if 0 ≤ exponent then
    if significand = 0 then some start
    else if 308 < exponent then none
    else
      let scaled := start * powerOfTen exponent.toNat
      if scaled.isInf then none else some scaled
  else
    let count := (-exponent).toNat
    let steps := (count - 1) / 308
    -- Four steps take the largest significand to zero.
    let reduced := (List.range (min steps 4)).foldl (fun value _ => value / powerOfTen 308) start
    some (reduced / powerOfTen (count - 308 * steps))

def takeDigits (input : Bytes) : List Nat × Bytes :=
  ((input.takeWhile isDigit).map digitValue, input.dropWhile isDigit)

def significand : (start : Nat) → List Nat → Nat × Nat
  | start, [] => (start, 0)
  | start, digit :: rest =>
    if UInt64.size ≤ start * 10 + digit then (start, rest.length + 1)
    else significand (start * 10 + digit) rest

-- An exponent this large makes any number zero or too large, so none is counted further.
def exponentLimit : Nat := UInt32.size / 2

def readExponent (input : Bytes) : Option Int :=
  match input with
  | mark :: rest =>
    if mark = 0x65 ∨ mark = 0x45 then
      let (negative, rest) := match rest with
        | 0x2B :: rest => (false, rest)
        | 0x2D :: rest => (true, rest)
        | _ => (false, rest)
      match (takeDigits rest).1 with
      | [] => none
      | digits =>
        let exponent := digits.foldl (fun n digit => min (n * 10 + digit) exponentLimit) 0
        some (if negative then -(exponent : Int) else (exponent : Int))
    else some 0
  | [] => some 0

def readFloating (negative : Bool) (digits : Nat) (exponent : Int) (input : Bytes) : Option Found :=
  match readExponent input with
  | none => none
  | some shift => (scale digits (exponent + shift)).map fun value => .floating (floatText negative value)

def readUnsigned (negative : Bool) (input : Bytes) : Option Found :=
  let (digits, rest) := takeDigits input
  match digits with
  | [] => none
  | 0 :: _ :: _ => none
  | _ =>
    let (whole, dropped) := significand 0 digits
    match rest with
    | 0x2E :: rest =>
      let (places, rest) := takeDigits rest
      if places.isEmpty then none
      else
        let (value, left) := significand whole places
        readFloating negative value ((dropped : Int) - ((places.length - left : Nat) : Int)) rest
    | mark :: _ =>
      if mark = 0x65 ∨ mark = 0x45 ∨ 0 < dropped then readFloating negative whole dropped rest
      else exact whole
    | [] => if 0 < dropped then readFloating negative whole dropped [] else exact whole
where
  -- A whole number; a negative one that is zero or does not fit 64 bits is taken as floating.
  exact (whole : Nat) : Option Found :=
    if !negative then some (.integer whole)
    else if whole = 0 ∨ UInt64.size / 2 < whole then readFloating negative whole 0 []
    else some (.integer (-(whole : Int)))

end InternPool.Json
