namespace InternPool.Decimal

-- The point stands after the first `point` of the digits, and before the first if it is negative.
structure Digits where
  digits : Nat
  point : Int
deriving Repr, DecidableEq

def tenTo (exponent : Nat) : Nat :=
  Nat.pow 10 exponent

-- The numbers that round to `value / scale`, as those within `below` and `above` of it.
structure Interval where
  value : Nat
  scale : Nat
  below : Nat
  above : Nat
  closed : Bool

namespace Interval

-- Below a power of two the next number is half as far away.
def of (mantissa : Nat) (exponent : Int) (narrowBelow : Bool) : Interval :=
  let up := 1 <<< exponent.toNat
  { value := 4 * mantissa * up
    scale := 4 <<< (-exponent).toNat
    below := if narrowBelow then up else 2 * up
    above := 2 * up
    closed := mantissa % 2 = 0 }

def contains (interval : Interval) (factor point : Nat) : Bool :=
  let value := interval.value * factor
  let low := value - interval.below * factor
  let high := value + interval.above * factor
  if interval.closed then low ≤ point && point ≤ high else low < point && point < high

def magnitude (interval : Interval) : Int :=
  let whole := interval.value / interval.scale
  -- A value less than 1 has fewer zeros after the point than bits.
  let zeros := (List.range (Nat.log2 interval.scale + 1)).find? fun count =>
    interval.scale ≤ interval.value * tenTo (count + 1)
  if 0 < whole then (Nat.toDigits 10 whole).length else -(zeros.getD 0 : Int)

def onGrid (interval : Interval) (magnitude : Int) (count : Nat) : Option Digits :=
  let places := (count : Int) - magnitude
  let up := tenTo places.toNat
  let down := tenTo (-places).toNat
  let unit := interval.scale * down
  let value := interval.value * up
  let lower := value / unit
  let holds (digits : Nat) : Bool := interval.contains up (digits * unit)
  let twice := 2 * (value % unit)
  let nearer := if twice < unit ∨ (twice = unit ∧ lower % 2 = 0) then lower else lower + 1
  let further := if nearer = lower then lower + 1 else lower
  -- Rounding up to the next power of ten moves the point.
  let read (digits : Nat) : Digits :=
    ⟨digits, if digits = tenTo count then magnitude + 1 else magnitude⟩
  if holds nearer then some (read nearer)
  else if holds further then some (read further)
  else none

-- Seventeen digits always do for a number of 53 bits.
def shortest (interval : Interval) : Digits :=
  let magnitude := interval.magnitude
  ((List.range 17).findSome? fun count => interval.onGrid magnitude (count + 1)).getD
    ⟨interval.value / interval.scale, magnitude⟩

end Interval

def Digits.ofFloat (number : Float) : Digits :=
  let bits := number.toBits.toNat
  let unit := 1 <<< 52
  let exponent := bits / unit % 2048
  let fraction := bits % unit
  let interval :=
    if exponent = 0 then Interval.of fraction (-1074) false
    else Interval.of (fraction + unit) ((exponent : Int) - 1075) (fraction = 0 && 1 < exponent)
  interval.shortest

end InternPool.Decimal
