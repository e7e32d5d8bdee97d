/-
Decimals as they are stored: a sign, a coefficient and a power of ten. Two decimals of one value
may differ in trailing zeros, and a zero keeps its sign and exponent. `toRat` is the value; the
digit views below spell it.
-/
import Reckon.Failure

namespace Reckon

/-- The decimal ±`coefficient` · 10 ^ `exponent`. -/
structure Decimal where
  negative : Bool
  coefficient : Nat
  exponent : Int
  deriving DecidableEq, Repr, Inhabited

namespace Decimal

/-- Zero without a sign. -/
def zero : Decimal := ⟨false, 0, 0⟩

/-- One. -/
def one : Decimal := ⟨false, 1, 0⟩

/-- An integer. -/
def ofInt (n : Int) : Decimal := ⟨n < 0, n.natAbs, 0⟩

/-- Zero with a sign. -/
def signedZero (negative : Bool) : Decimal := ⟨negative, 0, 0⟩

/-- The coefficient with its sign. -/
def signedCoefficient (d : Decimal) : Int := if d.negative then -d.coefficient else d.coefficient

/-- The coefficient is zero, whatever the sign and exponent. -/
def isZero (d : Decimal) : Bool := d.coefficient == 0

/-- The value. A zero is one at every exponent, and no power of ten is formed for it. -/
def toRat (d : Decimal) : Rat :=
  if d.isZero then 0
  else if d.exponent < 0 then mkRat d.signedCoefficient (10 ^ d.exponent.natAbs)
  else ((d.signedCoefficient * (10 ^ d.exponent.natAbs : Nat) : Int) : Rat)

/-- The same digits with the other sign, zero included. -/
def neg (d : Decimal) : Decimal := { d with negative := !d.negative }

/-- The same digits without a sign. -/
def abs (d : Decimal) : Decimal := { d with negative := false }

/-- How many digits the coefficient has. -/
def digitCount (d : Decimal) : Nat := Digits.width d.coefficient

/-- The digits of the coefficient. -/
def digits (d : Decimal) : List Char := Digits.ofNat d.coefficient

/-- The exponent of the leading digit. -/
def adjusted (d : Decimal) : Int := d.exponent + (d.digitCount - 1 : Nat)

/-! ## The range of exponents -/

/-- The greatest exponent of a leading digit. -/
def maxExponent : Int := 999999999999999999

/-- The least stored exponent. -/
def minExponent : Int := -1999999999999999997

/-- The exponent lies in the range of decimals. -/
def inRange (d : Decimal) : Bool := minExponent ≤ d.exponent && d.adjusted ≤ maxExponent

/-- A decimal made of its three parts. An exponent that is not even a machine word fails another
way than one that is only out of range. -/
def make (negative : Bool) (coefficient : Nat) (exponent : Int) : Outcome Decimal :=
  let d : Decimal := ⟨negative, coefficient, exponent⟩
  if d.inRange then .ok d
  else if Width.i64.contains exponent then .error .decimalRange
  else .error .nativeOverflow

/-- The decimal `n` · 10 ^ `exponent`. -/
def ofScaled (n exponent : Int) : Outcome Decimal := make (n < 0) n.natAbs exponent

/-! ## Digit views -/

/-- The coefficient without its `k` lowest digits. The guard keeps a far shift cheap: ten to the
power `k` exceeds two to the power `k`. -/
def shiftDown (c k : Nat) : Nat := if c.log2 < k then 0 else c / 10 ^ k

/-- The decimal without trailing zeros in its fraction; zero becomes plain zero with its sign. -/
def strip (d : Decimal) : Decimal :=
  if d.isZero then signedZero d.negative
  else if 0 ≤ d.exponent then d
  else
    let k := Digits.trailingZeros d.exponent.natAbs d.coefficient
    if k = 0 then d else ⟨d.negative, d.coefficient / 10 ^ k, d.exponent + k⟩

/-- The value is not an integer. -/
def hasFraction (d : Decimal) : Bool := d.strip.exponent < 0

/-- The digits after the point as stored, trailing zeros included. -/
def fractionDigits (d : Decimal) : List Char :=
  if 0 ≤ d.exponent then [] else Digits.paddedOnto d.exponent.natAbs d.coefficient []

/-- The integer part without its sign. -/
def wholePart (d : Decimal) : Nat :=
  if d.isZero then 0
  else if 0 ≤ d.exponent then d.coefficient * 10 ^ d.exponent.natAbs
  else shiftDown d.coefficient d.exponent.natAbs

/-- The digits before the point, without leading zeros; zero is `0`. -/
def integerDigits (d : Decimal) : List Char := Digits.ofNat d.wholePart

/-- The integer part, towards zero. -/
def toInt (d : Decimal) : Int := if d.negative then -d.wholePart else d.wholePart

/-- The decimal without any trailing zero, also before the point. -/
def normalize (d : Decimal) : Decimal :=
  if d.isZero then signedZero d.negative
  else
    let k := Digits.trailingZeros d.digitCount d.coefficient
    ⟨d.negative, d.coefficient / 10 ^ k, d.exponent + k⟩

/-- The value is one. -/
def isOne (d : Decimal) : Bool := d.normalize == one

end Decimal

end Reckon
