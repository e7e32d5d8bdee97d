/-
Decimal arithmetic at the working precision: results have at most 28 significant digits, a half goes to
the even digit, and leading digits stand between the powers ±999999. Only a result beyond the
greatest power fails; below the least one digits are lost.
-/
import Reckon.Decimal.Extended
import Reckon.Decimal.Significant

namespace Reckon

namespace Decimal.Working

/-- The significant digits of a result. -/
def precision : Nat := 28

/-- The greatest exponent of a leading digit, and without its sign the least one of a number that
keeps all digits. -/
def maxExponent : Int := 999999

/-- The least stored exponent. -/
def minExponent : Int := 1 - maxExponent - precision

/-- An exact result in the working precision. -/
def settle (d : Decimal) : Outcome Decimal :=
  if d.isZero then .ok { d with exponent := max minExponent (min maxExponent d.exponent) }
  else if d.exponent < minExponent ∧ d.adjusted < -maxExponent then
    let k := (minExponent - d.exponent).toNat
    .ok ⟨d.negative, if d.digitCount < k then 0 else roundHalfEven d.coefficient (10 ^ k), minExponent⟩
  else
    let r := Significant.roundTo precision d
    if maxExponent < r.adjusted then .error .decimalOverflow else .ok r

/-- The quotient of two finite numbers, the divisor not zero. -/
def quotient (a b : Decimal) : Outcome Decimal := settle (Significant.quotient precision a b)

/-- The remainder towards zero of two finite numbers, the divisor not zero. A quotient with more
digits than the precision has no remainder. -/
def remainder (a b : Decimal) : Outcome Decimal := do settle (← Decimal.remainderWithin precision a b)

end Decimal.Working

namespace ExtendedDecimal.Working

open Decimal.Working

/-- The number itself, in the working precision. A zero loses its sign. -/
def pos : ExtendedDecimal → Outcome ExtendedDecimal
  | finite d => finite <$> settle (if d.isZero then d.abs else d)
  | a => .ok a

/-- The number with the other sign. -/
def neg (a : ExtendedDecimal) : Outcome ExtendedDecimal := pos a.neg

/-- The number without its sign. -/
def abs (a : ExtendedDecimal) : Outcome ExtendedDecimal := pos (if a.isNegative then a.neg else a)

/-- The sum. -/
def add : ExtendedDecimal → ExtendedDecimal → Outcome ExtendedDecimal
  | finite a, finite b => finite <$> settle (Decimal.Significant.nearSum precision a b)
  | a, b => a.add b

/-- The difference. -/
def sub (a b : ExtendedDecimal) : Outcome ExtendedDecimal := add a b.neg

/-- The product. -/
def mul : ExtendedDecimal → ExtendedDecimal → Outcome ExtendedDecimal
  | finite a, finite b => finite <$> settle (a.product b)
  | a, b => a.mul b

/-- The quotient. A finite number over an infinite one is the least zero. -/
def div : ExtendedDecimal → ExtendedDecimal → Outcome ExtendedDecimal
  | nan, _ | _, nan => .ok .nan
  | infinite _, infinite _ => .error .decimalRange
  | infinite s, b => .ok (.infinite (s != b.isNegative))
  | a, infinite t => .ok (.finite ⟨a.isNegative != t, 0, minExponent⟩)
  | finite a, finite b =>
    if b.isZero then .error (if a.isZero then .decimalRange else .decimalZeroDivision)
    else finite <$> quotient a b

/-- The remainder of the division towards zero, with the sign of the dividend. -/
def mod : ExtendedDecimal → ExtendedDecimal → Outcome ExtendedDecimal
  | nan, _ | _, nan => .ok .nan
  | infinite _, _ => .error .decimalRange
  | finite a, infinite _ => finite <$> settle a
  | finite a, finite b => if b.isZero then .error .decimalRange else finite <$> remainder a b

end ExtendedDecimal.Working

end Reckon
