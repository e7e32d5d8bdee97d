/-
Arithmetic that also takes the infinities and NaN. NaN absorbs everything, an infinity absorbs finite
numbers, and what has no value at all, like the sum of opposite infinities, fails.
-/
import Reckon.Decimal.Places
import Reckon.Decimal.Reader

namespace Reckon.ExtendedDecimal

/-- A minus sign is stored; NaN has none. -/
def isNegative : ExtendedDecimal → Bool
  | finite d => d.negative
  | infinite negative => negative
  | nan => false

/-- A finite zero. -/
def isZero : ExtendedDecimal → Bool
  | finite d => d.isZero
  | _ => false

/-- The same number with the other sign. -/
def neg : ExtendedDecimal → ExtendedDecimal
  | finite d => .finite d.neg
  | infinite negative => .infinite !negative
  | nan => .nan

/-- The exact sum. -/
def add : ExtendedDecimal → ExtendedDecimal → Outcome ExtendedDecimal
  | nan, _ | _, nan => .ok .nan
  | finite a, finite b => finite <$> a.add b
  | infinite s, infinite t => if s = t then .ok (.infinite s) else .error .decimalRange
  | infinite s, finite _ | finite _, infinite s => .ok (.infinite s)

/-- The exact difference. -/
def sub (a b : ExtendedDecimal) : Outcome ExtendedDecimal := a.add b.neg

/-- The exact product. -/
def mul : ExtendedDecimal → ExtendedDecimal → Outcome ExtendedDecimal
  | nan, _ | _, nan => .ok .nan
  | finite a, finite b => finite <$> a.mul b
  | a, b =>
    if a.isZero || b.isZero then .error .decimalRange
    else .ok (.infinite (a.isNegative != b.isNegative))

/-- The exact power for an exponent that must not be negative. -/
def pow (a : ExtendedDecimal) (n : Int) : Outcome ExtendedDecimal :=
  match a with
  | finite d => finite <$> d.powInt n
  | _ =>
    if n < 0 then .error .negativeDecimalPower
    else if n = 0 then .ok (.finite .one)
    else if a.isNegative && n % 2 == 0 then .ok a.neg
    else .ok a

/-- A number cut towards zero after `places` fractional digits; the special values have none. -/
def truncate (a : ExtendedDecimal) (places : Int) : Outcome ExtendedDecimal :=
  match a with
  | finite d => finite <$> d.truncate places
  | _ => .ok a

end Reckon.ExtendedDecimal
