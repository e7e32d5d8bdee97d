/-
Rounding numbers to decimal places. Exact numbers are rounded as rationals, approximations by their
stored digits; the parts of a complex number are rounded one by one, and special values stay.
-/
import Reckon.Number.Basic

namespace Reckon

namespace Real

/-- Rounds a finite number by `exact` if it stands for a rational, else by `stored`. -/
def roundWith (exact : Rat → Outcome Decimal) (stored : Decimal → Outcome Decimal) (x : Real) :
    Outcome Real :=
  match x.decimal? with
  | none => .ok x
  | some d => do
    let r ← match x.exactRat? with
      | some q => exact q
      | none => stored d
    .ok (.big r.strip)

/-- The number rounded to `places` fractional digits, a half away from zero. -/
def roundTo (places : Int) : Real → Outcome Real :=
  roundWith (Decimal.roundRat · places) (Decimal.round · places)

/-- The number cut towards zero after `places` fractional digits. -/
def truncateTo (places : Int) : Real → Outcome Real :=
  roundWith (Decimal.truncateRat · places) (Decimal.truncate · places)

end Real

namespace Scalar

/-- Applies a rounding to each part. -/
def roundWith (f : Real → Outcome Real) : Scalar → Outcome Scalar
  | real x => (f x).map .real
  | complex re im => do
    let re ← f re
    .ok (collapse re (← f im))

/-- An integer near a real number; infinities stay, NaN and complex numbers have none. -/
def nearInteger (f : Rat → Int) (refuse : Kind → NumericError) : Scalar → Outcome Scalar
  | real .nan => fail (refuse .nan)
  | real (.infinite negative) => .ok (.real (.infinite negative))
  | real x => do .ok (.real (.ofInt (f (← x.toRat))))
  | complex .. => fail (refuse .complex)

end Scalar

namespace Number

/-- An integer changes only for a negative number of places. -/
def roundInteger (f : Rat → Int → Outcome Decimal) (n : Integer) (places : Int) : Outcome Number :=
  if 0 ≤ places then .ok (.integer n)
  else do .ok (.ofInt (← f (n.value : Rat) places).toInt)

/-- The number rounded to `places` fractional digits, a half away from zero. -/
def roundTo (x : Number) (places : Int) : Outcome Number :=
  match x with
  | integer n => roundInteger Decimal.roundRat n places
  | scalar z => (z.roundWith (Real.roundTo places)).map .scalar

/-- The number cut towards zero after `places` fractional digits. -/
def truncate (x : Number) (places : Int) : Outcome Number :=
  match x with
  | integer n => roundInteger Decimal.truncateRat n places
  | scalar z => (z.roundWith (Real.truncateTo places)).map .scalar

/-- The greatest integer that is not above the number. -/
def floor : Number → Outcome Number
  | integer n => .ok (.integer n)
  | scalar z => (z.nearInteger Rat.floor .floorOf).map .scalar

/-- The least integer that is not below the number. -/
def ceil : Number → Outcome Number
  | integer n => .ok (.integer n)
  | scalar z => (z.nearInteger Rat.ceil .ceilingOf).map .scalar

end Number

end Reckon
