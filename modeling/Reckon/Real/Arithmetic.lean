/-
Arithmetic on real numbers. Exact operands are combined as rationals, so a third plus one repeats
and three thirds are one. With an irrational operand the result is an approximation, cut after
`precision` fractional digits; with a repeating one of unknown cycle the stored digits are used.

Infinite operands follow the extended real line, except that a sum of opposite infinities fails, a
quotient of equal ones is NaN, and any product with an infinity is infinite.
-/
import Reckon.Real.Recurring

namespace Reckon.Real

/-- The fractional digits that an approximation keeps. -/
def precision : Int := 137

/-- A result cut to the precision: an approximation as long as a fraction remains. -/
def ofApproximation (d : Decimal) : Outcome Real := do
  let d ← d.truncate precision
  .ok (if d.hasFraction then .irrational d else .big d.strip)

/-- An inexact result. Without an irrational operand it stems from a repeating value of unknown
cycle and keeps that kind. -/
def ofInexact (d : Decimal) (isIrrational : Bool) : Outcome Real :=
  if isIrrational then ofApproximation d else .ok (.recurring d)

/-- An inexact result that may be a special value, which is neither an approximation nor repeating. -/
def ofInexactExtended (d : ExtendedDecimal) (isIrrational : Bool) : Outcome Real :=
  match d with
  | .finite d => ofInexact d isIrrational
  | _ => .error (if isIrrational then .mismatch else .payload (.decimalPayload .recurring))

/-- Combines two finite numbers: by `exact` if both stand for rationals, else by `stored` on their
decimals. -/
def combine (exact : Rat → Rat → Rat) (stored : Decimal → Decimal → Outcome Decimal)
    (a b : Real) : Outcome Real :=
  match a.exactRat?, b.exactRat? with
  | some p, some q => ofRat (exact p q)
  | _, _ => do
    ofInexact (← stored (← a.decimal) (← b.decimal)) (a.isIrrational || b.isIrrational)

/-- The sum. -/
def add (a b : Real) : Outcome Real :=
  match a, b with
  | infinite s, infinite t => if s = t then .ok a else fail .oppositeInfinities
  | infinite _, _ => .ok a
  | _, infinite _ => .ok b
  | _, _ => combine (· + ·) Decimal.add a b

/-- The difference. -/
def sub (a b : Real) : Outcome Real :=
  if a.isInfinite || b.isInfinite then add a b.neg else combine (· - ·) Decimal.sub a b

/-- The product. -/
def mul (a b : Real) : Outcome Real :=
  if a.isInfinite || b.isInfinite then .ok (.infinite (a.isNegative != b.isNegative))
  else combine (· * ·) Decimal.mul a b

/-- The quotient of two finite numbers, the divisor not zero. -/
def quotient (a b : Real) : Outcome Real :=
  match a.exactRat?, b.exactRat? with
  | some p, some q => ofRat (p / q)
  | _, _ => do
    let d ← Decimal.truncateRat ((← a.decimal).toRat / (← b.decimal).toRat) precision
    ofInexact d (a.isIrrational || b.isIrrational)

/-- The quotient. -/
def div (a b : Real) : Outcome Real :=
  if b.isZero then fail .divisionByZero
  else
    let negative := a.isNegative != b.isNegative
    match a, b with
    | infinite s, infinite t => .ok (if s = t then .nan else signedZero negative)
    | infinite _, _ => .ok (.infinite negative)
    | _, infinite _ => .ok (signedZero negative)
    | _, _ => quotient a b

/-- A rational cut to an integer, towards zero. -/
def truncateToInt (q : Rat) : Int := q.num.tdiv q.den

/-- The remainder of the division towards zero; its sign follows the dividend. An approximate quotient
with more digits than a decimal can have leaves no remainder. -/
def mod (a b : Real) : Outcome Real :=
  if b.isZero then fail .divisionByZero
  else
    match a, b with
    | infinite _, _ => .ok .nan
    | _, infinite _ => .ok a
    | _, _ =>
      match a.exactRat?, b.exactRat? with
      | some p, some q => ofRat (p - q * (truncateToInt (p / q) : Int))
      | _, _ => do
        ofInexact (← Decimal.remainderWithin Decimal.maxDigits (← a.decimal) (← b.decimal))
          (a.isIrrational || b.isIrrational)

end Reckon.Real
