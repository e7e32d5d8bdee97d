/-
Exact arithmetic on decimals: sums, products and powers with every digit kept. The only failures
are results whose exponent leaves the range of decimals.
-/
import Reckon.Decimal.Basic

namespace Reckon.Decimal

/-- A result brought into the range of decimals. A zero takes the nearest exponent; a value too
large fails, and so does a value that loses digits below the least exponent. -/
def fit (d : Decimal) : Outcome Decimal :=
  if d.inRange then .ok d
  else if d.isZero then .ok { d with exponent := max minExponent (min maxExponent d.exponent) }
  else if maxExponent < d.adjusted then .error .decimalOverflow
  else
    let k := (minExponent - d.exponent).toNat
    if Digits.trailingZeros k d.coefficient = k then
      .ok ⟨d.negative, shiftDown d.coefficient k, minExponent⟩
    else .error .decimalInexact

/-- The coefficient over a lower exponent. -/
def coefficientAt (d : Decimal) (exponent : Int) : Int :=
  if d.isZero then 0 else d.signedCoefficient * (10 ^ (d.exponent - exponent).toNat : Nat)

/-- The order of the values. Where the leading digits of two numbers of one sign stand at different
places, these places decide, however far apart they are. -/
def order (a b : Decimal) : Ordering :=
  (compare a.signedCoefficient.sign b.signedCoefficient.sign).then
    (if a.isZero || a.adjusted = b.adjusted then
      let e := min a.exponent b.exponent
      compare (a.coefficientAt e) (b.coefficientAt e)
    else if a.negative then compare b.adjusted a.adjusted
    else compare a.adjusted b.adjusted)

/-- The sum before its exponent is checked: the smaller exponent is kept, and a zero sum is
negative only if both terms are. -/
def sum (a b : Decimal) : Decimal :=
  let e := min a.exponent b.exponent
  let n := a.coefficientAt e + b.coefficientAt e
  ⟨if n = 0 then a.negative && b.negative else n < 0, n.natAbs, e⟩

/-- The product before its exponent is checked. -/
def product (a b : Decimal) : Decimal :=
  ⟨a.negative != b.negative, a.coefficient * b.coefficient, a.exponent + b.exponent⟩

/-- The exact sum. -/
def add (a b : Decimal) : Outcome Decimal := fit (sum a b)

/-- The exact difference. -/
def sub (a b : Decimal) : Outcome Decimal := fit (sum a b.neg)

/-- The exact product. -/
def mul (a b : Decimal) : Outcome Decimal := fit (product a b)

/-- The loop of `pow`: `square` is the base raised to the power of two that belongs to the lowest
bit of `n`. -/
def powLoop (acc square : Decimal) (n : Nat) : Outcome Decimal :=
  if h : n = 0 then .ok acc
  else do
    let acc ← if n % 2 = 1 then mul acc square else .ok acc
    if n / 2 = 0 then .ok acc else powLoop acc (← mul square square) (n / 2)
termination_by n
decreasing_by omega

/-- The exact power by repeated squaring. -/
def pow (a : Decimal) (n : Nat) : Outcome Decimal := powLoop one a n

/-- The exact power for an exponent that must not be negative. -/
def powInt (a : Decimal) (n : Int) : Outcome Decimal :=
  if n < 0 then .error .negativeDecimalPower else pow a n.toNat

/-- The remainder of the division towards zero, over the smaller exponent and with the sign of the
dividend. A dividend below the divisor is its own remainder. -/
def remainder (a b : Decimal) : Decimal :=
  let e := min a.exponent b.exponent
  let n := (a.coefficientAt e).natAbs
  ⟨a.negative, if a.isZero || a.adjusted < b.adjusted then n else n % (b.coefficientAt e).natAbs, e⟩

/-- The integer part of the quotient, without its sign. -/
def wholeQuotient (a b : Decimal) : Nat :=
  let e := min a.exponent b.exponent
  (a.coefficientAt e).natAbs / (b.coefficientAt e).natAbs

/-- The most digits that a coefficient can have. -/
def maxDigits : Nat := 999999999999999999

/-- The remainder where a quotient has at most `digits` digits; a longer one has no remainder. If the
leading digits are too far apart, the quotient is not formed. -/
def remainderWithin (digits : Nat) (a b : Decimal) : Outcome Decimal :=
  if a.isZero || a.adjusted < b.adjusted then .ok (remainder a b)
  else if digits < a.adjusted - b.adjusted then .error .decimalRange
  else if digits < Digits.width (wholeQuotient a b) then .error .decimalRange
  else .ok (remainder a b)

end Reckon.Decimal
