/-
Powers of real numbers. Integer exponents are exact as long as the result stays small enough;
rational exponents with a small denominator go through roots, directly or after an approximation of
the exponent by a convergent; everything else is a 64-bit power.
-/
import Reckon.Real.Functions
import Reckon.Real.Roots

namespace Reckon.Real

/-- The bits that an exact power may need. -/
def maxPowerBits : Nat := 2 ^ (24 : Nat)

/-- The bits of a number without its sign; zero has none. -/
def bitLength (n : Nat) : Nat := if n = 0 then 0 else n.log2 + 1

/-- The power in 64-bit arithmetic. -/
def nativePower (base exponent : Real) : Outcome Real := do
  match Binary.pow (← base.project) (← exponent.project) with
  | .nan => fail .powerNotReal
  | .infinite negative => .ok (.infinite negative)
  | .finite y => ofApproximation y.toDecimal

/-- The power of an approximation: of the stored digits, cut before and after. -/
def approximatePower (d : Decimal) (n : Int) : Outcome Real := do
  let powered ← d.pow n.natAbs
  if 0 ≤ n then ofApproximation powered
  else if powered.isZero then .error .zeroDivision
  else ofApproximation (← Decimal.truncateRat (1 / powered.toRat) precision)

/-- The power to an integer. -/
def integerPower (base : Real) (n : Int) : Outcome Real := do
  match base.exactRat? with
  | some q =>
    if n.natAbs * max (bitLength q.num.natAbs) (bitLength q.den) ≤ maxPowerBits then
      ofRat (if n < 0 then (1 / q) ^ n.natAbs else q ^ n.natAbs)
    else nativePower base (ofInt n)
  | none =>
    let d ← (← base.decimal).truncate precision
    if n.natAbs * d.digitCount * 4 ≤ maxPowerBits then approximatePower d n
    else nativePower base (ofInt n)

/-- The power to a quotient. It is exact only for a base that is. -/
def rationalPower (base : Real) (p q : Int) : Outcome Real := do
  let (value, exact) ← Roots.powRational (← base.toRat) p q
  if exact && !base.isIrrational then ofRat value
  else ofApproximation (← Decimal.truncateRat value precision)

/-- The first result that is not a numeric failure, of `attempt` and then of `otherwise`. -/
def orElseNumeric (attempt : Outcome Real) (otherwise : Unit → Outcome Real) : Outcome Real :=
  match attempt with
  | .error (.numeric _) => otherwise ()
  | outcome => outcome

/-- The power by a convergent of the exponent, if there is one with a small numerator. -/
def convergentPower (base exponent : Real) : Outcome Real := do
  match ← Roots.rationalApproximation (← exponent.project) with
  | some (p, q) =>
    if p.natAbs ≤ Roots.maxNumerator then
      orElseNumeric (rationalPower base p q) fun _ => nativePower base exponent
    else nativePower base exponent
  | none => nativePower base exponent

/-- The power of a finite base other than zero to a finite exponent that is not an integer. -/
def fractionalPower (base exponent : Real) : Outcome Real :=
  match exponent.exactRat? with
  | some q =>
    if q.den ≤ Roots.maxDenominator ∧ q.num.natAbs ≤ Roots.maxNumerator then
      orElseNumeric (rationalPower base q.num q.den) fun _ => convergentPower base exponent
    else convergentPower base exponent
  | none => convergentPower base exponent

/-- The power. An exponent of zero gives one, whatever the base; an infinite base gives an infinity
with the sign of the operands; a zero base gives zero or fails. -/
def power (base exponent : Real) : Outcome Real := do
  if exponent.isZero then .ok one
  else if base.isInfinite then .ok (.infinite (base.isNegative != exponent.isNegative))
  else if exponent.isInfinite then nativePower base exponent
  else if base.isZero then
    if exponent.isNegative then fail .zeroToNegativePower else .ok zero
  else if exponent.isInteger then integerPower base (← exponent.toRat).floor
  else fractionalPower base exponent

end Reckon.Real
