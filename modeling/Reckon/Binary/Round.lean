/-
Rounding rationals to binary numbers: to the nearest one, a tie to the even significand. A value
past the midpoint above the largest number becomes infinite.
-/
import Reckon.Binary.Basic
import Reckon.Decimal.Basic

namespace Reckon

/-- The quotient `num / den` rounded to the nearest integer, a half to the even one. -/
def roundHalfEven (num den : Nat) : Nat :=
  let q := num / den
  let r := num % den
  if 2 * r < den || (2 * r == den && q % 2 == 0) then q else q + 1

namespace Binary

variable {f : Format}

/-- The quotient `num / den` over the unit 2 ^ `q`, as numerator and denominator. -/
def overQuantum (num den : Nat) (q : Int) : Nat × Nat :=
  if 0 ≤ q then (num, den * 2 ^ q.natAbs) else (num * 2 ^ q.natAbs, den)

/-- The exponent of the last significand bit of a positive quotient. The estimate leaves `precision`
or one more bits before the point; with one more the next exponent is right. -/
def quantumOf (f : Format) (num den : Nat) : Int :=
  let q := max ((num.log2 : Int) - den.log2 - f.precision) f.minQuantum
  let (n, d) := overQuantum num den q
  if n / d < 2 ^ f.precision then q else q + 1

/-- The nearest binary number to ±`num / den`. A carry out of the significand moves on to the next
exponent by itself, because magnitudes are consecutive. -/
def ofQuotient (negative : Bool) (num den : Nat) : Binary f :=
  if num = 0 then .finite (.zero negative)
  else
    let q := quantumOf f num den
    let (n, d) := overQuantum num den q
    let m := (q - f.minQuantum).toNat * f.unit + roundHalfEven n d
    if h : m < f.limit then .finite ⟨negative, m, h⟩ else .infinite negative

/-- The nearest binary number to a rational; a zero has the given sign. -/
def ofRat (q : Rat) (zeroSign : Bool := false) : Binary f :=
  if q.num = 0 then .finite (.zero zeroSign) else ofQuotient (q.num < 0) q.num.natAbs q.den

/-- The nearest binary number to a decimal, which may lie far outside the range of the format. -/
def ofDecimal (d : Decimal) : Binary f :=
  if d.isZero then .finite (.zero d.negative)
  else if d.adjusted < -400 then .finite (.zero d.negative)
  else if 400 < d.adjusted then .infinite d.negative
  else if 0 ≤ d.exponent then ofQuotient d.negative (d.coefficient * 10 ^ d.exponent.natAbs) 1
  else ofQuotient d.negative d.coefficient (10 ^ d.exponent.natAbs)

/-- The nearest number of another format. -/
def convert {g : Format} : Binary f → Binary g
  | .finite x => ofRat x.toRat x.negative
  | .infinite negative => .infinite negative
  | .nan => .nan

end Binary

end Reckon
