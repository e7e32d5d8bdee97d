/-
Decimal arithmetic to a number of significant digits: every result is the exact one rounded to
`prec` digits, a half to the even digit. An exact quotient keeps the exponent nearest to the
difference of the exponents; an inexact result fills the precision.
-/
import Reckon.Decimal.Exact
import Reckon.Binary.Round
import Reckon.Enclosure

namespace Reckon.Decimal.Significant

/-- The coefficient `c` · 10 ^ `e` rounded to `prec` digits; a carry into one more digit moves the
exponent. -/
def roundTo (prec : Nat) (d : Decimal) : Decimal :=
  if d.digitCount ≤ prec then d
  else
    let k := d.digitCount - prec
    let c := roundHalfEven d.coefficient (10 ^ k)
    if c = 10 ^ prec then ⟨d.negative, c / 10, d.exponent + k + 1⟩
    else ⟨d.negative, c, d.exponent + k⟩

/-- A term of a sum next to a `big` one. Far below the last digit that is kept it only decides on
which side of `big` the sum lies, and a unit just below the precision does the same. -/
def nearby (prec : Nat) (big small : Decimal) : Decimal :=
  let e : Int := big.exponent - 1 -
    if prec < big.digitCount then 0 else (prec + 1 - big.digitCount : Nat)
  if big.isZero || e ≤ small.adjusted then small
  else ⟨small.negative, if small.isZero then 0 else 1, e⟩

/-- The sum before it is rounded, the lower term within reach of the precision. -/
def nearSum (prec : Nat) (a b : Decimal) : Decimal :=
  if a.exponent < b.exponent then sum (nearby prec b a) b else sum a (nearby prec a b)

/-- The sum. -/
def add (prec : Nat) (a b : Decimal) : Decimal := roundTo prec (nearSum prec a b)

/-- The difference. -/
def sub (prec : Nat) (a b : Decimal) : Decimal := add prec a b.neg

/-- The product. -/
def mul (prec : Nat) (a b : Decimal) : Decimal := roundTo prec (product a b)

/-- The quotient by a divisor that is not zero, before it is rounded. One digit more than the
precision is computed; a remainder keeps that digit off the middle, and the zeros of an exact
quotient are dropped. -/
def quotient (prec : Nat) (a b : Decimal) : Decimal :=
  let negative := a.negative != b.negative
  let ideal := a.exponent - b.exponent
  if a.isZero then ⟨negative, 0, ideal⟩
  else
    let shift : Int := (b.digitCount : Int) - a.digitCount + prec + 1
    let num := a.coefficient * 10 ^ shift.toNat
    let den := b.coefficient * 10 ^ (-shift).toNat
    let q := num / den
    let e := ideal - shift
    if num % den ≠ 0 then ⟨negative, if q % 5 = 0 then q + 1 else q, e⟩
    else
      let k := Digits.trailingZeros (ideal - e).toNat q
      ⟨negative, q / 10 ^ k, e + k⟩

/-- The quotient by a divisor that is not zero. -/
def div (prec : Nat) (a b : Decimal) : Decimal := roundTo prec (quotient prec a b)

/-- The bits of `n` below its highest one, the highest of them first. -/
def lowerBits (n : Nat) : List Bool :=
  (List.range n.log2).reverse.map fun i => n.testBit i

/-- The power for a positive exponent, by squaring from the highest bit of the exponent. The steps
carry as many extra digits as the exponent has, and two more. -/
def pow (prec : Nat) (a : Decimal) (n : Nat) : Decimal :=
  if n = 0 then one
  else
    let wide := prec + Digits.width n + 2
    let r := (lowerBits n).foldl
      (fun acc bit => let s := mul wide acc acc; if bit then mul wide s a else s) a
    roundTo prec r

/-! ## Roots and logarithms -/

/-- A rational rounded to `prec` significant digits. -/
def ofRat (prec : Nat) (q : Rat) : Decimal :=
  div prec (ofInt q.num) (ofInt q.den)

/-- The square root of a positive decimal. Two more digits than the precision are computed; a one
after an inexact root stands for the digits left out, and an exact root keeps half the exponent. -/
def sqrt (prec : Nat) (d : Decimal) : Decimal :=
  let ideal := d.exponent.fdiv 2
  let (c, e) := if d.exponent % 2 = 0 then (d.coefficient, d.exponent)
    else (d.coefficient * 10, d.exponent - 1)
  let k := prec + 2 - Digits.width c / 2
  let n := c * 100 ^ k
  let s := Nat.sqrt n
  if s * s = n then
    let z := Digits.trailingZeros (ideal - (e / 2 - k)).toNat s
    roundTo prec ⟨false, s / 10 ^ z, e / 2 - k + z⟩
  else roundTo prec ⟨false, s * 10 + 1, e / 2 - k - 1⟩

/-- An enclosed value rounded to `prec` significant digits; the bits tried start from what the
precision needs. -/
def settled (prec : Nat) (enclose : Nat → Enclosure) : Decimal :=
  Enclosure.settle (ofRat prec) enclose (Enclosure.precisions.map (· + 4 * prec))

/-- The power of ten that a decimal is, if it is one. -/
def powerOfTen? (d : Decimal) : Option Int :=
  let n := d.normalize
  if n.coefficient = 1 then some n.exponent else none

/-- The value with the point behind its first digit. -/
def mantissa (d : Decimal) : Rat := mkRat d.coefficient (10 ^ (d.digitCount - 1))

/-- The natural logarithm of a positive decimal. -/
def ln (prec : Nat) (d : Decimal) : Decimal :=
  if d.isOne then zero else settled prec (Enclosure.lnScaled (mantissa d) d.adjusted)

/-- The logarithm to base ten of a positive decimal, exact for powers of ten. -/
def log10 (prec : Nat) (d : Decimal) : Decimal :=
  match powerOfTen? d with
  | some e => roundTo prec (ofInt e)
  | none =>
    settled prec fun bits =>
      let e := Enclosure.log10 (mantissa d) bits
      ⟨e.low + d.adjusted, e.high + d.adjusted⟩

end Reckon.Decimal.Significant
