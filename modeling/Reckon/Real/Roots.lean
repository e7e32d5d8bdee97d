/-
Rational powers. A root is found by Newton's method in decimal arithmetic; a root that turns out to
be exact is reported as such, and then its power is the radicand again. Exponents are brought to
lowest terms before the root is taken.
-/
import Reckon.Binary.Functions
import Reckon.Binary.Shortest
import Reckon.Decimal.Significant
import Reckon.Decimal.Extended
import Reckon.Expansion.Division

namespace Reckon.Roots

/-! ## Convergents -/

/-- The tolerance within which a convergent is accepted: 10 ^ -15. -/
def convergentTolerance : Double := .ofBits 0x3CD203AF9EE75616

/-- The bounds of an acceptable exponent: a denominator, and a numerator that keeps powers small. -/
def maxDenominator : Int := 200
def maxNumerator : Int := 10000

/-- The terms of a continued fraction that are tried. -/
def maxTerms : Int := 64

/-- The nearest 64-bit number as a rational. -/
def nearest (q : Rat) : Rat :=
  match (Binary.ofRat q : Double) with
  | .finite x => x.toRat
  | _ => q

/-- The distance is at most `tolerance` · max(1, |x|), all in 64-bit arithmetic. -/
def withinTolerance (tolerance : Double) (x distance : Rat) : Bool :=
  match tolerance with
  | .nan => false
  | .infinite negative => !negative
  | .finite t =>
    let size := if x < 0 then -x else x
    match (Binary.ofRat (t.toRat * if size < 1 then 1 else size) : Double) with
    | .finite bound => distance ≤ bound.toRat
    | b => !b.isNegative

/-- The convergents from `h / k` on; `h'` and `k'` are the terms before them, and `fraction` is what
remains of the number. -/
def convergent (tolerance : Double) (maxDen : Int) (x : Rat) :
    (fuel : Nat) → (h' h k' k : Int) → (fraction : Rat) → Outcome (Option (Int × Int))
  | 0, _, _, _, _, _ => .ok none
  | fuel + 1, h', h, k', k, fraction => do
    let miss := nearest (x - nearest (Rat.divInt h k))
    if withinTolerance tolerance x (if miss < 0 then -miss else miss) then .ok (some (h, k))
    else if fraction = 0 then .ok none
    else
      match (Binary.ofRat (1 / fraction) : Double) with
      | .finite inverse =>
        let inverse := inverse.toRat
        let a := inverse.floor
        if maxDen < a * k + k' then .ok none
        else
          convergent tolerance maxDen x fuel h (a * h + h') k (a * k + k')
            (nearest (inverse - (a : Rat)))
      | _ => .error .textValue

/-- The first convergent of a 64-bit number within a tolerance whose denominator is small enough. -/
def rationalApproximation (x : Double) (maxDen : Int := maxDenominator) (terms : Int := maxTerms)
    (tolerance : Double := convergentTolerance) : Outcome (Option (Int × Int)) :=
  match x with
  | .finite b =>
    let q := b.toRat
    let h := q.floor
    convergent tolerance maxDen q terms.toNat 1 h 0 1 (nearest (q - (h : Rat)))
  | _ => .ok none

/-! ## Newton's method -/

/-- The iterations beyond the number of digits that are granted. -/
def extraIterations : Int := 20

/-- The digits that are carried beyond the precision. -/
def guardDigits : Int := 10

/-- The greatest number of digits that decimal arithmetic can carry. -/
def maxPrecision : Int := 999999999999999999

/-- The digits that the iteration carries: those of the precision and a reserve, behind the point of
the root. -/
def workingPrecision (a : Decimal) (n : Nat) (precision : Int) : Outcome Nat :=
  let prec := max (a.adjusted.fdiv n) 0 + precision + guardDigits
  if 1 ≤ prec ∧ prec ≤ maxPrecision then .ok prec.toNat
  else if Width.i64.contains prec then .error .textValue
  else .error .nativeOverflow

/-- The start of the iteration: the 64-bit estimate of the root, or outside the range of 64-bit
numbers a power of ten. Within the range the index has to be a 64-bit number too. -/
def initialGuess (a : Decimal) (n : Nat) : Outcome Decimal :=
  let far : Decimal := ⟨false, 1, a.adjusted.fdiv n⟩
  match (Binary.ofDecimal a : Double) with
  | .finite x =>
    if x.isZero then .ok far
    else
      match (Binary.ofRat (n : Rat) : Double) with
      | .finite m =>
        match Binary.pow (.finite x) (Binary.ofRat (1 / m.toRat)) with
        | .finite guess => .ok (if guess.isZero || guess.negative then far else guess.toDecimal)
        | _ => .ok far
      | _ => .error .nativeOverflow
  | _ => .ok far

/-- A result of decimal arithmetic that is zero or rounded to zero: at most half a unit of the last
place that the least exponent leaves. -/
def vanishes (prec : Nat) (d : Decimal) : Bool :=
  let below := -Decimal.maxExponent - prec
  d.isZero || d.adjusted < below || (d.adjusted == below && 2 * d.coefficient ≤ 10 ^ d.digitCount)

/-- One step towards the `n`-th root of `a`. A power or a quotient beyond the greatest exponent
fails, and so does the quotient by a power that vanishes. -/
def newtonStep (prec n : Nat) (a x : Decimal) : Outcome Decimal :=
  open Decimal.Significant in
  let power := pow prec x (n - 1)
  let quotient := div prec a power
  if Decimal.maxExponent < power.adjusted then .error .decimalOverflow
  else if vanishes prec power then .error .decimalZeroDivision
  else if Decimal.maxExponent < quotient.adjusted then .error .decimalOverflow
  else .ok (div prec (add prec (mul prec (.ofInt (n - 1 : Nat)) x) quotient) (.ofInt n))

/-- Two iterates agree to `precision` places. -/
def agree (prec : Nat) (precision : Int) (x next : Decimal) : Bool :=
  let step := Decimal.Significant.sub prec next x
  step.isZero || step.adjusted < -precision

/-- The iteration, until two iterates agree. -/
def newton (prec n : Nat) (precision : Int) (a : Decimal) : (fuel : Nat) → Decimal → Outcome Decimal
  | 0, x => .ok x
  | fuel + 1, x => do
    let next ← newtonStep prec n a x
    if agree prec precision x next then .ok next else newton prec n precision a fuel next

/-- The last iterate of the iteration for a positive decimal and an index above one. -/
def iterate (a : Decimal) (n : Nat) (precision : Int) (iterations : Option Int) : Outcome Decimal := do
  let prec ← workingPrecision a n precision
  newton prec n precision a (iterations.getD (precision + extraIterations)).toNat (← initialGuess a n)

/-- The root that an iterate stands for, and whether it is exact. The iterate is rounded to a few
digits less; if a power of that is the radicand the root is exact, else the iterate is cut to the
precision. -/
def settle (a : Decimal) (n : Nat) (precision : Int) (x : Decimal) : Outcome (Decimal × Bool) := do
  let candidate := (← x.round (max (precision - guardDigits) 0)).normalize
  if (← candidate.pow n).normalize = a.normalize then .ok (candidate, true)
  else .ok (← x.truncate precision, false)

/-- The root of a positive decimal for an index above one, and whether it is exact. -/
def positiveRoot (a : Decimal) (n : Nat) (precision : Int) (iterations : Option Int) :
    Outcome (Decimal × Bool) := do
  settle a n precision (← iterate a n precision iterations)

/-- The real `n`-th root of a decimal, and whether it is exact. -/
def nthRoot (a : Decimal) (n : Int) (precision : Int := 137) (iterations : Option Int := none) :
    Outcome (Decimal × Bool) := do
  if n < 1 then .error (.naming n (.rootIndex n))
  else if a.isZero then .ok (.zero, true)
  else if a.negative && n % 2 == 0 then .error (.naming n (.evenRoot n))
  else if n = 1 then .ok (a, true)
  else
    let (root, exact) ← positiveRoot a.abs n.toNat precision iterations
    .ok (if a.negative then root.neg else root, exact)

/-- The real `n`-th root of a decimal or special value. The first root of a special value is itself,
and no iteration leads to a higher one. -/
def nthRootExtended (a : ExtendedDecimal) (n : Int) (precision : Int := 137)
    (iterations : Option Int := none) : Outcome (ExtendedDecimal × Bool) := do
  match a with
  | .finite d =>
    let (root, exact) ← nthRoot d n precision iterations
    .ok (.finite root, exact)
  | _ =>
    if n < 1 then .error (.naming n (.rootIndex n))
    else if a.isNegative && n % 2 == 0 then .error (.naming n (.evenRoot n))
    else if n = 1 then .ok (a, true)
    else .error .decimalRange

/-! ## Rational powers -/

/-- A decimal whose root is taken for that of a rational: the root of the rational times `divisor`,
with some more digits. -/
structure Radicand where
  decimal : Decimal
  divisor : Nat
  moreDigits : Nat
  deriving DecidableEq, Repr

/-- The decimal for the `n`-th root of a rational. A terminating one is its own radicand; otherwise
the denominator is brought out of the root first. -/
def radicand (a : Rat) (n : Nat) : Outcome Radicand :=
  match Expansion.terminatingPlaces? a.den with
  | some places => do .ok ⟨← Decimal.ofScaled (a.num * (10 ^ places / a.den : Nat)) (-places), 1, 0⟩
  | none => .ok ⟨.ofInt (a.num * (a.den ^ (n - 1) : Nat)), a.den, Digits.width a.den⟩

/-- The root of a rational. -/
def rootOfRat (a : Rat) (n : Nat) (precision : Int) : Outcome (Rat × Bool) := do
  let r ← radicand a n
  let (root, exact) ← nthRoot r.decimal n (precision + r.moreDigits)
  .ok (root.toRat / (r.divisor : Rat), exact)

/-- The power of a rational to `p / q`, and whether it is exact. An inexact root is cut to the
precision before a negative exponent inverts it. -/
def powRational (base : Rat) (p q : Int) (precision : Int := 137) : Outcome (Rat × Bool) := do
  if q = 0 then fail .zeroExponentDenominator
  else
    let exponent := Rat.divInt p q
    if exponent < 0 ∧ base = 0 then fail .zeroToNegativePower
    else
      let powered := base ^ exponent.num.natAbs
      let (value, exact) ←
        if exponent.den = 1 then pure (powered, true) else rootOfRat powered exponent.den precision
      if exponent < 0 then
        if value = 0 then fail .vanishedRoot else .ok (1 / value, exact)
      else .ok (value, exact)

end Reckon.Roots
