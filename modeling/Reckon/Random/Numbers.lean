/-
Random numbers. Decimals are scaled from a unit draw and cut; integers are drawn as bytes and
rejected until they lie in the range; a real number is mostly an exact decimal, sometimes a
repeating value nearby or an approximation.
-/
import Reckon.Random.Source
import Reckon.Operand.Construction
import Reckon.Notation.Writer

namespace Reckon.Random

open Sampler

/-! ## Draws -/

/-- A draw that is a double. -/
def realDraw : Draw → Option Double
  | .real x => some x
  | _ => none

/-- A draw that is a whole number. -/
def wholeDraw : Draw → Option Int
  | .whole n => some n
  | _ => none

/-- A unit draw as its shortest decimal; what is no finite number stays what it is. -/
def unit : Sampler ExtendedDecimal := do
  let x ← askFor .unit realDraw
  ofOutcome (Operand.toShortest (.float x))

/-- An exact number of a drawn decimal, which has to be finite. -/
def exact (d : ExtendedDecimal) : Outcome Real := Scalar.realOfKind .big (some (.decimal d))

/-- An approximation of a drawn decimal, which has to be finite. -/
def approximation (d : ExtendedDecimal) : Outcome Real :=
  Scalar.realOfKind .irrational (some (.decimal d))

/-! ## Precision -/

/-- The mean and the standard deviation of the number of digits. -/
def precisionMean : Double := .ofRat 12
def precisionDeviation : Double := .ofRat 6

/-- The greatest number of digits. -/
def maxPrecision : Nat := 42

/-- The number of digits that a draw stands for: the nearest whole number, a half to the even one.
Draws outside the range count for nothing. -/
def precisionOf : Double → Option Nat
  | .finite x =>
    let q := x.toRat
    if 0 ≤ q && q ≤ maxPrecision then some (roundHalfEven q.num.natAbs q.den) else none
  | _ => none

/-- A number of digits. -/
def precision : Sampler Nat :=
  askUntil (.normal precisionMean precisionDeviation) fun d => (realDraw d).map precisionOf

/-! ## Decimals -/

/-- The decimal of a bound, which has to be a finite real number. -/
def bound (x : Operand) : Outcome Decimal := do
  let z ← x.toScalar
  match z with
  | .real r =>
    match r.decimal? with
    | some d => .ok d
    | none => .error (.unboundedRange (← Notation.render (.scalar z)))
  | .complex .. => .error (.unboundedRange (← Notation.render (.scalar z)))

/-- The point at a fraction of the way from `low` to `high`. -/
def scale (low high : Decimal) (fraction : ExtendedDecimal) : Outcome ExtendedDecimal := do
  (ExtendedDecimal.finite low).add (← (ExtendedDecimal.finite (← high.sub low)).mul fraction)

/-- A decimal from zero up to one, with a random number of digits. -/
def fraction : Sampler Real := do
  let d ← unit
  let p ← precision
  ofOutcome (do exact (← d.truncate p))

/-- A decimal between two bounds, cut to a number of fractional digits. -/
def decimal (low high : Operand) (places : Int) : Sampler Real := do
  let a ← ofOutcome (bound low)
  let b ← ofOutcome (bound high)
  let d ← ofOutcome (scale a b (← unit))
  ofOutcome (do exact (← d.truncate places))

/-- The fractional digits of a decimal of standard length, twice the bytes of a machine word. -/
def standardPlaces : Int := 16

/-- A decimal of standard length between two bounds. -/
def standard (low high : Operand) : Sampler Real := decimal low high standardPlaces

/-- A complex number with both parts between two bounds. -/
def complex (low high : Operand) : Sampler Scalar := do
  let re ← standard low high
  .complex re <$> standard low high

/-! ## Integers -/

/-- The number that bytes spell, the lowest first. -/
def ofBytes (bs : List Nat) : Nat := bs.foldr (fun b n => n * 256 + b) 0

/-- The offset that a draw of bytes gives in a range of `span` numbers, unless it is rejected. -/
def offset (span : Nat) (bs : List Nat) : Option Nat :=
  let r := ofBytes bs % 2 ^ Real.bitLength span
  if r < span then some r else none

/-- Says that a range is empty, if its bounds are short enough to be shown. -/
def noRange (low high : Int) : Failure :=
  if Failure.digitLimit < Digits.width (max low.natAbs high.natAbs) then .textValue
  else .emptyRange low high

/-- An integer between two bounds, both included. -/
def integer (low high : Operand) : Sampler Integer := do
  let a ← ofOutcome low.toWhole
  let b ← ofOutcome high.toWhole
  if b < a then throw (.failed (noRange a b))
  else
    let span := (b - a + 1).toNat
    let request := Request.bytes ((Real.bitLength span + 7) / 8)
    let r ← askUntil request fun
      | .bytes bs => some (offset span bs)
      | _ => none
    pure ⟨a + r, none⟩

/-! ## Real numbers -/

/-- The denominators of random repeating values. -/
def denominators : List Nat := [3, 6, 7, 9, 11, 12, 13]

/-- The fraction over `den` below `q`, or above it if the one below is less than `low`. -/
def nearbyFraction (q low : Rat) (den : Nat) : Rat :=
  let below := mkRat (q * den).floor den
  if below < low then mkRat (q * den).ceil den else below

/-- A fraction with a drawn denominator near a decimal, if it lies between the bounds, else the
decimal itself. -/
def nearby (low high : Decimal) (d : ExtendedDecimal) : Sampler Real := do
  let i ← askFor (.choice denominators.length) fun
    | .whole n => denominators[n.toNat]?
    | _ => none
  let q := nearbyFraction (← ofOutcome (Operand.toRatio (.decimal d))) low.toRat i
  ofOutcome (if low.toRat ≤ q ∧ q ≤ high.toRat then Real.ofRat q else exact d)

/-- A real number between two bounds: of a hundred draws eighty give a decimal, ten a repeating
value nearby and ten an approximation. -/
def real (low high : Operand) : Sampler Real := do
  let a ← ofOutcome (bound low)
  let b ← ofOutcome (bound high)
  let d ← ofOutcome (scale a b (← unit))
  let n ← askFor (.below 0 100) wholeDraw
  if n < 80 then ofOutcome (exact d)
  else if n < 90 then nearby a b d
  else ofOutcome (approximation d)

end Reckon.Random
