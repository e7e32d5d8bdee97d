/-
Real and complex numbers together. A complex number is a pair of real ones; it stays complex even
with a zero imaginary part until an operation collapses it. Real operands take part in complex
arithmetic with a zero imaginary part, and a result whose imaginary part is exactly zero is real.
-/
import Reckon.Real.Power

namespace Reckon

/-- A real or complex number. -/
inductive Scalar
  | real (x : Real)
  | complex (re im : Real)
  deriving DecidableEq, Repr

namespace Scalar

instance : Inhabited Scalar := ⟨.real .nan⟩

/-! ## What a number is -/

/-- The kind of a number. -/
def kind : Scalar → Kind
  | real x => x.kind
  | complex .. => .complex

/-- Real and imaginary part. -/
def parts : Scalar → Real × Real
  | real x => (x, .zero)
  | complex re im => (re, im)

/-- A complex number, whatever its parts. -/
def isComplex : Scalar → Bool
  | real _ => false
  | complex .. => true

/-- NaN itself; a complex number with such a part is not it. -/
def isNaN : Scalar → Bool
  | real x => x.isNaN
  | complex .. => false

/-- One of the real infinities. -/
def isInfinite : Scalar → Bool
  | real x => x.isInfinite
  | complex .. => false

/-- A finite real number. -/
def isReal : Scalar → Bool
  | real x => x.isFinite
  | complex .. => false

/-- A zero of either sign in each part. -/
def isZero : Scalar → Bool
  | real x => x.isZero
  | complex re im => re.isZero && im.isZero

/-- A stored minus sign; complex numbers have none. -/
def isNegative : Scalar → Bool
  | real x => x.isNegative
  | complex .. => false

/-- A real approximation. -/
def isIrrational : Scalar → Bool
  | real x => x.isIrrational
  | complex .. => false

/-- A real repeating value. -/
def isRecurring : Scalar → Bool
  | real x => x.isRecurring
  | complex .. => false

/-- A real integer. -/
def isInteger : Scalar → Bool
  | real x => x.isInteger
  | complex .. => false

/-- A real function; a complex number has no decimal for it. -/
def onReal {α : Type} (f : Real → Outcome α) : Scalar → Outcome α
  | real x => f x
  | complex .. => fail (.noDecimal .complex)

/-- A function of real numbers; complex numbers stay. -/
def mapReal (f : Real → Real) : Scalar → Scalar
  | real x => .real (f x)
  | z => z

/-- The complex number of two parts, real if the imaginary one is a zero. -/
def collapse (re im : Real) : Scalar := if im.isZero then .real re else .complex re im

/-! ## Arithmetic -/

/-- The sum, part by part. -/
def addParts (a b : Scalar) : Outcome Scalar := do
  let re ← a.parts.1.add b.parts.1
  .ok (collapse re (← a.parts.2.add b.parts.2))

/-- The difference, part by part. -/
def subParts (a b : Scalar) : Outcome Scalar := do
  let re ← a.parts.1.sub b.parts.1
  .ok (collapse re (← a.parts.2.sub b.parts.2))

/-- The product: (a + bi)(c + di) = (ac − bd) + (ad + bc)i. -/
def mulParts (x y : Scalar) : Outcome Scalar := do
  let (a, b) := x.parts
  let (c, d) := y.parts
  let re ← (← a.mul c).sub (← b.mul d)
  let im ← (← a.mul d).add (← b.mul c)
  .ok (collapse re im)

/-- The square of the modulus. -/
def norm (z : Scalar) : Outcome Real := do
  let (a, b) := z.parts
  (← a.mul a).add (← b.mul b)

/-- The quotient: ((ac + bd) + (bc − ad)i) / (c² + d²). -/
def divParts (x y : Scalar) : Outcome Scalar := do
  let (a, b) := x.parts
  let (c, d) := y.parts
  let n ← y.norm
  if n.isZero then fail .divisionByZero
  else
    let re ← (← a.mul c).add (← b.mul d)
    let im ← (← b.mul c).sub (← a.mul d)
    let re ← re.div n
    .ok (collapse re (← im.div n))

/-- The conjugate; it is complex also for a real number. -/
def conjugate (z : Scalar) : Scalar := .complex z.parts.1 z.parts.2.neg

/-- The modulus. -/
def modulus (z : Scalar) : Outcome Real := do (← z.norm).sqrt

/-! ## Roots -/

/-- Half of a number that is not negative; what truncation left just below zero counts as zero. -/
def half (x : Real) : Outcome Real := do
  let h ← x.div (.ofInt 2)
  .ok (if h.isNegative then .zero else h)

/-- The principal root by half angles: √((r + a)/2) ± √((r − a)/2) i with the sign of the imaginary
part, where r is the modulus. -/
def sqrtParts (z : Scalar) : Outcome Scalar := do
  let (a, b) := z.parts
  let r ← z.modulus
  let re ← (← half (← r.add a)).sqrt
  let im ← (← half (← r.sub a)).sqrt
  .ok (collapse re (if b.isNegative then im.neg else im))

/-! ## Polar form -/

/-- The circle number times a fraction. -/
def piTimes (num den : Int) : Outcome Real := do
  (← Real.pi.mul (.ofInt num)).div (.ofInt den)

/-- The angle of a number. On the axes it is a multiple of the right angle; left of the imaginary
axis the inverse tangent is turned by half a circle towards the sign of the imaginary part. -/
def argument (z : Scalar) : Outcome Real := do
  let (a, b) := z.parts
  if a.isZero then
    if b.isZero then fail .argumentOfZero else piTimes (if b.isNegative then -1 else 1) 2
  else if b.isZero then
    if a.isNegative then piTimes 1 1 else .ok .zero
  else
    let theta ← Real.embed (Binary.arctan (← (← b.div a).project)) "atan"
    if a.isNegative then
      if b.isNegative then theta.sub Real.pi else theta.add Real.pi
    else .ok theta

/-! ## Elementary functions -/

/-- The logarithm: that of the modulus, and the angle. -/
def lnParts (z : Scalar) : Outcome Scalar := do
  if z.isZero then fail .logOfZero
  else
    let re ← (← z.modulus).ln
    .ok (collapse re (← z.argument))

/-- The exponential: e^a (cos b + i sin b). -/
def expParts (z : Scalar) : Outcome Scalar := do
  let (a, b) := z.parts
  let scale ← a.exp
  let re ← scale.mul (← b.cos)
  let im ← scale.mul (← b.sin)
  .ok (collapse re im)

/-- The sine: sin a cosh b + i cos a sinh b. -/
def sinParts (z : Scalar) : Outcome Scalar := do
  let (a, b) := z.parts
  let s ← a.sin
  let re ← s.mul (← b.cosh)
  let c ← a.cos
  let im ← c.mul (← b.sinh)
  .ok (collapse re im)

/-- The cosine: cos a cosh b − i sin a sinh b. -/
def cosParts (z : Scalar) : Outcome Scalar := do
  let (a, b) := z.parts
  let c ← a.cos
  let re ← c.mul (← b.cosh)
  let s ← a.sin
  let im ← s.mul (← b.sinh)
  .ok (collapse re im.neg)

/-- The tangent. -/
def tanParts (z : Scalar) : Outcome Scalar := do
  let s ← z.sinParts
  s.divParts (← z.cosParts)

/-- The logarithm to base ten. -/
def log10Parts (z : Scalar) : Outcome Scalar := do
  let l ← z.lnParts
  l.divParts (.real (← (Real.ofInt 10).ln))

/-- The logarithm to any base. -/
def logParts (z base : Scalar) : Outcome Scalar := do
  let l ← z.lnParts
  l.divParts (← base.lnParts)

/-- The power: the exponential of the exponent times the logarithm of the base; a zero base gives
zero. -/
def powParts (base exponent : Scalar) : Outcome Scalar := do
  if base.isZero then .ok (.real .zero)
  else (← exponent.mulParts (← base.lnParts)).expParts

/-! ## Operations on all numbers -/

/-- Refuses NaN. -/
def refuseNaN (z : Scalar) : Outcome Unit := if z.isNaN then fail .nanOperand else .ok ()

/-- A real operation, or a complex one as soon as one operand is complex. -/
def binary (onReals : Real → Real → Outcome Real) (onComplex : Scalar → Scalar → Outcome Scalar)
    (a b : Scalar) : Outcome Scalar := do
  a.refuseNaN
  b.refuseNaN
  match a, b with
  | real x, real y => (onReals x y).map .real
  | _, _ => onComplex a b

/-- The same for one operand. -/
def unary (onReals : Real → Outcome Real) (onComplex : Scalar → Outcome Scalar) (z : Scalar) :
    Outcome Scalar := do
  z.refuseNaN
  match z with
  | real x => (onReals x).map .real
  | complex .. => onComplex z

/-- The sum. -/
def add : Scalar → Scalar → Outcome Scalar := binary Real.add addParts

/-- The difference. -/
def sub : Scalar → Scalar → Outcome Scalar := binary Real.sub subParts

/-- The product. -/
def mul : Scalar → Scalar → Outcome Scalar := binary Real.mul mulParts

/-- The quotient. -/
def div : Scalar → Scalar → Outcome Scalar := binary Real.div divParts

/-- The remainder; complex numbers have none. -/
def mod : Scalar → Scalar → Outcome Scalar := binary Real.mod fun _ _ => fail .complexModulo

/-- The power. An exponent of zero gives one. -/
def power (base exponent : Scalar) : Outcome Scalar := do
  base.refuseNaN
  exponent.refuseNaN
  if exponent.isZero then .ok (.real .one)
  else
    match base, exponent with
    | real x, real y => (x.power y).map .real
    | _, _ => powParts base exponent

/-- The square root. -/
def sqrt : Scalar → Outcome Scalar := unary Real.sqrt sqrtParts

/-- The sine. -/
def sin : Scalar → Outcome Scalar := unary Real.sin sinParts

/-- The cosine. -/
def cos : Scalar → Outcome Scalar := unary Real.cos cosParts

/-- The tangent. -/
def tan : Scalar → Outcome Scalar := unary Real.tan tanParts

/-- The natural logarithm. -/
def ln : Scalar → Outcome Scalar := unary Real.ln lnParts

/-- The exponential function. -/
def exp : Scalar → Outcome Scalar := unary Real.exp expParts

/-- The logarithm to base ten. -/
def log10 : Scalar → Outcome Scalar := unary Real.log10 log10Parts

/-- The logarithm to any base. -/
def log : Scalar → Scalar → Outcome Scalar := binary Real.log logParts

/-- The number with the other sign. -/
def neg : Scalar → Scalar
  | real x => .real x.neg
  | complex re im => .complex re.neg im.neg

/-- The absolute value, the modulus of a complex number. -/
def abs : Scalar → Outcome Scalar
  | real x => .ok (.real x.abs)
  | z => z.modulus.map .real

/-- The conjugate of a complex number; a real one is its own. -/
def conj : Scalar → Scalar
  | real x => .real x
  | z => z.conjugate

end Scalar

end Reckon
