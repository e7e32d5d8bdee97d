/-
Numbers: unbounded integers, which may remember the native width they came from, and scalars.
Arithmetic on two integers gives an unbounded integer; with a scalar on either side both operands
are scalars.
-/
import Reckon.Scalar

namespace Reckon

/-- An integer, with the native width it was built from if there is one. -/
structure Integer where
  value : Int
  width : Option Width := none
  deriving DecidableEq, Repr, Inhabited

/-- A number of the library. -/
inductive Number
  | integer (n : Integer)
  | scalar (z : Scalar)
  deriving DecidableEq, Repr

namespace Integer

/-- An integer of a native width, which has to contain it. -/
def ofWidth (n : Int) (w : Width) : Outcome Integer :=
  if w.contains n then .ok ⟨n, some w⟩ else .error (.naming n (.outsideWidth n w))

/-- The native width of a name, where there has to be one. -/
def widthNamed (name : String) : Outcome Width :=
  match Width.ofName? name with
  | some w => .ok w
  | none => .error (.unknownWidth name)

/-- A value narrowed to a native width: a negative one does not fit an unsigned width, and no other
one outside the range fits either. -/
def narrow (n : Int) (w : Width) : Outcome Int :=
  if n < 0 && !w.signed then .error (.naming n (.negativeForUnsigned n w))
  else if w.contains n then .ok n
  else .error (.naming n (.outsideWidth n w))

/-! ## Arithmetic -/

/-- The quotient rounded to the nearest integer, a half away from zero. -/
def div (x y : Int) : Outcome Int :=
  if y = 0 then fail .divisionByZero
  else
    let q := x.natAbs / y.natAbs
    let q := if y.natAbs ≤ 2 * (x.natAbs % y.natAbs) then q + 1 else q
    .ok (if (x < 0) != (y < 0) then -q else q)

/-- The remainder of the division towards zero; its sign follows the dividend. -/
def mod (x y : Int) : Outcome Int :=
  if y = 0 then fail .divisionByZero
  else
    let r : Nat := x.natAbs % y.natAbs
    .ok (if x < 0 then -r else r)

/-- The power; the exponent must not be negative, nor the result too long. -/
def power (x y : Int) : Outcome Int :=
  if y < 0 then fail .negativeIntegerExponent
  else if 1 < x.natAbs ∧ Real.maxPowerBits < y.natAbs * Real.bitLength x.natAbs then
    .error (.naming y (.exponentTooLarge y))
  else if x.natAbs ≤ 1 then .ok (if x = 0 then (if y = 0 then 1 else 0) else if y % 2 = 0 then 1 else x)
  else .ok (x ^ y.natAbs)

/-! ## Bits -/

/-- Combines two integers bit by bit, as words of unbounded size. A negative integer is the
complement of a natural number, so `f` acts on the naturals once both signs are folded away:
`negative` says whether the result is a complement again. -/
def bitwise (f : Bool → Bool → Bool) (x y : Int) : Int :=
  let code (n : Int) : Nat := if n < 0 then (-n - 1).toNat else n.toNat
  let sx := decide (x < 0)
  let sy := decide (y < 0)
  let negative := f sx sy
  let n := Nat.bitwise (fun a b => f (a != sx) (b != sy) != negative) (code x) (code y)
  if negative then -(n : Int) - 1 else n

/-- The bitwise conjunction. -/
def and (x y : Int) : Int := bitwise (· && ·) x y

/-- The bitwise disjunction. -/
def or (x y : Int) : Int := bitwise (· || ·) x y

/-- The bitwise exclusive disjunction. -/
def xor (x y : Int) : Int := bitwise (· != ·) x y

/-- All bits flipped. -/
def complement (x : Int) : Int := -x - 1

/-- The greatest distance of a shift. -/
def maxShift : Int := 2 ^ (32 : Nat) - 1

/-- A shift distance in its range. -/
def shiftDistance (n : Int) : Outcome Nat :=
  if n < 0 then fail .negativeShift
  else if maxShift < n then .error (.naming n (.shiftTooFar n))
  else .ok n.toNat

/-- The product with a power of two. -/
def shiftLeft (x n : Int) : Outcome Int := do .ok (x * (2 ^ (← shiftDistance n) : Nat))

/-- The quotient by a power of two, rounded down. A shift past all bits leaves the sign. -/
def shiftRight (x n : Int) : Outcome Int := do
  let k ← shiftDistance n
  if x.natAbs.log2 < k then .ok (if x < 0 then -1 else 0) else .ok (x / (2 ^ k : Nat))

end Integer

namespace Number

/-- An unbounded integer. -/
def ofInt (n : Int) : Number := .integer ⟨n, none⟩

/-- A real number. -/
def ofReal (x : Real) : Number := .scalar (.real x)

/-- The number as a scalar; an integer becomes an exact decimal. -/
def toScalar : Number → Scalar
  | integer n => .real (.ofInt n.value)
  | scalar z => z

/-- NaN. -/
def isNaN : Number → Bool
  | integer _ => false
  | scalar z => z.isNaN

/-- A zero of either sign. -/
def isZero : Number → Bool
  | integer n => n.value == 0
  | scalar z => z.isZero

/-- A negative integer, or a scalar with a minus sign. -/
def isNegative : Number → Bool
  | integer n => n.value < 0
  | scalar z => z.isNegative

/-- An integer, or a scalar that is one. -/
def isInteger : Number → Bool
  | integer _ => true
  | scalar z => z.isInteger

/-! ## Arithmetic -/

/-- An operation on integers, or on scalars as soon as one operand is one. -/
def binary (onIntegers : Int → Int → Outcome Int) (onScalars : Scalar → Scalar → Outcome Scalar)
    (a b : Number) : Outcome Number :=
  match a, b with
  | integer x, integer y => (onIntegers x.value y.value).map ofInt
  | _, _ => (onScalars a.toScalar b.toScalar).map .scalar

/-- A function of scalars. -/
def unary (f : Scalar → Outcome Scalar) (a : Number) : Outcome Number := (f a.toScalar).map .scalar

/-- The sum. -/
def add : Number → Number → Outcome Number := binary (fun x y => .ok (x + y)) Scalar.add

/-- The difference. -/
def sub : Number → Number → Outcome Number := binary (fun x y => .ok (x - y)) Scalar.sub

/-- The product. -/
def mul : Number → Number → Outcome Number := binary (fun x y => .ok (x * y)) Scalar.mul

/-- The quotient; that of two integers is rounded. -/
def div : Number → Number → Outcome Number := binary Integer.div Scalar.div

/-- The remainder. -/
def mod : Number → Number → Outcome Number := binary Integer.mod Scalar.mod

/-- The power. -/
def power : Number → Number → Outcome Number := binary Integer.power Scalar.power

/-- The number with the other sign. -/
def neg : Number → Number
  | integer n => .ofInt (-n.value)
  | scalar z => .scalar z.neg

/-- The absolute value. -/
def abs : Number → Outcome Number
  | integer n => .ok (.ofInt n.value.natAbs)
  | scalar z => z.abs.map .scalar

/-- The conjugate. -/
def conj : Number → Number
  | integer n => .integer n
  | scalar z => .scalar z.conj

/-! ## Elementary functions -/

/-- The square root of a natural number, exact if it is one. -/
def sqrtNat (n : Nat) : Outcome Real :=
  let r := Nat.sqrt n
  if r * r = n then .ok (.ofInt r) else Real.sqrt (.ofInt n)

/-- The square root. A negative integer has an imaginary one. -/
def sqrt : Number → Outcome Number
  | integer n => do
    let r ← sqrtNat n.value.natAbs
    .ok (.scalar (if n.value < 0 then .complex .zero r else .real r))
  | scalar z => z.sqrt.map .scalar

/-- The sine. -/
def sin : Number → Outcome Number := unary Scalar.sin

/-- The cosine. -/
def cos : Number → Outcome Number := unary Scalar.cos

/-- The tangent. -/
def tan : Number → Outcome Number := unary Scalar.tan

/-- The natural logarithm. -/
def ln : Number → Outcome Number := unary Scalar.ln

/-- The exponential function. -/
def exp : Number → Outcome Number := unary Scalar.exp

/-- The logarithm to base ten. -/
def log10 : Number → Outcome Number := unary Scalar.log10

/-- The logarithm to any base. -/
def log (x base : Number) : Outcome Number :=
  (Scalar.log x.toScalar base.toScalar).map .scalar

/-! ## Bits -/

/-- An operation on the bits of two integers. -/
def bits (f : Int → Int → Outcome Int) (a b : Number) : Outcome Number :=
  match a, b with
  | integer x, integer y => (f x.value y.value).map ofInt
  | _, _ => fail .bitsNeedIntegers

/-- The bitwise conjunction. -/
def bitAnd : Number → Number → Outcome Number := bits fun x y => .ok (Integer.and x y)

/-- The bitwise disjunction. -/
def bitOr : Number → Number → Outcome Number := bits fun x y => .ok (Integer.or x y)

/-- The bitwise exclusive disjunction. -/
def bitXor : Number → Number → Outcome Number := bits fun x y => .ok (Integer.xor x y)

/-- The complement of the bitwise exclusive disjunction. -/
def bitXnor : Number → Number → Outcome Number :=
  bits fun x y => .ok (Integer.complement (Integer.xor x y))

/-- The left shift. -/
def shiftLeft : Number → Number → Outcome Number := bits Integer.shiftLeft

/-- The right shift. -/
def shiftRight : Number → Number → Outcome Number := bits Integer.shiftRight

end Number

end Reckon
