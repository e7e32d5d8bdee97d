/-
Equality, order and hashes. Numbers are equal if they denote the same point, across all kinds: a
repeating value is its rational, and a complex number with a zero imaginary part is its real part.
NaN equals nothing. The order covers everything that is neither NaN nor complex.
-/
import Reckon.Number.Basic

namespace Reckon

namespace Real

/-- The same point of the extended line; never so for NaN in the first place. -/
def equals (a b : Real) : Outcome Bool :=
  if a.isNaN || b.isNaN then .ok false
  else
    match a, b with
    | infinite s, infinite t => .ok (s == t)
    | infinite _, _ | _, infinite _ => .ok false
    | _, _ => do
      let p ← a.toRat
      .ok (p == (← b.toRat))

/-- Where a number lies on the extended line: below, within or above the finite numbers. -/
def region : Real → Int
  | infinite negative => if negative then -1 else 1
  | _ => 0

/-- The order of two numbers that are not NaN. -/
def compare (a b : Real) : Outcome Ordering :=
  if a.isInfinite || b.isInfinite then .ok (Ord.compare a.region b.region)
  else do
    let p ← a.toRat
    let q ← b.toRat
    .ok (if p < q then .lt else if q < p then .gt else .eq)

end Real

namespace Number

/-- The numbers denote the same point. -/
def equals (a b : Number) : Outcome Bool :=
  match a, b with
  | integer x, integer y => .ok (x.value == y.value)
  | _, _ =>
    let p := a.toScalar
    let q := b.toScalar
    if p.isNaN || q.isNaN then .ok false
    else do
      if ← p.parts.1.equals q.parts.1 then p.parts.2.equals q.parts.2 else .ok false

/-- The order of two numbers. -/
def compare (a b : Number) : Outcome Ordering :=
  match a, b with
  | integer x, integer y => .ok (Ord.compare x.value y.value)
  | _, _ =>
    match a.toScalar, b.toScalar with
    | .real x, .real y => if x.isNaN || y.isNaN then fail .nanOperand else x.compare y
    | p, q => if p.isNaN || q.isNaN then fail .nanOperand else fail .unordered

/-- The number that stands for an order: -1, 0 or 1. -/
def orderNumber : Ordering → Int
  | .lt => -1
  | .eq => 0
  | .gt => 1

/-! ## Nearness -/

/-- Two real numbers at most `epsilon` apart; equal infinities are, NaN never is. -/
def nearReal (epsilon : Rat) (a b : Real) : Outcome Bool :=
  if a.isNaN || b.isNaN then .ok false
  else
    match a, b with
    | .infinite s, .infinite t => .ok (s == t)
    | .infinite _, _ | _, .infinite _ => .ok false
    | _, _ => do
      let d := (← a.toRat) - (← b.toRat)
      .ok ((if d < 0 then -d else d) ≤ epsilon)

/-- The tolerance that a number stands for; zero unless it is finite and real. -/
def tolerance (epsilon : Number) : Outcome Rat :=
  match epsilon.toScalar with
  | .real x => if x.isFinite then x.toRat else .ok 0
  | .complex .. => .ok 0

/-- At most `epsilon` apart, part by part; a complex number is never near a real one. -/
def near (epsilon : Rat) (a b : Scalar) : Outcome Bool :=
  match a, b with
  | .real x, .real y => nearReal epsilon x y
  | .complex a b, .complex c d => do
    if ← nearReal epsilon a c then nearReal epsilon b d else .ok false
  | _, _ => .ok false

/-! ## Hashes -/

/-- The modulus of hashes, a prime. -/
def hashModulus : Nat := 2 ^ (61 : Nat) - 1

/-- The hash of infinity, which is also that of a rational whose denominator the modulus divides. -/
def hashInfinity : Int := 314159

/-- The power of a residue. -/
def powMod (base n m : Nat) : Nat :=
  if h : n = 0 then 1 % m
  else
    let square := powMod (base * base % m) (n / 2) m
    if n % 2 = 1 then square * base % m else square
termination_by n
decreasing_by omega

/-- The hash of a quotient: the numerator, given by its residue, times the inverse of the
denominator, with a sign. The value -1 is reserved. -/
def hashQuotient (negative : Bool) (residue den : Nat) : Int :=
  let p := hashModulus
  let inverse := powMod (den % p) (p - 2) p
  let h : Int := if inverse = 0 then hashInfinity else ((residue * inverse % p : Nat) : Int)
  let h := if negative then -h else h
  if h = -1 then -2 else h

/-- The hash of a rational. -/
def hashRat (q : Rat) : Int := hashQuotient (q.num < 0) (q.num.natAbs % hashModulus) q.den

/-- The hash of a number; that of a complex number is made of those of its parts. -/
inductive HashKey
  | nan
  | one (h : Int)
  | pair (re im : HashKey)
  deriving DecidableEq, Repr

/-- The hash of a real number. -/
def hashReal : Real → HashKey
  | .nan => .nan
  | .infinite negative => .one (if negative then -hashInfinity else hashInfinity)
  | x => .one (hashRat (x.toRat?.getD 0))

/-- The hash of a number. -/
def hashKey (a : Number) : HashKey :=
  match a with
  | integer n => .one (hashRat (n.value : Rat))
  | scalar (.real x) => hashReal x
  | scalar (.complex re im) => if im.isZero then hashReal re else .pair (hashReal re) (hashReal im)

end Number

end Reckon
