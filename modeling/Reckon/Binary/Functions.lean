/-
Elementary functions on binary numbers, each rounded correctly: the value is enclosed ever more
narrowly until both ends of the enclosure round to the same number. Special values follow the
rules of the interchange standard.
-/
import Reckon.Binary.Arithmetic
import Reckon.Enclosure

namespace Reckon.Binary

/-- Rounds an enclosed value to a 64-bit number. -/
def settled (enclose : Nat → Enclosure) : Double :=
  Enclosure.settle (fun q => (ofRat q : Double)) enclose Enclosure.precisions

/-! ## Roots -/

/-- The square root of a finite positive number. The integer root has more bits than the result; a
half stands for the digits that it leaves out. -/
def sqrtPositive (x : FiniteBinary .double) : Double :=
  let k := (x.quantum - 200) / 2 * 2
  let n := x.significand * 2 ^ (x.quantum - k).toNat
  let s := Nat.sqrt n
  let twice := if s * s = n then 2 * s else 2 * s + 1
  ofRat (Enclosure.scaledRat twice (k / 2 - 1))

/-- The square root; a negative number has none. -/
def sqrt : Double → Double
  | .finite x => if x.isZero then .finite x else if x.negative then .nan else sqrtPositive x
  | .infinite negative => if negative then .nan else .infinite false
  | .nan => .nan

/-! ## Circular functions -/

/-- A function that maps each zero to itself and has no value at the infinities. -/
def odd (enclose : Rat → Nat → Enclosure) : Double → Double
  | .finite x => if x.isZero then .finite x else settled (enclose x.toRat)
  | _ => .nan

/-- The sine. -/
def sin : Double → Double := odd Enclosure.sin

/-- The tangent. -/
def tan : Double → Double := odd Enclosure.tan

/-- The cosine. -/
def cos : Double → Double
  | .finite x => settled (Enclosure.cos x.toRat)
  | _ => .nan

/-- The inverse tangent; the infinities map to right angles. -/
def arctan : Double → Double
  | .infinite negative =>
    settled fun bits =>
      let halfPi := Enclosure.pi (bits + 64) / 2
      Enclosure.around (if negative then -halfPi else halfPi) (bits + 64) bits
  | x => odd Enclosure.arctan x

/-! ## The exponential function and its kin -/

/-- Arguments from here on overflow the exponential function; below the negative they underflow. -/
def exponentBound : Rat := 1000

/-- The exponential function. -/
def exp : Double → Double
  | .finite x =>
    let q := x.toRat
    if exponentBound < q then .infinite false
    else if q < -exponentBound then .zero
    else settled (Enclosure.exp q)
  | .infinite negative => if negative then .zero else .infinite false
  | .nan => .nan

/-- The hyperbolic sine. -/
def sinh : Double → Double
  | .finite x =>
    if x.isZero then .finite x
    else if exponentBound < x.absRat then .infinite x.negative
    else settled (Enclosure.sinh x.toRat)
  | x => x

/-- The hyperbolic cosine. -/
def cosh : Double → Double
  | .finite x =>
    if exponentBound < x.absRat then .infinite false else settled (Enclosure.cosh x.toRat)
  | .infinite _ => .infinite false
  | .nan => .nan

/-! ## Logarithms -/

/-- A logarithm: minus infinity at zero, zero at one, undefined below zero. -/
def logarithm (enclose : Rat → Nat → Enclosure) : Double → Double
  | .finite x =>
    if x.isZero then .infinite true
    else if x.negative then .nan
    else if x.toRat = 1 then .zero
    else settled (enclose x.toRat)
  | .infinite negative => if negative then .nan else .infinite false
  | .nan => .nan

/-- The natural logarithm. -/
def ln : Double → Double := logarithm Enclosure.ln

/-- The logarithm to base ten. -/
def log10 : Double → Double := logarithm Enclosure.log10

/-! ## Powers -/

/-- The value of a finite number is an odd integer. -/
def isOddInteger : Double → Bool
  | .finite x => let q := x.toRat; q.den == 1 && q.num % 2 == 1
  | _ => false

/-- The power of a positive rational other than one, with a sign. Powers far outside the range are
decided by the size of the exponent of e; small integer exponents are computed exactly, because
their powers may lie in the middle between two numbers. -/
def powFinite (negative : Bool) (x y : Rat) : Double :=
  let signed (q : Rat) : Rat := if negative then -q else q
  let l := Enclosure.ln x 96
  let e := (if l.low < 0 then l.low else l.high) * y
  if 2000 < e then .infinite negative
  else if e < -2000 then .finite (.zero negative)
  else if y.den = 1 ∧ 0 ≤ y ∧ y ≤ 64 then ofRat (signed (x ^ y.num.natAbs)) negative
  else settled fun bits =>
    let r := Enclosure.pow x y bits
    if negative then ⟨-r.high, -r.low⟩ else r

/-- A power of an infinite or zero magnitude: infinite if `grows`, else zero. -/
def powExtreme (grows negative : Bool) : Double :=
  if grows then .infinite negative else .finite (.zero negative)

/-- The power function. -/
def pow (x y : Double) : Double :=
  if y.isZero then ofRat 1
  else
    match x, y with
    | .nan, _ => .nan
    | .finite b, .nan => if b.toRat = 1 then ofRat 1 else .nan
    | .infinite _, .nan => .nan
    | .finite b, .infinite t =>
      if b.absRat = 1 then ofRat 1 else powExtreme ((1 < b.absRat) != t) false
    | .infinite _, .infinite t => powExtreme (!t) false
    | .infinite s, .finite e => powExtreme (!e.negative) (s && isOddInteger y)
    | .finite b, .finite e =>
      let negative := b.negative && isOddInteger y
      if b.isZero then powExtreme e.negative negative
      else if b.negative && e.toRat.den != 1 then .nan
      else if b.absRat = 1 then ofRat (if negative then -1 else 1)
      else powFinite negative b.absRat e.toRat

end Reckon.Binary
