/-
Enclosures of elementary functions at rational points. The series are summed in fixed point with
`bits` binary places and a reserve of guard places for the errors of the single steps, so that the
result of a function is known to within 2 ^ -`bits`, relative to its size for the exponential and
absolute for the others. Callers widen the precision until an enclosure is narrow enough.
-/
import Reckon.Digits

namespace Reckon

/-- A closed interval that contains a real value. -/
structure Enclosure where
  low : Rat
  high : Rat
  deriving Repr

namespace Enclosure

/-- The least interval around some numbers. -/
def hull (q : Rat) (qs : List Rat) : Enclosure :=
  ⟨qs.foldl (fun a b => if b < a then b else a) q, qs.foldl (fun a b => if a < b then b else a) q⟩

/-- The rational `n` · 2 ^ `e`. -/
def scaledRat (n e : Int) : Rat :=
  if 0 ≤ e then ((n * (2 ^ e.natAbs : Nat) : Int) : Rat) else mkRat n (2 ^ e.natAbs)

/-- The interval around `n` · 2 ^ -`places` with a radius of 2 ^ -`bits`. -/
def around (n : Int) (places bits : Nat) : Enclosure :=
  let radius : Int := (2 ^ (places - bits) : Nat)
  ⟨scaledRat (n - radius) (-places), scaledRat (n + radius) (-places)⟩

/-- The rational in fixed point, rounded down. -/
def fixed (q : Rat) (places : Nat) : Int := q.num * (2 ^ places : Nat) / (q.den : Int)

/-- The product of two numbers in fixed point, rounded down. -/
def mulFixed (places : Nat) (a b : Int) : Int := (a * b) >>> places

/-- The guard places for series at a precision: each of at most `bits` terms loses a few units, and
the reductions below double an error a few times. -/
def guardPlaces (bits : Nat) : Nat := bits.log2 + 64

/-! ## Constants -/

/-- The terms ±`term` / (2k + 1) for the divisors from `divisor` on, each power smaller by the
factor `square`. -/
def inverseSeries (square : Nat) (alternating : Bool) : (fuel : Nat) → (term : Int) → (divisor : Nat) → Int
  | 0, _, _ => 0
  | fuel + 1, term, divisor =>
    if term = 0 then 0
    else
      let rest := inverseSeries square alternating fuel (term / (square : Int)) (divisor + 2)
      term / (divisor : Int) + if alternating then -rest else rest

/-- The inverse tangent of 1 / `n` in fixed point. -/
def arctanInverse (n places : Nat) : Int :=
  inverseSeries (n * n) true places (((2 ^ places / n : Nat)) : Int) 1

/-- The inverse hyperbolic tangent of 1 / `n` in fixed point. -/
def artanhInverse (n places : Nat) : Int :=
  inverseSeries (n * n) false places (((2 ^ places / n : Nat)) : Int) 1

/-- The circle number in fixed point. -/
def pi (places : Nat) : Int := 16 * arctanInverse 5 places - 4 * arctanInverse 239 places

/-- The natural logarithm of two in fixed point. -/
def ln2 (places : Nat) : Int :=
  18 * artanhInverse 26 places - 2 * artanhInverse 4801 places + 8 * artanhInverse 8749 places

/-- The natural logarithm of ten in fixed point. -/
def ln10 (places : Nat) : Int :=
  46 * artanhInverse 31 places + 34 * artanhInverse 49 places + 20 * artanhInverse 161 places

/-! ## The exponential function -/

/-- The terms of the exponential series from `term` on, whose index is `k`. -/
def expSeries (r : Int) (places : Nat) : (fuel : Nat) → (term : Int) → (k : Nat) → Int
  | 0, _, _ => 0
  | fuel + 1, term, k =>
    if term = 0 || term = -1 then 0
    else term + expSeries r places fuel (mulFixed places term r / ((k + 1 : Nat) : Int)) (k + 1)

/-- Squares a number in fixed point `n` times. -/
def squareTimes (places : Nat) : (n : Nat) → Int → Int
  | 0, y => y
  | n + 1, y => squareTimes places n (mulFixed places y y)

/-- The exponential of a rational: its argument is reduced by a multiple of the logarithm of two
and then divided by 256, which eight squarings undo. -/
def exp (x : Rat) (bits : Nat) : Enclosure :=
  let places := bits + guardPlaces bits + x.num.natAbs.log2
  let l := ln2 places
  let f := fixed x places
  let k := (2 * f + l) / (2 * l)
  let r := (f - k * l) / 256
  let y := squareTimes places 8 (expSeries r places places (2 ^ places : Nat) 0)
  let radius := y / (2 ^ bits : Nat) + 1
  ⟨scaledRat (y - radius) (k - places), scaledRat (y + radius) (k - places)⟩

/-! ## Logarithms -/

/-- The odd powers of `y` over their exponents from `term` on; `square` is the square of `y`, with a
minus sign for the inverse tangent. -/
def oddSeries (square : Int) (places : Nat) : (fuel : Nat) → (term : Int) → (divisor : Nat) → Int
  | 0, _, _ => 0
  | fuel + 1, term, divisor =>
    if term = 0 || term = -1 then 0
    else
      term / (divisor : Int) +
        oddSeries square places fuel (mulFixed places term square) (divisor + 2)

/-- A power of two near a positive rational: the quotient lies between 2/3 and 3/2. -/
def binaryExponent (x : Rat) : Int :=
  let k : Int := x.num.natAbs.log2 - x.den.log2
  let m := x * scaledRat 1 (-k)
  if 3 * m.den < 2 * m.num.natAbs then k + 1 else if 3 * m.num.natAbs < 2 * m.den then k - 1 else k

/-- The natural logarithm of a positive rational in fixed point. -/
def lnFixed (x : Rat) (places : Nat) : Int :=
  let k := binaryExponent x
  let m := x * scaledRat 1 (-k)
  let y := (m.num - m.den) * (2 ^ places : Nat) / (m.num + m.den)
  2 * oddSeries (mulFixed places y y) places places y 1 + k * ln2 places

/-- The natural logarithm of a positive rational. -/
def ln (x : Rat) (bits : Nat) : Enclosure :=
  let places := bits + guardPlaces bits + (binaryExponent x).natAbs.log2
  around (lnFixed x places) places bits

/-- The natural logarithm of a positive rational times 10 ^ `e`. -/
def lnScaled (x : Rat) (e : Int) (bits : Nat) : Enclosure :=
  let places := bits + guardPlaces bits + (binaryExponent x).natAbs.log2 + e.natAbs.log2
  around (lnFixed x places + e * ln10 places) places bits

/-- The quotient of a value in fixed point, known to within `radius` units, by a positive one known
equally well. -/
def quotient (a b : Int) (radius : Int) : Enclosure :=
  hull (Rat.divInt (a - radius) (b - radius)) [Rat.divInt (a - radius) (b + radius),
    Rat.divInt (a + radius) (b - radius), Rat.divInt (a + radius) (b + radius)]

/-- The logarithm to base ten of a positive rational. -/
def log10 (x : Rat) (bits : Nat) : Enclosure :=
  let places := bits + guardPlaces bits + (binaryExponent x).natAbs.log2
  quotient (lnFixed x places) (ln10 places) (2 ^ (places - bits) : Nat)

/-! ## Circular functions -/

/-- Every second term of the exponential series with alternating signs, from `term` on, whose index
is `k`. -/
def circularSeries (square : Int) (places : Nat) : (fuel : Nat) → (term : Int) → (k : Nat) → Int
  | 0, _, _ => 0
  | fuel + 1, term, k =>
    if term = 0 || term = -1 then 0
    else
      term - circularSeries square places fuel
        (mulFixed places term square / (((k + 1) * (k + 2) : Nat) : Int)) (k + 2)

/-- Sine and cosine of a rational in fixed point. The argument is reduced by a multiple of the right
angle, whose remainder modulo four selects the quadrant. -/
def sinCosFixed (x : Rat) (places : Nat) : Int × Int :=
  let wide := places + x.num.natAbs.log2 + 2
  let halfPi := pi wide / 2
  let f := fixed x wide
  let n := (2 * f + halfPi) / (2 * halfPi)
  let r := (f - n * halfPi) / (2 ^ (wide - places) : Nat)
  let square := mulFixed places r r
  let s := circularSeries square places places r 1
  let c := circularSeries square places places (2 ^ places : Nat) 0
  match n % 4 with
  | 0 => (s, c)
  | 1 => (c, -s)
  | 2 => (-s, -c)
  | _ => (-c, s)

/-- The sine of a rational. -/
def sin (x : Rat) (bits : Nat) : Enclosure :=
  let places := bits + guardPlaces bits
  around (sinCosFixed x places).1 places bits

/-- The cosine of a rational. -/
def cos (x : Rat) (bits : Nat) : Enclosure :=
  let places := bits + guardPlaces bits
  around (sinCosFixed x places).2 places bits

/-- The tangent of a rational; the cosine of a rational is never zero. -/
def tan (x : Rat) (bits : Nat) : Enclosure :=
  let places := bits + guardPlaces bits
  let (s, c) := sinCosFixed x places
  let radius : Int := (2 ^ (places - bits) : Nat)
  if c < 0 then quotient (-s) (-c) radius else quotient s c radius

/-- Halves an angle given by its tangent in fixed point. -/
def halveTangent (places : Nat) (t : Int) : Int :=
  let one : Nat := 2 ^ places
  let root := Nat.sqrt (one * one + t.natAbs * t.natAbs)
  t * (one : Int) / ((one + root : Nat) : Int)

/-- The inverse tangent of a rational: large arguments are inverted, and the angle is halved three
times before the series. -/
def arctan (x : Rat) (bits : Nat) : Enclosure :=
  let places := bits + guardPlaces bits
  let inverted : Bool := x.den < x.num.natAbs
  let t := fixed (if inverted then 1 / x else x) places
  let h := halveTangent places (halveTangent places (halveTangent places t))
  let angle := 8 * oddSeries (mulFixed places (-h) h) places places h 1
  let angle :=
    if inverted then (if x.num < 0 then -(pi places) else pi places) / 2 - angle else angle
  around angle places bits

/-! ## Hyperbolic functions -/

/-- Half the sum or difference of the exponentials of a rational and its negative. -/
def hyperbolic (sign : Rat) (x : Rat) (bits : Nat) : Enclosure :=
  let a := exp x bits
  let b := exp (-x) bits
  if sign < 0 then ⟨(a.low - b.high) / 2, (a.high - b.low) / 2⟩
  else ⟨(a.low + b.low) / 2, (a.high + b.high) / 2⟩

/-- The hyperbolic sine of a rational. -/
def sinh (x : Rat) (bits : Nat) : Enclosure := hyperbolic (-1) x bits

/-- The hyperbolic cosine of a rational. -/
def cosh (x : Rat) (bits : Nat) : Enclosure := hyperbolic 1 x bits

/-! ## Powers -/

/-- The power of a positive rational, through its logarithm. -/
def pow (x y : Rat) (bits : Nat) : Enclosure :=
  let l := ln x bits
  let exponent := hull (l.low * y) [l.high * y]
  ⟨(exp exponent.low bits).low, (exp exponent.high bits).high⟩

/-! ## Narrowing -/

/-- The precisions that are tried: each doubles the one before. -/
def precisions : List Nat := [96, 192, 384, 768, 1536, 3072, 6144, 12288]

/-- Rounds an enclosed value: widens the precision until both ends round alike. After the last
precision the lower end decides. -/
def settle {α : Type} [BEq α] (round : Rat → α) (enclose : Nat → Enclosure) : List Nat → α
  | [] => round (enclose 96).low
  | bits :: rest =>
    let e := enclose bits
    let low := round e.low
    if low == round e.high || rest.isEmpty then low else settle round enclose rest

end Enclosure

end Reckon
