/-
The shortest decimal of a binary number: of all decimals that round to the number, one with the
fewest digits, and of those the nearest. The layouts below say with how many stored digits the
decimal is written.
-/
import Reckon.Binary.Round
import Reckon.Decimal.Exact

namespace Reckon

namespace FiniteBinary

variable {f : Format}

/-! ## The rounding interval -/

/-- The numbers that round to a positive value, in quarters of its last significand bit: the lower
end, the value and the upper end. Below a power of two the spacing halves. -/
def interval (x : FiniteBinary f) : Nat × Nat × Nat :=
  let m := x.significand
  let lower := if m = f.unit && f.unit < x.magnitude then 4 * m - 1 else 4 * m - 2
  (lower, 4 * m, 4 * m + 2)

/-- Compares `c` · 10 ^ `j` with `b` · 2 ^ `e`. -/
def compareScaled (c : Nat) (j : Int) (b : Nat) (e : Int) : Ordering :=
  compare (c * 10 ^ j.toNat * 2 ^ (-e).toNat) (b * 2 ^ e.toNat * 10 ^ (-j).toNat)

/-- The decimal `c` · 10 ^ `j` rounds to the value; the ends of the interval do if the significand
is even. -/
def roundsFrom (x : FiniteBinary f) (c : Nat) (j : Int) : Bool :=
  let (lo, _, hi) := x.interval
  let closed := x.significand % 2 == 0
  let q := x.quantum - 2
  let low := compareScaled c j lo q
  let high := compareScaled c j hi q
  (low == .gt || (closed && low == .eq)) && (high == .lt || (closed && high == .eq))

/-! ## The search -/

/-- The integer part of the value over 10 ^ `j`. -/
def gridFloor (x : FiniteBinary f) (j : Int) : Nat :=
  x.significand * 2 ^ x.quantum.toNat * 10 ^ (-j).toNat /
    (2 ^ (-x.quantum).toNat * 10 ^ j.toNat)

/-- The nearer to the value of `c` and `c + 1` on the grid of 10 ^ `j`; in the middle the even one. -/
def nearer (x : FiniteBinary f) (c : Nat) (j : Int) : Nat :=
  match compareScaled (2 * c + 1) j (2 * x.significand) x.quantum with
  | .lt => c + 1
  | .gt => c
  | .eq => if c % 2 = 0 then c else c + 1

/-- The neighbour of the value on the grid of 10 ^ `j` that rounds to it, the nearer one if both
do. -/
def onGrid (x : FiniteBinary f) (j : Int) : Option Nat :=
  let c := x.gridFloor j
  match x.roundsFrom c j, x.roundsFrom (c + 1) j with
  | true, true => some (x.nearer c j)
  | true, false => some c
  | false, true => some (c + 1)
  | false, false => none

/-- The first hit on the grids from 10 ^ `j` down to finer ones. -/
def searchGrids (x : FiniteBinary f) : (fuel : Nat) → (j : Int) → Nat × Int
  | 0, j => (x.gridFloor j, j)
  | fuel + 1, j =>
    match x.onGrid j with
    | some c => if c = 0 then searchGrids x fuel (j - 1) else (c, j)
    | none => searchGrids x fuel (j - 1)

/-- The digits and the power of ten of the shortest decimal. The search starts above the leading
digit; eighteen finer grids always contain a hit. -/
def shortest (x : FiniteBinary f) : Nat × Int :=
  if x.isZero then (0, 0)
  else
    let top := (x.significand.log2 : Int) + x.quantum + 1
    let j := if 0 ≤ top then (top.toNat * 30103 / 100000 + 1 : Int) else -((-top).toNat * 30102 / 100000 : Int)
    let (c, j) := x.searchGrids 22 j
    let k := Digits.trailingZeros (Digits.width c) c
    (c / 10 ^ k, j + k)

/-! ## Written decimals -/

/-- The exponents of a leading digit below which a format is written with a point in place; from
there on, and below -4, it is written with a power of ten. -/
def positionalBelow : Format → Int
  | .single => 6
  | .double => 16

/-- The leading digit lies where the format writes its numbers without a power of ten. -/
def isPositional (f : Format) (adjusted : Int) : Bool :=
  -4 ≤ adjusted && adjusted < positionalBelow f

/-- The shortest decimal with the digits that are written for it: a number without a power of ten
has at least one digit after the point. -/
def toDecimal (x : FiniteBinary f) : Decimal :=
  let (c, k) := x.shortest
  if c = 0 then ⟨x.negative, 0, -1⟩
  else
    let d : Decimal := ⟨x.negative, c, k⟩
    if isPositional f d.adjusted && 0 ≤ k then ⟨x.negative, c * 10 ^ (k.toNat + 1), -1⟩ else d

/-- The written form: positional, or one digit before the point and a power of ten of at least two
digits. -/
def text (x : FiniteBinary f) : String :=
  let (c, k) := x.shortest
  let sign := if x.negative then "-" else ""
  if c = 0 then sign ++ "0.0"
  else
    let ds := Digits.ofNat c
    let e : Int := k + (ds.length - 1 : Nat)
    if isPositional f e then
      let shown : List Char :=
        if 0 ≤ k then ds ++ List.replicate k.toNat '0' ++ ['.', '0']
        else
          let n := (-k).toNat
          let padded := List.replicate (n + 1 - ds.length) '0' ++ ds
          padded.take (padded.length - n) ++ '.' :: padded.drop (padded.length - n)
      sign ++ String.ofList shown
    else
      let mantissa := match ds with
        | d :: [] => [d]
        | d :: rest => d :: '.' :: rest
        | [] => []
      let power := Digits.ofNat e.natAbs
      let power := if power.length < 2 then '0' :: power else power
      sign ++ String.ofList (mantissa ++ ['e', if e < 0 then '-' else '+'] ++ power)

end FiniteBinary

/-- The written form of a binary number. -/
def Binary.text {f : Format} : Binary f → String
  | .finite x => x.text
  | .infinite negative => if negative then "-inf" else "inf"
  | .nan => "nan"

end Reckon
