/-
Rounding operands. Numbers of the library round a half away from zero and give numbers of the
library; native numbers round a half to the even neighbour and, without a number of places, give
native whole numbers.
-/
import Reckon.Operand.Operators

namespace Reckon.Operand

/-- The nearest whole number of a rational, a half to the even one. -/
def nearestWhole (q : Rat) : Int :=
  let n : Nat := roundHalfEven q.num.natAbs q.den
  if q < 0 then -n else n

/-- A rational rounded to `places` decimal places, a half to the even digit. -/
def nearestRat (places : Int) (q : Rat) : Rat :=
  let unit : Rat := ((10 ^ places.natAbs : Nat) : Rat)
  if 0 ≤ places then (nearestWhole (q * unit) : Rat) / unit
  else (nearestWhole (q / unit) : Rat) * unit

/-- The whole number that a function finds for the exact value of a native number. -/
def wholeOf (f : Rat → Int) : Operand → Outcome Operand
  | float x => ofDouble x
  | scalar _ x => ofDouble (Binary.convert x)
  | ratio q => .ok (.whole (f q))
  | decimal (.finite d) => .ok (.whole (f d.toRat))
  | decimal (.infinite _) => .error .nativeOverflow
  | decimal .nan => .error .textValue
  | a =>
    match a.whole? with
    | some n => .ok (.whole n)
    | none => .error .mismatch
where
  /-- The same for a double. -/
  ofDouble : Double → Outcome Operand
    | .finite x => .ok (.whole (f x.toRat))
    | .infinite _ => .error .nativeOverflow
    | .nan => .error .textValue

/-! ## Nearest numbers -/

/-- A number rounded to an integer. Integers stay; a complex number is rounded in its parts. -/
def rounded (a : Operand) : Outcome Operand := do
  match a with
  | number (.integer n) => .ok (.number (.integer n))
  | number x => do .ok (.number (.integer (← (← x.roundTo 0).toInteger)))
  | _ => wholeOf nearestWhole a

/-- The places beyond which a double stays as it is, and those before which it vanishes. -/
def finestPlaces : Int := 323
def coarsestPlaces : Int := -308

/-- A double rounded to decimal places: the double nearest to the rounded exact value. -/
def roundedDouble (places : Int) : Double → Outcome Double
  | .finite x =>
    if finestPlaces < places then .ok (.finite x)
    else if places < coarsestPlaces then .ok (.finite (.zero x.negative))
    else bounded (.ofRat (nearestRat places x.toRat) x.negative)
  | x => .ok x

/-- A decimal rounded to decimal places. Neither the places nor the digits of the result may leave the
working precision. -/
def roundedDecimal (places : Int) (d : Decimal) : Outcome Decimal :=
  open Decimal.Working in
  let k := -places - d.exponent
  if -places < minExponent || maxExponent < -places then .error .decimalRange
  else if d.isZero then .ok ⟨d.negative, 0, -places⟩
  else if d.digitCount < k then .ok ⟨d.negative, 0, -places⟩
  else if d.digitCount - k > precision then .error .decimalRange
  else
    let n : Nat :=
      if k ≤ 0 then d.coefficient * 10 ^ k.natAbs else roundHalfEven d.coefficient (10 ^ k.natAbs)
    if 10 ^ precision ≤ n then .error .decimalRange else .ok ⟨d.negative, n, -places⟩

/-- A number rounded to decimal places; an integer of the library stays even for tens. -/
def roundedTo (places : Int) (a : Operand) : Outcome Operand :=
  match a with
  | number (.integer n) => .ok (.number (.integer n))
  | number x => (x.roundTo places).map .number
  | float x => (roundedDouble places x).map .float
  | ratio q => .ok (.ratio (nearestRat places q))
  | decimal (.finite d) => do .ok (.decimal (.finite (← roundedDecimal places d)))
  | decimal .nan => .ok (.decimal .nan)
  | whole n => .ok (.whole (if 0 ≤ places then n else (nearestRat places n).num))
  | truth b => .ok (.whole (if 0 ≤ places && b then 1 else 0))
  | word n w => if 0 ≤ places then .ok (.word n w) else .error .mismatch
  | decimal (.infinite _) => .error .decimalRange
  | scalar .. | text _ | nothing | foreign _ => .error .mismatch

/-! ## Integer parts -/

/-- The floor or ceiling of a number as an integer. An integer is taken through its nearest double
and gives a native whole number, and so is a word. -/
def nearInteger (onRationals : Rat → Int) (f : Number → Outcome Number) (a : Operand) :
    Outcome Operand := do
  match a with
  | number (.integer _) | word .. => wholeOf onRationals (.float (← a.toDouble))
  | number x => do .ok (.number (.integer (← (← f x).toInteger)))
  | _ => wholeOf onRationals a

/-- The floor. -/
def floor : Operand → Outcome Operand := nearInteger Rat.floor Number.floor

/-- The ceiling. -/
def ceil : Operand → Outcome Operand := nearInteger Rat.ceil Number.ceil

/-- The integer part of a number. An integer of the library has none to be asked for, nor have a word
and a single. -/
def integerPart (a : Operand) : Outcome Operand := do
  match a with
  | number (.integer _) | word .. | scalar .single _ => .error .mismatch
  | number x => do .ok (.number (.integer (← x.wholePart)))
  | _ => wholeOf (fun q => q.num.tdiv q.den) a

end Reckon.Operand
