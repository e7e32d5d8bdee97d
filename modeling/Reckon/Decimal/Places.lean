/-
Cutting and rounding to a number of decimal places. A negative number of places means tens,
hundreds and so on. The same two operations exist on rationals and on stored decimals; a decimal
that is coarse enough already stays as it is.
-/
import Reckon.Decimal.Exact

namespace Reckon

namespace Decimal

/-- The rational `|q|` · 10 ^ `places`. -/
def scaled (q : Rat) (places : Int) : Rat :=
  let m : Rat := if q < 0 then -q else q
  if 0 ≤ places then m * ((10 ^ places.natAbs : Nat) : Rat) else m / ((10 ^ places.natAbs : Nat) : Rat)

/-- The decimal with the sign of `q` and `n` units of the last place. -/
def ofUnits (q : Rat) (n : Nat) (places : Int) : Outcome Decimal :=
  ofScaled (if q < 0 then -n else n) (-places)

/-- A rational cut towards zero after `places` fractional digits. -/
def truncateRat (q : Rat) (places : Int) : Outcome Decimal :=
  ofUnits q (scaled q places).floor.toNat places

/-- A rational rounded to `places` fractional digits, a half away from zero. -/
def roundRat (q : Rat) (places : Int) : Outcome Decimal :=
  ofUnits q (scaled q places + 1 / 2).floor.toNat places

/-- A decimal cut towards zero after `places` fractional digits. -/
def truncate (d : Decimal) (places : Int) : Outcome Decimal :=
  if -places ≤ d.exponent then .ok d
  else do
    let unit ← make false 1 (-places)
    .ok ⟨d.negative, shiftDown d.coefficient (-places - d.exponent).toNat, unit.exponent⟩

/-- A decimal rounded to `places` fractional digits, a half away from zero. Half a unit is five of
the next digit, so adding it and cutting rounds; a shift past all digits leaves zero. A carry past
the greatest exponent fails. -/
def round (d : Decimal) (places : Int) : Outcome Decimal :=
  if -places ≤ d.exponent then .ok d
  else do
    let unit ← make false 1 (-places)
    let k := (-places - d.exponent).toNat
    let c := if d.digitCount < k then 0 else (d.coefficient + 5 * 10 ^ (k - 1)) / 10 ^ k
    let r : Decimal := ⟨d.negative, c, unit.exponent⟩
    if maxExponent < r.adjusted then .error .decimalRange else .ok r

end Decimal

end Reckon
