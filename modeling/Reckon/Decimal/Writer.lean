/-
Writing a stored decimal: all digits of the coefficient, with a point in place while the exponent is
not positive and at most five zeros lead, else with one digit before the point and a power of ten.
-/
import Reckon.Decimal.Reader

namespace Reckon

namespace Decimal

/-- The leading digits stand at most this far behind the point in a text without a power of ten. -/
def leastPositional : Int := -6

/-- The digits with a point behind the first `n` of them, padded with zeros where there are none. -/
def pointed (ds : List Char) (n : Int) : List Char :=
  if n ≤ 0 then '0' :: '.' :: (List.replicate n.natAbs '0' ++ ds)
  else if ds.length ≤ n then ds ++ List.replicate (n.natAbs - ds.length) '0'
  else ds.take n.natAbs ++ '.' :: ds.drop n.natAbs

/-- The text of a decimal. -/
def text (d : Decimal) : String :=
  let ds := d.digits
  let sign := if d.negative then "-" else ""
  if d.exponent ≤ 0 && leastPositional ≤ d.adjusted then
    sign ++ String.ofList (pointed ds (d.adjusted + 1))
  else
    sign ++ String.ofList (pointed ds 1) ++ (if d.adjusted < 0 then "E" else "E+") ++
      Digits.ofInt d.adjusted

end Decimal

/-- The text of a decimal or special value. -/
def ExtendedDecimal.text : ExtendedDecimal → String
  | finite d => d.text
  | infinite negative => if negative then "-Infinity" else "Infinity"
  | nan => "NaN"

end Reckon
