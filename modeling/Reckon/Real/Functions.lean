/-
Elementary functions of real numbers. The operand is projected onto a 64-bit number, the function
is evaluated there, and the result comes back as a decimal, an approximation unless it is an
integer. Square roots and logarithms of operands outside the 64-bit range are computed in decimal
arithmetic instead.
-/
import Reckon.Binary.Functions
import Reckon.Decimal.Significant
import Reckon.Real.Arithmetic

namespace Reckon.Real

/-! ## Projection and embedding -/

/-- The 64-bit number nearest to the stored decimal; infinite outside the range. -/
def project (x : Real) : Outcome Double :=
  match x with
  | infinite negative => .ok (.infinite negative)
  | small f b => .ok (Binary.convert (Binary.finite b : Binary f))
  | _ => x.decimal.map Binary.ofDecimal

/-- A native result as a real number. The name tells whose result it is, should it be none. -/
def embed {f : Format} (y : Binary f) (name : String) : Outcome Real :=
  match y with
  | .nan => fail (.notANumber name)
  | .infinite _ => fail (.overflows name)
  | .finite b => ofApproximation b.toDecimal

/-- The projection says something about the number: it is finite and vanishes only with it. -/
def isFaithful (x : Real) (y : Double) : Bool := y.isFinite && (!y.isZero || x.isZero)

/-- The significant digits of decimal evaluations: those before the point, those kept after it and
twenty more. -/
def evaluationDigits (d : Decimal) : Nat := (max d.adjusted 0 + precision + 20).toNat

/-- Evaluates a function on the projection; an infinite operand may have an infinite result. -/
def evaluate (f : Double → Double) (name : String) (x : Real) : Outcome Real := do
  if x.isNaN then fail (.functionOfNaN name)
  else
    let y := f (← x.project)
    match x, y with
    | infinite _, .infinite negative => .ok (.infinite negative)
    | _, _ => embed y name

/-- The sine. -/
def sin : Real → Outcome Real := evaluate Binary.sin "sin"

/-- The cosine. -/
def cos : Real → Outcome Real := evaluate Binary.cos "cos"

/-- The tangent. -/
def tan : Real → Outcome Real := evaluate Binary.tan "tan"

/-- The hyperbolic sine. -/
def sinh : Real → Outcome Real := evaluate Binary.sinh "sinh"

/-- The hyperbolic cosine. -/
def cosh : Real → Outcome Real := evaluate Binary.cosh "cosh"

/-- The exponential function. -/
def exp : Real → Outcome Real := evaluate Binary.exp "exp"

/-! ## Square roots -/

/-- The square root of a finite positive number other than one, cut to the precision. -/
def rootDigits (x : Real) : Outcome Decimal := do
  let d ← x.decimal
  match Binary.sqrt (← x.project) with
  | .finite y =>
    if x.isFaithful (.finite y) then y.toDecimal.truncate precision
    else (Decimal.Significant.sqrt (evaluationDigits d) d).truncate precision
  | _ => (Decimal.Significant.sqrt (evaluationDigits d) d).truncate precision

/-- The square root. Zero and one are their own roots; a root whose square is the operand is
exact. -/
def sqrt (x : Real) : Outcome Real := do
  if x.isNaN then fail (.functionOfNaN "sqrt")
  else if x.isNegative then fail .negativeSquareRoot
  else if x.isInfinite then .ok x
  else if x.isZero || (← x.decimal).isOne then .ok x
  else
    let root ← x.rootDigits
    if x.exactRat?.any fun q => q = root.toRat * root.toRat then .ok (.big root.strip)
    else ofApproximation root

/-! ## Logarithms -/

/-- A logarithm of a positive number: of its projection by `f`, or of its decimal by `g` if the
projection says nothing. -/
def logarithm (f : Double → Double) (g : Nat → Decimal → Decimal) (name : String) (x : Real) :
    Outcome Real := do
  if x.isNaN then fail (.functionOfNaN name)
  else if x.isZero || x.isNegative then fail (.nonPositive name)
  else if x.isInfinite then .ok x
  else
    let p ← x.project
    if x.isFaithful p then embed (f p) name
    else
      let d ← x.decimal
      ofApproximation (g (evaluationDigits d) d)

/-- The natural logarithm. -/
def ln : Real → Outcome Real := logarithm Binary.ln Decimal.Significant.ln "ln"

/-- The logarithm to base ten. -/
def log10 : Real → Outcome Real := logarithm Binary.log10 Decimal.Significant.log10 "log10"

/-- The logarithm of a positive number to a positive base. -/
def log (x base : Real) : Outcome Real := do
  if [x, base].any fun v => v.isNaN || v.isZero || v.isNegative then fail .logOperands
  else if base.decimal?.any Decimal.isOne then fail .logBaseOne
  else if x.isInfinite then .ok x
  else if base.isInfinite then .ok zero
  else
    let p ← x.project
    if x.isFaithful p then embed (Binary.div (Binary.ln p) (Binary.ln (← base.project))) "log"
    else div (← x.ln) (← base.ln)

/-! ## Constants -/

/-- The integer part of a positive enclosed value times ten to the power of the precision. -/
def constantDigits (enclose : Nat → Enclosure) : Nat :=
  Enclosure.settle (fun q => (q * ((10 ^ precision.toNat : Nat) : Rat)).floor.toNat) enclose
    (Enclosure.precisions.drop 3)

/-- An approximation by the given number of units of the last kept digit. -/
def ofConstantDigits (n : Nat) : Real := .irrational ⟨false, n, -precision⟩

/-- The ratio of a circle's circumference to its diameter. -/
def pi : Real :=
  ofConstantDigits (constantDigits fun bits => .around (Enclosure.pi (bits + 64)) (bits + 64) bits)

/-- The base of the natural logarithm. -/
def e : Real := ofConstantDigits (constantDigits (Enclosure.exp 1))

/-- The root of `n` in units of the last kept digit. -/
def rootUnits (n : Nat) : Nat := Nat.sqrt (n * 100 ^ precision.toNat)

/-- The golden ratio. -/
def phi : Real := ofConstantDigits ((10 ^ precision.toNat + rootUnits 5) / 2)

/-- The square root of two. -/
def sqrt2 : Real := ofConstantDigits (rootUnits 2)

/-- The constant of a name in lower case. -/
def constant? : String → Option Real
  | "pi" => some pi
  | "e" => some e
  | "phi" => some phi
  | "sqrt2" => some sqrt2
  | _ => none

/-- The constant of a name, where there has to be one. -/
def constant (name : String) : Outcome Real :=
  match constant? name with
  | some x => .ok x
  | none => .error (.unknownConstant name)

end Reckon.Real
