/-
The mantissa and exponent of a number. Parts with `digits` and `exponent` stand for
±`digits` · 10 ^ `exponent`; taking a number apart drops the zeros at the ends of its digits,
except that a repeating value keeps its stored cycles whole. A purely imaginary number has the
parts of its coefficient; any other complex number has two mantissas.
-/
import Reckon.Number.Basic
import Reckon.Expansion.Division

namespace Reckon

/-- What kind of number parts belong to. -/
inductive PartsKind
  | nan | infinity | negInfinity | irrational | recurring | finite | imaginary | complex
  deriving DecidableEq, Repr, Inhabited

/-- The name of a kind. -/
def PartsKind.label : PartsKind → String
  | nan => "NaN"
  | infinity => "Infinity"
  | negInfinity => "-Infinity"
  | irrational => "Irrational"
  | recurring => "Recurring"
  | finite => "Finite"
  | imaginary => "Imaginary"
  | complex => "Complex"

/-- All kinds. -/
def PartsKind.all : List PartsKind :=
  [nan, infinity, negInfinity, irrational, recurring, finite, imaginary, complex]

/-- The parts of a number. The kind of the coefficient matters for imaginary numbers only. -/
structure Parts where
  digits : String
  exponent : Int
  negative : Bool
  kind : PartsKind
  coefficient : PartsKind := .finite
  deriving DecidableEq, Repr, Inhabited

namespace Parts

/-! ## Taking apart -/

/-- The kind of a real number. -/
def kindOfReal : Real → PartsKind
  | .small .. | .big _ => .finite
  | .irrational _ => .irrational
  | .recurring _ => .recurring
  | .nan => .nan
  | .infinite negative => if negative then .negInfinity else .infinity

/-- The kind of a number. -/
def kindOf : Scalar → PartsKind
  | .real x => kindOfReal x
  | .complex re _ => if re.isZero then .imaginary else .complex

/-- The parts of a decimal. -/
def ofDecimal (d : Decimal) (kind : PartsKind) : Parts :=
  if d.isZero then ⟨"0", 0, d.negative, kind, .finite⟩
  else
    let m := if kind = .recurring then d else d.normalize
    ⟨String.ofList m.digits, m.exponent, d.negative, kind, .finite⟩

/-- The parts of a decimal or special value; a special value counts as a zero with its sign. -/
def ofExtended : ExtendedDecimal → Parts
  | .finite d => ofDecimal d .finite
  | .infinite negative => ofDecimal (.signedZero negative) .finite
  | .nan => ofDecimal .zero .finite

/-- The parts of a real number; special values have no digits. -/
def ofReal (x : Real) : Parts :=
  match x.decimal? with
  | some d => ofDecimal d (kindOfReal x)
  | none => ⟨"", 0, x.isNegative, kindOfReal x, .finite⟩

/-- The parts of a number with one mantissa. -/
def ofScalar : Scalar → Outcome Parts
  | .real x => .ok (ofReal x)
  | .complex re im =>
    if re.isZero then
      let p := ofReal im
      .ok { p with kind := .imaginary, coefficient := p.kind }
    else fail (.twoMantissas "complex_parts")

/-- The parts of the real and of the imaginary part. -/
def pairOf (z : Scalar) : Parts × Parts := (ofReal z.parts.1, ofReal z.parts.2)

/-! ## Putting together -/

/-- The decimal that digits and exponent denote. Digits may be of any script; no digits are zero. -/
def toDecimal (p : Parts) : Outcome Decimal := do
  let cs := if p.digits.isEmpty then ['0'] else p.digits.toList
  let some ds := cs.mapM Text.decimalValue? | .error .textValue
  Decimal.make p.negative (ds.foldl (fun n d => n * 10 + d) 0) p.exponent

/-- The complex number of two real ones. -/
def join (re im : Scalar) : Outcome Scalar :=
  match re, im with
  | .real x, .real y => .ok (.complex x y)
  | _, _ => .error (.payload .complexParts)

/-- The number of a kind whose digits are the decimal `d`; for an imaginary number `coefficient`
multiplies the imaginary unit. -/
def ofKind (kind : PartsKind) (d : Decimal) (coefficient : Outcome Scalar) : Outcome Scalar :=
  match kind with
  | .nan => .ok (.real .nan)
  | .infinity => .ok (.real (.infinite false))
  | .negInfinity => .ok (.real (.infinite true))
  | .irrational => .ok (.real (.irrational d))
  | .recurring => .ok (.real (.recurring d))
  | .finite => .ok (.real (.big d))
  | .imaginary => do join (.real .zero) (← coefficient)
  | .complex => fail (.twoMantissas "from_complex_parts")

/-- The kind says that the digits do not matter. -/
def isSpecial (kind : PartsKind) : Bool := kind == .nan || kind == .infinity || kind == .negInfinity

/-- The number that parts stand for. The coefficient of an imaginary number has a kind of its own,
and an imaginary coefficient fails, because the parts of a complex number are real. -/
def toScalar (p : Parts) : Outcome Scalar := do
  let d ← if isSpecial p.kind then .ok .zero else p.toDecimal
  ofKind p.kind d (ofKind p.coefficient d (.ok (.real (.big d))))

/-- The complex number whose parts are given. -/
def joined (re im : Parts) : Outcome Scalar := do
  let re ← re.toScalar
  join re (← im.toScalar)

/-! ## Integers -/

/-- The digits of an integer and whether it is negative. -/
def ofInt (n : Int) : String × Bool := (String.ofList (Digits.ofNat n.natAbs), n < 0)

/-- The integer with the given digits. -/
def toInt (digits : String) (negative : Bool) : Outcome Int := do
  if digits.isEmpty || !digits.toList.all Text.isDigit then fail (.integerDigits digits)
  else
    let n ← Expansion.readWhole digits
    .ok (if negative then -n else n)

end Parts

end Reckon
