/-
Conversions of numbers to integers and to native numbers.
-/
import Reckon.Number.Rounding

namespace Reckon

namespace Number

/-- The integer that a number stands for; a fraction, an infinity, NaN and complex numbers have
none. -/
def toInteger : Number → Outcome Integer
  | integer n => .ok n
  | scalar (.real .nan) => fail .nanNoInteger
  | scalar (.real (.infinite _)) => fail .infiniteNoInteger
  | scalar (.complex ..) => fail .complexNoInteger
  | scalar (.real x) => do
    let q ← x.toRat
    if q.den = 1 then .ok ⟨q.num, none⟩ else fail .fractionalPart

/-- The integer part as an integer. -/
def wholePart (x : Number) : Outcome Integer := do (← x.truncate 0).toInteger

/-- The native number of a format nearest to the stored decimal, rounded to 64 bits first. The
magnitude must not exceed the largest finite number of the format, which `name` calls. -/
def toNative (x : Number) (f : Format) (name : String) : Outcome (Binary f) :=
  match x.toScalar with
  | .complex .. => fail .complexNoNative
  | .real .nan => fail .nanNoNative
  | .real (.infinite negative) => .ok (.infinite negative)
  | .real r => do
    let q ← r.toRat
    let limit := (FiniteBinary.largest f).toRat
    if limit < q || q < -limit then fail (.outsideFormat name)
    else
      match r with
      | .small g b => .ok (Binary.convert (Binary.finite b : Binary g))
      | _ => do .ok (Binary.convert (Binary.ofDecimal (← r.decimal) : Double))

/-- A format with the name it was asked for, in lower case. -/
def formatNamed (name : String) : Outcome (Format × String) :=
  match Format.ofName? name with
  | some f =>
    let key := String.ofList (Text.lowerAll name.toList)
    .ok (f, if key.isEmpty then "f64" else key)
  | none => .error (.unknownFormat name)

/-- The 64-bit number nearest to the stored decimal. -/
def toDouble (x : Number) : Outcome Double := x.toNative .double "f64"

end Number

end Reckon
