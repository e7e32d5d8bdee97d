/-
Binary floating-point numbers of the two interchange formats. A finite number is a sign and a
`magnitude`, the exponent and fraction fields read as one number; magnitudes are in the order of
the values. Every NaN is the same here.
-/
import Reckon.Failure

namespace Reckon

/-- The interchange formats with 32 and 64 bits. -/
inductive Format
  | single | double
  deriving DecidableEq, Repr, Inhabited

namespace Format

/-- Bits of the significand, the implicit leading one included. -/
def precision : Format → Nat
  | single => 24
  | double => 53

/-- The exponent of the largest finite values, and the bias of the exponent field. -/
def maxExponent : Format → Nat
  | single => 127
  | double => 1023

/-- The number of fraction fields, the first normal magnitude. -/
def unit (f : Format) : Nat := 2 ^ (f.precision - 1)

/-- The magnitude of infinity, one past the largest finite one. -/
def limit (f : Format) : Nat := (2 * f.maxExponent + 1) * f.unit

/-- The exponent of the least significant bit of the least normal values, and of all subnormal
ones. -/
def minQuantum (f : Format) : Int := 2 - (f.maxExponent : Int) - f.precision

/-- All bits. -/
def bits : Format → Nat
  | single => 32
  | double => 64

/-- The format of a name in any case; the empty name means the double format. -/
def ofName? (name : String) : Option Format :=
  match String.ofList (Text.lowerAll name.toList) with
  | "f32" | "float32" | "single" => some single
  | "" | "f64" | "float64" | "double" => some double
  | _ => none

theorem limit_pos (f : Format) : 0 < f.limit := by cases f <;> decide

end Format

/-- A finite binary number. -/
structure FiniteBinary (f : Format) where
  negative : Bool
  magnitude : Nat
  magnitude_lt : magnitude < f.limit
  deriving DecidableEq, Repr

namespace FiniteBinary

variable {f : Format}

/-- The significand and the exponent of its last bit: the value is significand · 2 ^ quantum. -/
def significand (x : FiniteBinary f) : Nat :=
  if x.magnitude < f.unit then x.magnitude else x.magnitude % f.unit + f.unit

/-- The exponent of the last bit of the significand. -/
def quantum (x : FiniteBinary f) : Int :=
  if x.magnitude < f.unit then f.minQuantum else f.minQuantum + (x.magnitude / f.unit - 1 : Nat)

/-- The value without the sign. -/
def absRat (x : FiniteBinary f) : Rat :=
  if 0 ≤ x.quantum then ((x.significand * 2 ^ x.quantum.natAbs : Nat) : Rat)
  else mkRat x.significand (2 ^ x.quantum.natAbs)

/-- The value. -/
def toRat (x : FiniteBinary f) : Rat := if x.negative then -x.absRat else x.absRat

/-- Either zero. -/
def isZero (x : FiniteBinary f) : Bool := x.magnitude == 0

/-- The same number with the other sign. -/
def neg (x : FiniteBinary f) : FiniteBinary f := { x with negative := !x.negative }

/-- Zero with a sign. -/
def zero (negative : Bool) : FiniteBinary f := ⟨negative, 0, f.limit_pos⟩

/-- The largest finite number. -/
def largest (f : Format) : FiniteBinary f :=
  ⟨false, f.limit - 1, Nat.sub_lt f.limit_pos (by decide)⟩

end FiniteBinary

/-- A binary number: finite, infinite or NaN. -/
inductive Binary (f : Format)
  | finite (x : FiniteBinary f)
  | infinite (negative : Bool)
  | nan
  deriving DecidableEq, Repr

/-- A number of the 64-bit format. -/
abbrev Double := Binary .double

namespace Binary

variable {f : Format}

/-- The number with a given magnitude field; past infinity lies NaN. -/
def ofMagnitude (negative : Bool) (m : Nat) : Binary f :=
  if h : m < f.limit then .finite ⟨negative, m, h⟩
  else if m = f.limit then .infinite negative
  else .nan

/-- The number with a given bit pattern. -/
def ofBits (n : Nat) : Binary f :=
  let half := 2 ^ (f.bits - 1)
  ofMagnitude (half ≤ n) (n % half)

/-- The bit pattern; none for NaN, which has many. -/
def toBits? : Binary f → Option Nat
  | .finite x => some (x.magnitude + if x.negative then 2 ^ (f.bits - 1) else 0)
  | .infinite negative => some (f.limit + if negative then 2 ^ (f.bits - 1) else 0)
  | .nan => none

/-- Neither infinite nor NaN. -/
def isFinite : Binary f → Bool
  | .finite _ => true
  | _ => false

/-- A zero of either sign. -/
def isZero : Binary f → Bool
  | .finite x => x.isZero
  | _ => false

/-- The sign bit; NaN has none. -/
def isNegative : Binary f → Bool
  | .finite x => x.negative
  | .infinite negative => negative
  | .nan => false

/-- Zero without a sign. -/
def zero : Binary f := .finite (.zero false)

end Binary

end Reckon
