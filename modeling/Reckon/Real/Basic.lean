/-
Real numbers of several kinds, next to NaN and the infinities. A small number is a native binary
one; the other finite kinds store a decimal: exactly (`big`), as an approximation cut after a
budget of digits (`irrational`), or as a repeating expansion with its cycle written out
(`recurring`).
-/
import Reckon.Binary.Shortest
import Reckon.Decimal.Reader

namespace Reckon

/-- A real number, an infinity or NaN. -/
inductive Real
  | small (f : Format) (x : FiniteBinary f)
  | big (d : Decimal)
  | irrational (d : Decimal)
  | recurring (d : Decimal)
  | infinite (negative : Bool)
  | nan
  deriving DecidableEq, Repr

namespace Real

instance : Inhabited Real := ⟨.nan⟩

/-- Zero. -/
def zero : Real := .big .zero

/-- One. -/
def one : Real := .big .one

/-- An integer. -/
def ofInt (n : Int) : Real := .big (.ofInt n)

/-- Zero with a sign. -/
def signedZero (negative : Bool) : Real := .big (.signedZero negative)

/-- A native number; its special values become the special values here. -/
def ofBinary {f : Format} : Binary f → Real
  | .finite x => .small f x
  | .infinite negative => .infinite negative
  | .nan => .nan

/-- A decimal or special value. -/
def ofExtended : ExtendedDecimal → Real
  | .finite d => .big d
  | .infinite negative => .infinite negative
  | .nan => .nan

/-! ## What a number is -/

/-- The kind of a number. -/
def kind : Real → Kind
  | small .. => .small
  | big _ => .big
  | irrational _ => .irrational
  | recurring _ => .recurring
  | infinite negative => if negative then .negInfinity else .infinity
  | nan => .nan

/-- The stored decimal of a finite number; a native one is read as its shortest decimal. -/
def decimal? : Real → Option Decimal
  | small _ x => some x.toDecimal
  | big d | irrational d | recurring d => some d
  | infinite _ | nan => none

/-- The stored decimal, where there has to be one. -/
def decimal (x : Real) : Outcome Decimal :=
  match x.decimal? with
  | some d => .ok d
  | none => fail (.noDecimal x.kind)

/-- NaN. -/
def isNaN : Real → Bool
  | nan => true
  | _ => false

/-- One of the infinities. -/
def isInfinite : Real → Bool
  | infinite _ => true
  | _ => false

/-- Neither infinite nor NaN. -/
def isFinite (x : Real) : Bool := x.decimal?.isSome

/-- An approximation. -/
def isIrrational : Real → Bool
  | irrational _ => true
  | _ => false

/-- A stored repeating value. -/
def isRecurring : Real → Bool
  | recurring _ => true
  | _ => false

/-- A zero of either sign. -/
def isZero (x : Real) : Bool := x.decimal?.any Decimal.isZero

/-- A minus sign is stored, also on a zero. -/
def isNegative : Real → Bool
  | infinite negative => negative
  | x => x.decimal?.any (·.negative)

/-! ## Signs -/

/-- The number with the other sign. -/
def neg : Real → Real
  | small f x => .small f x.neg
  | big d => .big d.neg
  | irrational d => .irrational d.neg
  | recurring d => .recurring d.neg
  | infinite negative => .infinite !negative
  | nan => .nan

/-- The number without its sign. -/
def abs (x : Real) : Real := if x.isNegative then x.neg else x

/-- The same number as an approximation. -/
def toIrrational (x : Real) : Real :=
  match x.decimal? with
  | some d => .irrational d
  | none => x

end Real

end Reckon
