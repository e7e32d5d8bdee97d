/-
Rationals as real numbers and back. A terminating rational becomes an exact decimal; any other one
becomes a repeating value that stores its cycle four times, so that the cycle can be found again
and the number still stands for its rational.
-/
import Reckon.Expansion.Division
import Reckon.Expansion.Cycle
import Reckon.Decimal.Places
import Reckon.Real.Basic

namespace Reckon.Real

/-- The decimal of a terminating rational over its least number of places. -/
def terminating (q : Rat) (places : Nat) : Outcome Decimal :=
  Decimal.ofScaled (q.num * (10 ^ places / q.den : Nat)) (-places)

/-- The decimal that stores an expansion: the lead and the cycle four times. -/
def storedDigits (e : Expansion) : Decimal :=
  let fraction := e.lead ++ (List.replicate Cycle.repeats e.cycle).flatten
  ⟨e.negative, e.whole * 10 ^ fraction.length + Digits.toNat fraction, -fraction.length⟩

/-- The number that stands for a rational, with a digit budget for the search of the cycle. -/
def ofRatWithin (q : Rat) (budget : Int) : Outcome Real :=
  match Expansion.terminatingPlaces? q.den with
  | some places => (terminating q places).map .big
  | none =>
    .ok (.recurring (storedDigits (Expansion.ofNat (q.num < 0) q.num.natAbs q.den budget.toNat)))

/-- The number that stands for a rational. -/
def ofRat (q : Rat) : Outcome Real := ofRatWithin q Expansion.defaultBudget

/-! ## The rational behind a number -/

/-- The rational that a spelled repeating value stands for. -/
def spelledRat (s : Cycle.Spelling) : Rat :=
  Expansion.value s.negative (Digits.toNat s.whole) s.lead s.cycle

/-- The rational that a stored repeating decimal stands for; none if its digits show no cycle. -/
def recurringRat? (d : Decimal) : Option Rat := (Cycle.split d none).map spelledRat

/-- The exact rational behind a number; none for approximations and special values. -/
def exactRat? : Real → Option Rat
  | small _ x => some x.toDecimal.toRat
  | big d => some d.toRat
  | recurring d => recurringRat? d
  | irrational _ | infinite _ | nan => none

/-- The best rational for a finite number: the exact one, else that of its stored digits. -/
def toRat? (x : Real) : Option Rat :=
  match x.exactRat? with
  | some q => some q
  | none => x.decimal?.map Decimal.toRat

/-- The best rational, where there has to be one. -/
def toRat (x : Real) : Outcome Rat :=
  match x.toRat? with
  | some q => .ok q
  | none => fail (.noDecimal x.kind)

/-- A repeating value stored afresh from its rational, so that a cycle of nines collapses upward.
Other numbers stay as they are, and so do repeating values without a visible cycle. -/
def normalize (x : Real) : Outcome Real :=
  match x with
  | recurring d =>
    match recurringRat? d with
    | some q => ofRat q
    | none => .ok x
  | _ => .ok x

/-- The number is an integer. A repeating value is one if its rational is. -/
def isInteger (x : Real) : Bool :=
  match x with
  | recurring d => (recurringRat? d).any fun q => q.den == 1
  | _ => x.decimal?.any fun d => !d.hasFraction

end Reckon.Real
