/-
Operands: what the operations accept. Besides the numbers of the library these are native numbers,
which are promoted, and values that are no numbers at all, which are refused by the name of their
type. Whole numbers become integers; binary numbers, decimals and ratios become scalars.
-/
import Reckon.Number.Conversion
import Reckon.Number.Order

namespace Reckon

/-- A value given to an operation. -/
inductive Operand
  | number (n : Number)
  /-- A native whole number of any size. -/
  | whole (n : Int)
  /-- A machine word; its width has a scalar. -/
  | word (n : Int) (w : Width)
  | truth (b : Bool)
  /-- A native number of the 64-bit format. -/
  | float (x : Double)
  /-- A machine scalar of a binary format. -/
  | scalar (f : Format) (x : Binary f)
  | decimal (d : ExtendedDecimal)
  | ratio (q : Rat)
  | text (s : String)
  | nothing
  /-- A value of any other type. -/
  | foreign (type : String)
  deriving DecidableEq, Repr

namespace Operand

instance : Inhabited Operand := ⟨.nothing⟩

instance : Coe Number Operand := ⟨.number⟩

/-- The name of a machine word's type: the signedness and the number of bits. -/
def wordName (w : Width) : String :=
  (if w.signed then "int" else "uint") ++ Digits.ofInt w.bits

/-- The name of a machine scalar's type. -/
def scalarName : Format → String
  | .single => "float32"
  | .double => "float64"

/-- The name of an operand's type. -/
def typeName : Operand → String
  | number (.integer _) => "Integer"
  | number (.scalar _) => "Float"
  | whole _ => "int"
  | word _ w => wordName w
  | truth _ => "bool"
  | float _ => "float"
  | scalar f _ => scalarName f
  | decimal _ => "Decimal"
  | ratio _ => "Fraction"
  | text _ => "str"
  | nothing => "NoneType"
  | foreign type => type

/-- A value of the library. -/
def isOwn : Operand → Bool
  | number _ => true
  | _ => false

/-- What an operand hands to a number of the library on its right: a machine value hands over its
plain value, a single as the double with the same bits. -/
def plain : Operand → Operand
  | word n _ => whole n
  | scalar _ x => float (Binary.convert x)
  | a => a

/-- The whole number that a native operand is. -/
def whole? : Operand → Option Int
  | whole n | word n _ => some n
  | truth b => some (if b then 1 else 0)
  | _ => none

/-- The scalar that a native operand becomes, unless it is whole. -/
def promoted? : Operand → Option (Outcome Scalar)
  | float x => some (.ok (.real (.ofBinary x)))
  | scalar _ x => some (.ok (.real (.ofBinary x)))
  | decimal d => some (.ok (.real (.ofExtended d)))
  | ratio q => some ((Real.ofRat q).map .real)
  | _ => none

/-- Operations accept the operand. -/
def isNumber : Operand → Bool
  | number _ => true
  | a => a.whole?.isSome || a.promoted?.isSome

/-- The number that an operand is promoted to. -/
def toNumber (a : Operand) : Outcome Number :=
  match a with
  | number n => .ok n
  | _ =>
    match a.whole?, a.promoted? with
    | some n, _ => .ok (.ofInt n)
    | none, some z => z.map .scalar
    | none, none => .error (.foreignOperand a.typeName)

/-- The scalar that an operand is promoted to; integers become exact decimals. -/
def toScalar (a : Operand) : Outcome Scalar :=
  if a.isNumber then a.toNumber.map Number.toScalar else .error (.notConvertible a.typeName)

/-- An operation on numbers as one on operands. -/
def apply {α : Type} (f : Number → Outcome α) (a : Operand) : Outcome α := do f (← a.toNumber)

/-- An operation on two numbers as one on operands, promoted from left to right. -/
def apply₂ {α : Type} (f : Number → Number → Outcome α) (a b : Operand) : Outcome α := do
  let x ← a.toNumber
  f x (← b.toNumber)

/-- The two numbers are at most a tolerance apart, part by part. A ratio is taken as it is; any
other tolerance counts through its promoted value, and as zero if that is not a finite real. -/
def near (a b epsilon : Operand) : Outcome Bool := do
  let x ← a.toNumber
  let y ← b.toNumber
  let e ← match epsilon with
    | ratio q => .ok q
    | _ => do Number.tolerance (← epsilon.toNumber)
  Number.near e x.toScalar y.toScalar

end Operand

end Reckon
