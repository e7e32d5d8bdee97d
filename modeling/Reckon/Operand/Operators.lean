/-
Operators on operands. With a number of the library on either side the operation is one of the
library, with two native numbers it is theirs. A machine value on the left hands over its plain
value, and a ratio raised to a number is rounded to a double first.
-/
import Reckon.Operand.Construction
import Reckon.Operand.Order

namespace Reckon

/-- An arithmetic operator: what it does to numbers of the library, and to native ones. -/
structure Operator where
  onNumbers : Number → Number → Outcome Number
  onNatives : Operand.Arithmetic

namespace Operator

/-- The arithmetic operators. -/
def add : Operator := ⟨Number.add, .add⟩
def sub : Operator := ⟨Number.sub, .sub⟩
def mul : Operator := ⟨Number.mul, .mul⟩
def div : Operator := ⟨Number.div, .div⟩
def mod : Operator := ⟨Number.mod, .mod⟩
def pow : Operator := ⟨Number.power, .pow⟩

end Operator

namespace Operand

/-! ## Two operands -/

/-- An arithmetic operator on two operands. -/
def operator (o : Operator) (a b : Operand) : Outcome Operand :=
  if b.isOwn then (apply₂ o.onNumbers a.plain b).map number
  else if a.isOwn then (apply₂ o.onNumbers a b).map number
  else o.onNatives.apply a b

/-- The sum. -/
def add : Operand → Operand → Outcome Operand := operator .add

/-- The difference. -/
def sub : Operand → Operand → Outcome Operand := operator .sub

/-- The product. -/
def mul : Operand → Operand → Outcome Operand := operator .mul

/-- The quotient. -/
def div : Operand → Operand → Outcome Operand := operator .div

/-- The remainder. A text on the left is no number to be refused but a pattern, which has no use for
a number. -/
def mod (a b : Operand) : Outcome Operand :=
  match a with
  | text _ => .error .mismatch
  | _ => operator .mod a b

/-- The power. A ratio without a denominator counts as a whole number in the exponent of one. -/
def pow (a b : Operand) : Outcome Operand :=
  match a.whole?, a, b with
  | _, ratio _, number _ => do operator .pow (.float (← a.toDouble)) b
  | some m, _, ratio q =>
    if q.den = 1 && 0 ≤ q then operator .pow (.whole m) (.whole q.num) else operator .pow a b
  | _, _, _ => operator .pow a b

/-- An operator on bits. -/
def bitOperator (onNumbers : Number → Number → Outcome Number)
    (onNatives : Operand → Operand → Outcome Operand) (a b : Operand) : Outcome Operand :=
  match a with
  | number (.integer _) => (apply₂ onNumbers a b).map number
  | number _ => .error .mismatch
  | _ => onNatives a b

/-- The bitwise conjunction. -/
def and : Operand → Operand → Outcome Operand := bitOperator Number.bitAnd (nativeBits Integer.and)

/-- The bitwise disjunction. -/
def or : Operand → Operand → Outcome Operand := bitOperator Number.bitOr (nativeBits Integer.or)

/-- The bitwise exclusive disjunction. -/
def xor : Operand → Operand → Outcome Operand := bitOperator Number.bitXor (nativeBits Integer.xor)

/-- The left shift. -/
def shiftLeft : Operand → Operand → Outcome Operand := bitOperator Number.shiftLeft nativeShiftLeft

/-- The right shift. -/
def shiftRight : Operand → Operand → Outcome Operand :=
  bitOperator Number.shiftRight nativeShiftRight

/-- The sum of a list, from the native zero on. -/
def sum (xs : List Operand) : Outcome Operand := xs.foldlM add (.whole 0)

/-! ## One operand -/

/-- The number itself. A truth value becomes a whole number, and a decimal is brought to the working
precision. -/
def pos : Operand → Outcome Operand
  | truth b => .ok (.whole (if b then 1 else 0))
  | decimal d => decimal <$> ExtendedDecimal.Working.pos d
  | text _ | nothing | foreign _ => .error .mismatch
  | a => .ok a

/-- The number with the other sign. -/
def neg : Operand → Outcome Operand
  | number n => .ok (.number n.neg)
  | word n w => .ok (.word (w.wrap (-n)) w)
  | float x => .ok (.float x.neg)
  | scalar f x => .ok (.scalar f x.neg)
  | ratio q => .ok (.ratio (-q))
  | decimal d => decimal <$> ExtendedDecimal.Working.neg d
  | a =>
    match a.whole? with
    | some n => .ok (.whole (-n))
    | none => .error .mismatch

/-- The absolute value. That of the least word is the least word. -/
def abs : Operand → Outcome Operand
  | number n => n.abs.map .number
  | word n w => .ok (.word (w.wrap n.natAbs) w)
  | float x => .ok (.float x.abs)
  | scalar f x => .ok (.scalar f x.abs)
  | ratio q => .ok (.ratio (if q < 0 then -q else q))
  | decimal d => decimal <$> ExtendedDecimal.Working.abs d
  | a =>
    match a.whole? with
    | some n => .ok (.whole n.natAbs)
    | none => .error .mismatch

/-- All bits flipped. -/
def invert : Operand → Outcome Operand
  | number (.integer n) => .ok (.number (.ofInt (Integer.complement n.value)))
  | word n w => .ok (.word (w.wrap (Integer.complement n)) w)
  | a =>
    match a.whole? with
    | some n => .ok (.whole (Integer.complement n))
    | none => .error .mismatch

/-- The whole number that serves as an index. -/
def index : Operand → Outcome Int
  | number (.integer n) => .ok n.value
  | a =>
    match a.whole? with
    | some n => .ok n
    | none => .error .mismatch

/-- A value counts as true unless it is zero or empty. -/
def isTrue : Operand → Bool
  | number n => !n.isZero
  | text s => !s.isEmpty
  | nothing => false
  | foreign _ => true
  | a => !a.point?.any Point.isZero

end Operand

end Reckon
