/-
The operators and functions of the calculator. Unlike the operations on numbers, its division and
remainder always work on scalars, so seven halves are three and a half.
-/
import Reckon.Operand.Basic

namespace Reckon.Calculator

/-! ## Operators -/

/-- An operator between two operands. -/
inductive Operator
  | add | sub | mul | div | mod | power
  | equal | notEqual | less | greater | lessOrEqual | greaterOrEqual
  deriving DecidableEq, Repr, Inhabited

namespace Operator

/-- All operators. -/
def all : List Operator :=
  [add, sub, mul, div, mod, power, equal, notEqual, less, greater, lessOrEqual, greaterOrEqual]

/-- The sign of an operator. -/
def symbol : Operator → String
  | add => "+" | sub => "-" | mul => "*" | div => "/" | mod => "%" | power => "^"
  | equal => "==" | notEqual => "!=" | less => "<" | greater => ">"
  | lessOrEqual => "<=" | greaterOrEqual => ">="

/-- The operator with a given sign. -/
def ofSymbol? (s : String) : Option Operator := all.find? fun op => op.symbol == s

/-- An operator of higher precedence binds tighter. -/
def precedence : Operator → Nat
  | equal | notEqual | less | greater | lessOrEqual | greaterOrEqual => 1
  | add | sub => 2
  | mul | div | mod => 3
  | power => 5

/-- Operators of equal precedence are grouped from the right. -/
def groupsRight : Operator → Bool
  | power => true
  | _ => false

/-- A truth value as a number. -/
def truth (b : Bool) : Number := .ofInt (if b then 1 else 0)

/-- An operation on the operands as scalars. -/
def onScalars (f : Scalar → Scalar → Outcome Scalar) (a b : Number) : Outcome Number :=
  (f a.toScalar b.toScalar).map .scalar

/-- A test of the order of the operands. -/
def test (p : Ordering → Bool) (a b : Number) : Outcome Number := do
  .ok (truth (p (← Number.compare a b)))

/-- The result of an operator. -/
def apply : Operator → Number → Number → Outcome Number
  | add, a, b => a.add b
  | sub, a, b => a.sub b
  | mul, a, b => a.mul b
  | div, a, b => onScalars Scalar.div a b
  | mod, a, b => onScalars Scalar.mod a b
  | power, a, b => a.power b
  | equal, a, b => do .ok (truth (← a.equals b))
  | notEqual, a, b => do .ok (truth !(← a.equals b))
  | less, a, b => test (· == .lt) a b
  | greater, a, b => test (· == .gt) a b
  | lessOrEqual, a, b => test (· != .gt) a b
  | greaterOrEqual, a, b => test (· != .lt) a b

end Operator

/-- The precedence of a minus sign in front of an operand: above a product, below a power. -/
def negationPrecedence : Nat := 4

/-! ## Functions -/

/-- A function that expressions can call. -/
inductive Function
  | sqrt | abs | sin | cos | tan | ln | exp | log10 | log | floor | ceil | round | trunc | conj
  deriving DecidableEq, Repr, Inhabited

namespace Function

/-- All functions. -/
def all : List Function :=
  [sqrt, abs, sin, cos, tan, ln, exp, log10, log, floor, ceil, round, trunc, conj]

/-- The name of a function. -/
def name : Function → String
  | sqrt => "sqrt" | abs => "abs" | sin => "sin" | cos => "cos" | tan => "tan" | ln => "ln"
  | exp => "exp" | log10 => "log10" | log => "log" | floor => "floor" | ceil => "ceil"
  | round => "round" | trunc => "trunc" | conj => "conj"

/-- The function of a name in any case. -/
def ofName? (s : String) : Option Function :=
  let key := Text.lowerAll s.toList
  all.find? fun f => f.name.toList == key

/-- How many arguments a function takes. -/
def arity : Function → Nat
  | log | round | trunc => 2
  | _ => 1

/-- A number of decimal places. -/
def places : Number → Outcome Int
  | .integer n => .ok n.value
  | .scalar _ => fail .placesNotInteger

/-- The result of a function on as many arguments as it takes. -/
def apply (f : Function) (args : List Number) : Outcome Number :=
  match f, args with
  | sqrt, [x] => x.sqrt
  | abs, [x] => x.abs
  | sin, [x] => x.sin
  | cos, [x] => x.cos
  | tan, [x] => x.tan
  | ln, [x] => x.ln
  | exp, [x] => x.exp
  | log10, [x] => x.log10
  | log, [x, base] => x.log base
  | floor, [x] => (Number.scalar x.toScalar).floor
  | ceil, [x] => (Number.scalar x.toScalar).ceil
  | round, [x, n] => do (Number.scalar x.toScalar).roundTo (← places n)
  | trunc, [x, n] => do (Number.scalar x.toScalar).truncate (← places n)
  | conj, [x] => .ok x.conj
  | _, _ => fail (.argumentCount f.name f.arity)

end Function

end Reckon.Calculator
