/-
Expressions in postfix order. `arrange` moves every operator behind its operands by precedence, and
`run` evaluates the result on a stack. A minus sign before an operand is a negation, a plus sign
there says nothing. The word `neg` as an operand is the negation too.
-/
import Reckon.Calculator.Token

namespace Reckon.Calculator

/-- A step of an expression in postfix order. -/
inductive Item
  | name (s : String)
  | literal (s : String)
  | operator (op : Operator)
  | negate
  | call (f : Function) (args : Nat)
  deriving DecidableEq, Repr, Inhabited

/-- The word that stands for the negation. -/
def negationWord : String := "neg"

/-- A word as an operand. -/
def Item.ofWord (s : String) : Item := if s = negationWord then .negate else .name s

/-! ## Ordering by precedence -/

/-- What waits for its operands or its closing bracket. A call counts its arguments. -/
inductive Pending
  | operator (op : Operator)
  | negate
  | bracket
  | call (f : Function) (args : Nat)
  deriving DecidableEq, Repr, Inhabited

/-- The item and the precedence of what is not a bracket. -/
def Pending.release? : Pending → Option (Item × Nat)
  | operator op => some (.operator op, op.precedence)
  | negate => some (.negate, negationPrecedence)
  | bracket | call .. => none

/-- Releases what binds before an operator, in front of the output so far, which is kept in
reverse. -/
def releaseBefore (op : Operator) : List Pending → List Item → List Pending × List Item
  | p :: stack, output =>
    match p.release? with
    | some (item, precedence) =>
      if op.precedence < precedence || (precedence == op.precedence && !op.groupsRight) then
        releaseBefore op stack (item :: output)
      else (p :: stack, output)
    | none => (p :: stack, output)
  | [], output => ([], output)

/-- Releases everything down to the innermost open bracket. -/
def releaseAll : List Pending → List Item → List Pending × List Item
  | p :: stack, output =>
    match p.release? with
    | some (item, _) => releaseAll stack (item :: output)
    | none => (p :: stack, output)
  | [], output => ([], output)

/-- One more argument for the innermost open call, if there is one. -/
def countArgument : List Pending → Option (List Pending)
  | .call f n :: stack => some (.call f (n + 1) :: stack)
  | p :: stack => (countArgument stack).map (p :: ·)
  | [] => none

/-- The order of the remaining tokens. With `start` an operand is expected next. -/
def arrangeFrom : List Token → (start : Bool) → List Pending → List Item → Outcome (List Item)
  | [], _, stack, output =>
    match releaseAll stack output with
    | ([], output) => .ok output.reverse
    | _ => fail .strayOpen
  | .operator op :: rest, start, stack, output =>
    if start && op == .add then arrangeFrom rest start stack output
    else if start && op == .sub then arrangeFrom rest start (.negate :: stack) output
    else
      let (stack, output) := releaseBefore op stack output
      arrangeFrom rest true (.operator op :: stack) output
  | .word s :: .opening :: rest, _, stack, output =>
    match Function.ofName? s with
    | some f =>
      let args := if rest.head? == some .closing then 0 else 1
      arrangeFrom rest true (.call f args :: stack) output
    | none => arrangeFrom rest true (.bracket :: stack) (.ofWord s :: output)
  | .word s :: rest, _, stack, output => arrangeFrom rest false stack (.ofWord s :: output)
  | .literal s :: rest, _, stack, output => arrangeFrom rest false stack (.literal s :: output)
  | .blank :: _, _, _, _ => .error .position
  | .opening :: rest, _, stack, output => arrangeFrom rest true (.bracket :: stack) output
  | .comma :: rest, _, stack, output =>
    let (stack, output) := releaseAll stack output
    match countArgument stack with
    | some stack => arrangeFrom rest true stack output
    | none => fail .strayComma
  | .closing :: rest, _, stack, output =>
    match releaseAll stack output with
    | (.call f n :: stack, output) => arrangeFrom rest false stack (.call f n :: output)
    | (_ :: stack, output) => arrangeFrom rest false stack output
    | ([], _) => fail .strayClose

/-- The items of an expression in postfix order. -/
def arrange (tokens : List Token) : Outcome (List Item) := arrangeFrom tokens true [] []

/-! ## Evaluation -/

/-- One item on a stack of values, the last value first. -/
def step (lookup : Item → Outcome Number) (stack : List Number) (item : Item) :
    Outcome (List Number) :=
  match item with
  | .call f n => do
    if n ≠ f.arity ∨ stack.length < n then fail (.argumentCount f.name f.arity)
    else .ok ((← f.apply (stack.take n).reverse) :: stack.drop n)
  | .negate =>
    match stack with
    | x :: stack => .ok (x.neg :: stack)
    | [] => fail (.missingOperand "-")
  | .operator op =>
    match stack with
    | b :: a :: stack => do .ok ((← op.apply a b) :: stack)
    | _ => fail (.missingOperand op.symbol)
  | .name _ | .literal _ => do .ok ((← lookup item) :: stack)

/-- The value of an expression in postfix order. -/
def run (lookup : Item → Outcome Number) (items : List Item) : Outcome Number := do
  if items.isEmpty then fail .emptyExpression
  else
    match ← items.foldlM (step lookup) [] with
    | [x] => .ok x
    | _ => fail .malformedExpression

end Reckon.Calculator
