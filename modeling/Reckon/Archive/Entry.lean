/-
Entries of an archive: single values, lists and objects with named fields. A name occurs once in an
object; storing it again replaces the value and keeps the place.
-/
import Reckon.Decimal.Writer
import Reckon.Operand.Operators
import Reckon.Notation.Writer

namespace Reckon.Archive

/-- An entry of an archive. -/
inductive Entry
  | leaf (x : Operand)
  | list (items : List Entry)
  | object (fields : List (String × Entry))
  deriving Repr

instance : Inhabited Entry := ⟨.leaf .nothing⟩

namespace Entry

/-- Stores a value under a name. -/
def put {α : Type} (fields : List (String × α)) (name : String) (value : α) : List (String × α) :=
  match fields with
  | [] => [(name, value)]
  | (n, v) :: rest => if n = name then (n, value) :: rest else (n, v) :: put rest name value

/-- An entry that is a number. -/
def number (x : Number) : Entry := .leaf (.number x)

/-- An entry that is a text. -/
def text (s : String) : Entry := .leaf (.text s)

/-- The tag of an integer. -/
def integerTag : String := "__integer__"

/-- The tag of any other number. -/
def scalarTag : String := "__float__"

/-- The tag of a number. -/
def tagOf : Number → String
  | .integer _ => integerTag
  | .scalar _ => scalarTag

/-! ## Display -/

/-- A whole number in running text, which has a limit of digits. -/
def shownWhole (n : Int) : Outcome String :=
  if Failure.digitLimit < Digits.width n.natAbs then .error .textValue else .ok (Digits.ofInt n)

/-- A value in running text. -/
def shownLeaf : Operand → Outcome String
  | .number n => Notation.render n
  | .whole n | .word n _ => shownWhole n
  | .truth b => .ok (if b then "True" else "False")
  | .float x => .ok x.text
  | .scalar _ x => .ok x.text
  | .decimal d => .ok d.text
  | .ratio q => do
    let n ← shownWhole q.num
    if q.den = 1 then .ok n else .ok (n ++ "/" ++ (← shownWhole q.den))
  | .text s => .ok s
  | .nothing => .ok "None"
  | .foreign _ => .error .mismatch

/-- A value inside a list or an object. -/
def nestedLeaf (x : Operand) : Outcome String :=
  match x with
  | .number n => Notation.inspect n
  | .word .. | .scalar .. => do .ok ("np." ++ x.typeName ++ "(" ++ (← shownLeaf x) ++ ")")
  | .decimal d => .ok ("Decimal('" ++ d.text ++ "')")
  | .ratio q => do
    let n ← shownWhole q.num
    .ok ("Fraction(" ++ n ++ ", " ++ (← shownWhole q.den) ++ ")")
  | .text s => .ok (Text.quoted s.toList)
  | _ => shownLeaf x

mutual

/-- An entry inside a list or an object. -/
def nested : Entry → Outcome String
  | .leaf x => nestedLeaf x
  | .list items => do .ok ("[" ++ ", ".intercalate (← nestedItems items) ++ "]")
  | .object fields => do .ok ("\x7b" ++ ", ".intercalate (← nestedFields fields) ++ "\x7d")

/-- The items of a list. -/
def nestedItems : List Entry → Outcome (List String)
  | [] => .ok []
  | e :: es => do
    let t ← nested e
    .ok (t :: (← nestedItems es))

/-- The fields of an object. -/
def nestedFields : List (String × Entry) → Outcome (List String)
  | [] => .ok []
  | (n, e) :: fs => do
    let t ← nested e
    .ok ((Text.quoted n.toList ++ ": " ++ t) :: (← nestedFields fs))

end

/-- An entry in running text. -/
def shown : Entry → Outcome String
  | .leaf x => shownLeaf x
  | e => nested e

end Entry

end Reckon.Archive
