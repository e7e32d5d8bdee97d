/-
The tokens of an expression. A text is cut into lexemes, which together are the text without its
blanks; a token is a lexeme with its role.
-/
import Reckon.Calculator.Operation

namespace Reckon.Calculator

/-! ## Lexemes -/

/-- A character that a word can have after its first. -/
def isWordPart (c : Char) : Bool := Text.isLetterOrNumeral c || c == '_'

/-- A character that a word can start with. -/
def isWordStart (c : Char) : Bool := Text.isLetter c || c == '_'

/-- The letters that turn a leading zero into the mark of a radix. -/
def isRadixMark (c : Char) : Bool := ['x', 'X', 'b', 'B', 'o', 'O'].contains c

/-- The length of a cycle in brackets at the start of a text. -/
def cycleLength : List Char → Nat
  | '(' :: cs =>
    let n := (cs.takeWhile Text.isDigit).length
    if n != 0 && (cs.drop n).head? == some ')' then n + 2 else 0
  | _ => 0

/-- The length of a power of ten at the start of a text; without digits it is none. -/
def powerLength : List Char → Nat
  | c :: cs =>
    if c == 'e' || c == 'E' then
      let sign := if cs.head? == some '+' || cs.head? == some '-' then 1 else 0
      let n := ((cs.drop sign).takeWhile Text.isDigit).length
      if n = 0 then 0 else 1 + sign + n
    else 0
  | [] => 0

/-- The length of an imaginary unit at the start of a text; it must not begin a longer word. -/
def unitLength : List Char → Nat
  | 'i' :: cs => if cs.head?.any isWordPart then 0 else 1
  | _ => 0

/-- How many characters a number has that starts with a digit or a point. -/
def numberLength (cs : List Char) : Nat :=
  match cs with
  | '0' :: m :: rest =>
    if isRadixMark m then 2 + (rest.takeWhile isWordPart).length else plainLength cs
  | _ => plainLength cs
where
  /-- The length without a mark of a radix: digits and points, a cycle, a power, a unit. -/
  plainLength (cs : List Char) : Nat :=
    let n := (cs.takeWhile fun c => Text.isDigit c || c == '.').length
    let n := n + cycleLength (cs.drop n)
    let n := n + powerLength (cs.drop n)
    n + unitLength (cs.drop n)

/-- The operators of two characters. -/
def isPair (c d : Char) : Bool := d == '=' && ['=', '!', '>', '<'].contains c

/-- The signs that stand for themselves. -/
def isSign (c : Char) : Bool := "+-*/%^()<>,".toList.contains c

/-- How many characters after `c` belong to the lexeme that starts there; none if nothing can start
with `c`. -/
def lexemeTail (c : Char) (cs : List Char) : Option Nat :=
  if cs.head?.any (isPair c) then some 1
  else if isSign c then some 0
  else if Text.isDigit c || c == '.' then some (numberLength (c :: cs) - 1)
  else if isWordStart c then some (cs.takeWhile isWordPart).length
  else none

/-- The lexemes of a text that starts at position `i`. -/
def lexemesFrom (i : Nat) (cs : List Char) : Outcome (List String) :=
  match cs with
  | [] => .ok []
  | c :: cs =>
    if Text.isBlank c then lexemesFrom (i + 1) cs
    else
      match lexemeTail c cs with
      | none => fail (.unexpectedCharacter c i)
      | some k => do
        let rest ← lexemesFrom (i + 1 + k) (cs.drop k)
        .ok (String.ofList (c :: cs.take k) :: rest)
termination_by cs.length
decreasing_by all_goals (simp only [List.length_cons, List.length_drop]; omega)

/-- The lexemes of a text. -/
def lexemes (text : String) : Outcome (List String) := lexemesFrom 0 text.toList

/-! ## Roles -/

/-- A lexeme with its role. -/
inductive Token
  | operator (op : Operator)
  | opening
  | closing
  | comma
  | word (s : String)
  | literal (s : String)
  /-- A lexeme without characters. -/
  | blank
  deriving DecidableEq, Repr, Inhabited

/-- The role of a lexeme. What is no sign and does not start like a word is a literal. -/
def Token.ofLexeme (s : String) : Token :=
  match Operator.ofSymbol? s, s with
  | some op, _ => .operator op
  | none, "(" => .opening
  | none, ")" => .closing
  | none, "," => .comma
  | none, "" => .blank
  | none, s => if s.toList.head?.any isWordStart then .word s else .literal s

end Reckon.Calculator
