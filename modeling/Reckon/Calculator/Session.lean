/-
A calculator session: named values, and lines that are run one after the other. A line is a
command, an assignment or an expression. A failing line leaves the values as they were; a numeric
failure is reported by its code, any other failure is the outcome of the line.
-/
import Reckon.Calculator.Postfix
import Reckon.Notation.Reader
import Reckon.Notation.Writer
import Reckon.Real.Functions

namespace Reckon.Calculator

/-- The values of a session, in the order in which their names were first assigned. -/
structure Session where
  bindings : List (String × Number)
  deriving Repr, Inhabited

/-! ## Operands -/

/-- The constant of a name in any case. -/
def constant? (name : String) : Option Number :=
  match String.ofList (Text.lowerAll name.toList) with
  | "inf" | "infinity" => some (.ofReal (.infinite false))
  | "nan" => some (.ofReal .nan)
  | "i" => some (.scalar (.complex .zero .one))
  | key => (Real.constant? key).map .ofReal

/-- A literal: in a marked radix or of digits alone it is an integer, else a scalar. -/
def literal (s : String) : Outcome Number :=
  let cs := s.toList
  let digits := String.ofList (cs.drop 2)
  match Text.lowerAll (cs.take 2) with
  | ['0', 'x'] => (Notation.readHex s).map .ofInt
  | ['0', 'b'] => (Notation.readRadix digits 2).map .ofInt
  | ['0', 'o'] => (Notation.readRadix digits 8).map .ofInt
  | _ =>
    if !cs.isEmpty && cs.all Text.isDigit then (Notation.readInteger s).map .ofInt
    else (Notation.readScalar s).map .scalar

namespace Session

/-- A session without values. -/
def empty : Session := ⟨[]⟩

/-- The value of a name. -/
def value? (s : Session) (name : String) : Option Number := s.bindings.lookup name

/-- Assigns a value: in the place of the name if it has one, else at the end. -/
def assign (s : Session) (name : String) (x : Number) : Session :=
  if s.bindings.any fun v => v.1 == name then
    ⟨s.bindings.map fun v => if v.1 == name then (name, x) else v⟩
  else ⟨s.bindings ++ [(name, x)]⟩

/-- The value of an operand. Assigned names hide constants. -/
def operand (s : Session) : Item → Outcome Number
  | .name name =>
    match s.value? name, constant? name with
    | some x, _ | none, some x => .ok x
    | none, none => fail (.unknownName name)
  | .literal text => literal text
  | _ => fail .malformedExpression

/-- The value of an expression. -/
def evaluate (s : Session) (expression : String) : Outcome Number := do
  let items ← arrange ((← lexemes expression).map Token.ofLexeme)
  run s.operand items

/-! ## Answers -/

/-- A truth value as a word. -/
def truthWord (b : Bool) : String := if b then "True" else "False"

/-- The lines that describe a scalar after its type and value. -/
def describeScalar (z : Scalar) : List String :=
  let sign := "    Negative: " ++ truthWord z.isNegative
  if z.isNaN then ["    Special: NaN (Not a Number)"]
  else if z.isInfinite then ["    Special: Infinity", sign]
  else
    let kind :=
      if z.isComplex then "Complex"
      else if z.isIrrational then "Irrational"
      else if z.isRecurring then "Recurring Decimal"
      else "Real"
    ("    Type: " ++ kind) :: if z.isZero then [] else [sign]

/-- The description of a number. -/
def describe (x : Number) : Outcome String := do
  let text ← Notation.render x
  let value := "    Value: " ++ text
  let lines := match x with
    | .integer n =>
      ["Type: Integer", value, "    Negative: " ++ truthWord (n.value < 0),
        "    Zero: " ++ truthWord (n.value == 0)]
    | .scalar z => "Type: Float" :: value :: describeScalar z
  .ok ("\n".intercalate lines)

/-- A display of integers in a radix: its command, the mark in front of the digits, its name. -/
structure RadixDisplay where
  command : String
  radix : Int
  mark : String
  label : String

/-- The displays of integers in a radix. -/
def radixDisplays : List RadixDisplay :=
  [⟨"hex", 16, "0x", "Hexadecimal"⟩, ⟨"bin", 2, "0b", "Binary"⟩, ⟨"oct", 8, "0o", "Octal"⟩]

/-- A number in a radix. The sign comes before the mark. -/
def RadixDisplay.text (r : RadixDisplay) (x : Number) : Outcome String :=
  match x with
  | .integer n => do
    .ok (Notation.signText (n.value < 0) ++ r.mark ++ (← Notation.toRadix n.value.natAbs r.radix))
  | .scalar _ => .ok (r.label ++ " display only available for integers")

/-- The text between a command with an opening bracket and a closing bracket at the end. -/
def argument? (command line : String) : Option String :=
  let opening := command.toList ++ ['(']
  let cs := line.toList
  if opening.isPrefixOf cs && cs.getLast? == some ')' then
    some (String.ofList (cs.drop opening.length).dropLast)
  else none

/-- The answer to a line that has the form of a command with an argument. -/
def display? (s : Session) (line : String) : Option (Outcome String) :=
  match radixDisplays.findSome? fun r => (argument? r.command line).map fun e => (r, e) with
  | some (r, e) => some do r.text (← s.evaluate e)
  | none => (argument? "info" line).map fun e => do describe (← s.evaluate e)

/-- The name of the program and its version. -/
def banner : String := "arbnum calculator v0.1.0"

/-- The answer to `help`. -/
def helpText : String :=
  "\n".intercalate
    [banner,
      "Operators:  + - * / % ^   == != < > <= >=   ( )",
      "Functions:  sqrt abs sin cos tan ln exp log10 log(x, base) floor ceil",
      "            round(x, n) trunc(x, n) conj",
      "Numbers:    123  123.45  0.1(6)  1.5e10  3+4i  2i  0x1F  0b1010  0o17",
      "Constants:  pi e phi sqrt2 inf nan i",
      "Variables:  x = 42",
      "Commands:   info(x) hex(x) bin(x) oct(x) vars clear help quit"]

/-- The answer to `vars`. -/
def listing (s : Session) : Outcome String := do
  if s.bindings.isEmpty then .ok "No variables defined."
  else
    let lines ← s.bindings.mapM fun (name, x) => do
      .ok ("  " ++ name ++ " = " ++ (← Notation.render x))
    .ok ("\n".intercalate ("Variables:" :: lines))

/-! ## Lines -/

/-- The name and the expression of an assignment: what stands on the two sides of the first equals
sign, unless it belongs to a comparison. -/
def splitAssignment (line : String) : Option (String × String) :=
  let cs := line.toList
  let before := cs.takeWhile (· != '=')
  match cs.dropWhile (· != '=') with
  | '=' :: c :: after =>
    let compares := c == '=' || before.getLast?.any fun d => ['!', '<', '>'].contains d
    let name := Text.trim before
    if before.isEmpty || compares || !Text.isName name then none
    else some (String.ofList name, String.ofList (Text.trim (c :: after)))
  | _ => none

/-- Runs an assignment, a command with an argument or an expression. The value is stored before it
is shown. -/
def calculate (s : Session) (line : String) : Session × Outcome String :=
  match splitAssignment line with
  | some (name, expression) =>
    match s.evaluate expression with
    | .ok x => (s.assign name x, (Notation.render x).map fun text => name ++ " = " ++ text)
    | .error e => (s, .error e)
  | none =>
    match s.display? line with
    | some answer => (s, answer)
    | none => (s, do .ok ("    = " ++ (← Notation.render (← s.evaluate line))))

/-- The report of a code. -/
def report (c : ErrorCode) : String := "error [" ++ Digits.ofInt c.number ++ "]: " ++ c.message

/-- A numeric failure becomes its report; every other outcome stays. -/
def reported (answer : Outcome String) : Outcome String :=
  match answer with
  | .error e =>
    match e.code? with
    | some c => .ok (report c)
    | none => .error e
  | answer => answer

/-- Runs one line; a blank one has no answer. -/
def execute (s : Session) (line : String) : Session × Outcome (Option String) :=
  match String.ofList (Text.trim line.toList) with
  | "" => (s, .ok none)
  | "help" | "?" => (s, .ok (some helpText))
  | "clear" => (empty, .ok (some "All variables cleared."))
  | "vars" => (s, s.listing.map some)
  | line =>
    let (s, answer) := s.calculate line
    (s, (reported answer).map some)

/-- Runs lines one after the other. -/
def executeAll (s : Session) : List String → Session × List (Outcome (Option String))
  | [] => (s, [])
  | line :: lines =>
    let (s, answer) := s.execute line
    let (s, answers) := s.executeAll lines
    (s, answer :: answers)

end Session

end Reckon.Calculator
