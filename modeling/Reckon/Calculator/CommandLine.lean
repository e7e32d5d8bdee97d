/-
The command line: a single expression given as an argument, or a conversation over the lines of the
input. The status of a single expression is 1 if the answer begins with the word `error`.
-/
import Reckon.Calculator.Session

namespace Reckon.Calculator.CommandLine

/-- The text in front of each input line. -/
def prompt : String := "calc> "

/-- What a conversation begins with. -/
def greeting : String := Session.banner ++ "\nType 'help' for assistance, 'quit' to exit\n"

/-- The answer to arguments that make no sense. -/
def usage : String := "Usage: arbnum [--verbose] [-e <expression>]\n"

/-- An answer as it is printed; no answer prints nothing. -/
def printed : Option String → String
  | some text => text ++ "\n"
  | none => ""

/-- The answer says that the line failed. -/
def saysError (answer : Option String) : Bool :=
  answer.any fun text => "error".toList.isPrefixOf text.toList

/-- The session after a line and what is printed; the session ends with some lines. -/
def respond (s : Session) (line : String) : Option Session × Outcome String :=
  let word := String.ofList (Text.trim line.toList)
  if word = "quit" ∨ word = "exit" then (none, .ok "Exiting!\n")
  else
    let (s, answer) := s.execute line
    (some s, answer.map printed)

/-- The conversation over the given lines; when they run out the prompt stays unanswered. -/
def converse (s : Session) : List String → Outcome String
  | [] => .ok prompt
  | line :: lines => do
    match respond s line with
    | (none, answer) => do .ok (prompt ++ (← answer))
    | (some s, answer) => do
      let text ← answer
      .ok (prompt ++ text ++ (← converse s lines))

/-- The lines of an input; a line end at the end starts no further line. -/
def inputLines (input : String) : List String :=
  let lines := input.splitOn "\n"
  if lines.getLast? = some "" then lines.dropLast else lines

/-- What the arguments ask for. -/
inductive Request
  | conversation
  | expression (text : String)
  | usage
  deriving DecidableEq, Repr

/-- The request in the arguments; the first `--verbose` counts for nothing. -/
def request (args : List String) : Request :=
  match args.erase "--verbose" with
  | [] => .conversation
  | ["-e", text] | ["--eval", text] => .expression text
  | _ => .usage

/-- A single expression: its status and what is printed. -/
def single (text : String) : Outcome (Nat × String) := do
  let answer ← (Session.empty.execute text).2
  .ok (if saysError answer then 1 else 0, printed answer)

/-- The whole program: its status, unless it just ends, and what it prints. -/
def run (args : List String) (input : String) : Outcome (Option Nat × String) :=
  match request args with
  | .usage => .ok (some 1, usage)
  | .expression text => (single text).map fun (status, shown) => (some status, shown)
  | .conversation => do
    .ok (none, greeting ++ (← converse .empty (inputLines input)))

end Reckon.Calculator.CommandLine
