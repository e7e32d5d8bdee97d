/-
The program: reads lines and prints answers. What a line means and what is printed is decided by
`Calculator.CommandLine`.
-/
import Reckon.Calculator.CommandLine

namespace Reckon.Calculator.CommandLine

/-- Prints an outcome, or reports a failure that has no answer. -/
def printOutcome (answer : Outcome String) : IO Unit := do
  match answer with
  | .ok text => do
    let out ← IO.getStdout
    out.putStr text
    out.flush
  | .error e => throw (IO.userError (e.message?.getD "the line has no answer"))

/-- Prompts for lines and answers them until the session or the input ends. -/
partial def talk (s : Session) : IO Unit := do
  printOutcome (.ok prompt)
  let line ← (← IO.getStdin).getLine
  if line.isEmpty then return
  let (next, answer) := respond s (String.ofList (Text.trim line.toList))
  printOutcome answer
  if let some s := next then talk s

/-- Runs what the arguments ask for; the result is the status of the program. -/
def program (args : List String) : IO UInt32 := do
  match request args with
  | .usage =>
    printOutcome (.ok usage)
    return 1
  | .expression text =>
    let answer := single text
    printOutcome (answer.map (·.2))
    return if (answer.map (·.1)).toOption = some 0 then 0 else 1
  | .conversation =>
    printOutcome (.ok greeting)
    talk .empty
    return 0

end Reckon.Calculator.CommandLine

/-- The calculator on the command line. -/
def main (args : List String) : IO UInt32 := Reckon.Calculator.CommandLine.program args
