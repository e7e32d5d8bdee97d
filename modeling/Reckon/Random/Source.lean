/-
A source of random draws. A sampler asks a source for one draw after the other; every request is
recorded, also the one that finds no draw left. A source is given as the list of its draws, so a
sampler is a function of them.
-/
import Reckon.Failure
import Reckon.Binary.Shortest

namespace Reckon.Random

/-- What a sampler asks for. -/
inductive Request
  /-- A double from zero up to one, one excluded. -/
  | unit
  /-- A double with a normal distribution. -/
  | normal (mean deviation : Double)
  | bytes (count : Nat)
  /-- A whole number from `low` up to `high`, `high` excluded. -/
  | below (low high : Int)
  /-- A place in a list of the given length. -/
  | choice (count : Nat)
  deriving DecidableEq, Repr

/-- How a request is written in a record. -/
def Request.text : Request → String
  | unit => "random"
  | normal mean deviation => "normal(" ++ mean.text ++ ", " ++ deviation.text ++ ")"
  | bytes count => "bytes(" ++ Digits.ofInt count ++ ")"
  | below low high => "integers(" ++ Digits.ofInt low ++ ", " ++ Digits.ofInt high ++ ")"
  | choice count => "choice(" ++ Digits.ofInt count ++ ")"

/-- A drawn value. -/
inductive Draw
  | real (x : Double)
  | bytes (bs : List Nat)
  | whole (n : Int)
  deriving DecidableEq, Repr

/-- The draws that are left and the requests so far, the latest first. -/
structure Record where
  remaining : List Draw
  requests : List Request
  deriving Repr

/-- Why a sampler gave no result. -/
inductive Stop
  /-- The source has no draw left. -/
  | exhausted
  | failed (reason : Failure)
  deriving DecidableEq, Repr

/-- A computation that asks for draws. -/
abbrev Sampler (α : Type) := ExceptT Stop (StateM Record) α

namespace Sampler

/-- An outcome that needs no draw. -/
def ofOutcome {α : Type} : Outcome α → Sampler α
  | .ok x => pure x
  | .error e => throw (.failed e)

/-- The next draw. -/
def ask (r : Request) : Sampler Draw := do
  let s ← get
  match s.remaining with
  | [] => do
    set (⟨[], r :: s.requests⟩ : Record)
    throw .exhausted
  | d :: rest => do
    set (⟨rest, r :: s.requests⟩ : Record)
    pure d

/-- The next draw, which has to be of the form that was asked for. -/
def askFor {α : Type} (r : Request) (form : Draw → Option α) : Sampler α := do
  match form (← ask r) with
  | some x => pure x
  | none => throw (.failed .mismatch)

/-- Asks until a draw is accepted, at most `fuel` times. -/
def askWithin {α : Type} (r : Request) (form : Draw → Option (Option α)) : (fuel : Nat) → Sampler α
  | 0 => throw .exhausted
  | fuel + 1 => do
    match ← askFor r form with
    | some x => pure x
    | none => askWithin r form fuel

/-- Asks until a draw is accepted. Every request uses up a draw, so there can be at most one more
than there are draws. -/
def askUntil {α : Type} (r : Request) (form : Draw → Option (Option α)) : Sampler α := do
  askWithin r form ((← get).remaining.length + 1)

/-- The result for the given draws, and the record at the end. -/
def runOn {α : Type} (m : Sampler α) (draws : List Draw) : Except Stop α × Record :=
  m.run.run ⟨draws, []⟩

end Sampler

end Reckon.Random
