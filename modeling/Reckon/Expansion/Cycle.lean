/-
Finding the repeating block in stored digits. A split into a lead and a cycle is valid if the cycle
fills the rest of the digits, the last copy possibly cut short, and appears four times in full. The
search returns the valid split with the shortest lead, and of those the one with the shortest cycle.
-/
import Reckon.Decimal.Basic

namespace Reckon.Cycle

/-- A stored repeating value holds its cycle this many times, and so often it has to appear to be
recognised. -/
def repeats : Nat := 4

/-- Displays look for a cycle in at most this many digits. -/
def scanLimit : Nat := 500

/-- A split of a digit string: where the cycle starts and how long it is. -/
structure Split where
  start : Nat
  length : Nat
  deriving DecidableEq, Repr, Inhabited

/-- The position after the last one below `k` whose digit differs from the digit `length` later;
from there on the digits repeat with that length. -/
def repeatStart (ds : Array Char) (length : Nat) : (k : Nat) → Nat
  | 0 => 0
  | k + 1 => if ds[k]? == ds[k + length]? then repeatStart ds length k else k + 1

/-- The better of the best split so far and the cycle length `length`. -/
def improve (ds : Array Char) (best : Option Split) (length : Nat) : Option Split :=
  let start := repeatStart ds length (ds.size - length)
  if ds.size - start < length * repeats then best
  else
    match best with
    | some b => if start < b.start then some ⟨start, length⟩ else best
    | none => some ⟨start, length⟩

/-- The search over the lengths from `length` on, `count` of them. A cycle that fills the whole text
cannot be improved. -/
def search (ds : Array Char) : (count length : Nat) → (best : Option Split) → Option Split
  | 0, _, best => best
  | count + 1, length, best =>
    match improve ds best length with
    | some ⟨0, n⟩ => some ⟨0, n⟩
    | next => search ds count (length + 1) next

/-- The best valid split, if there is one. -/
def best (ds : Array Char) : Option Split := search ds (ds.size / repeats) 1 none

/-- The lead and the cycle of a digit string. With a limit the split counts only if the lead and two
copies of the cycle lie within the first `limit` digits. -/
def find (digits : List Char) (limit : Option Int) : Option (List Char × List Char) :=
  match best digits.toArray with
  | none => none
  | some s =>
    let visible : Bool := match limit with
      | some m => ((s.start + 2 * s.length : Nat) : Int) ≤ m
      | none => true
    if visible then some (digits.take s.start, (digits.drop s.start).take s.length) else none

/-- The digits of a stored decimal, split: sign, digits before the point, lead and cycle. -/
structure Spelling where
  negative : Bool
  whole : List Char
  lead : List Char
  cycle : List Char
  deriving DecidableEq, Repr, Inhabited

/-- The spelling of a stored repeating value. -/
def split (d : Decimal) (limit : Option Int) : Option Spelling :=
  (find d.fractionDigits limit).map fun (lead, cycle) =>
    ⟨d.negative, d.integerDigits, lead, cycle⟩

end Reckon.Cycle
