/-
A stable sort by natural runs. The list is read as runs that are already sorted, or sorted backwards;
short ones are filled up by insertion. Neighbouring runs are merged in the order of a nearly
balanced tree: the boundary of two runs has the depth at which halving the list first separates the
middles of the two.
-/
import Reckon.Sorting.Merge

namespace Reckon.Sorting

variable {α : Type} [Inhabited α]

/-! ## Finding runs -/

/-- The longest run at the start of a list after `last`: values each below the one before if
`falling`, else each not below it. Also what follows the run. -/
def splitRun (less : α → α → Outcome Bool) (falling : Bool) (last : α) :
    List α → Outcome (List α × List α)
  | [] => .ok ([], [])
  | x :: xs => do
    if (← less x last) == falling then
      let (run, rest) ← splitRun less falling x xs
      .ok (x :: run, rest)
    else .ok ([], x :: xs)

/-- Inserts values one by one into a sorted array, each behind those that it is not below. -/
def insertAll (less : α → α → Outcome Bool) (a : Array α) : List α → Outcome (Array α)
  | [] => .ok a
  | x :: xs => do
    let i ← bisect (fun i => do .ok !(← less x (a.getD i default))) 0 a.size
    insertAll less (a.insertIdxIfInBounds i x) xs

/-- The first run of a list, filled up to `least` values as far as there are any, and the rest. A
falling run is turned round. -/
def takeRun (less : α → α → Outcome Bool) (least : Nat) : List α → Outcome (Array α × List α)
  | x :: y :: rest => do
    let falling ← less y x
    let (run, rest) ← splitRun less falling y rest
    let run := if falling then (x :: y :: run).reverse else x :: y :: run
    let missing := least - run.length
    .ok (← insertAll less run.toArray (rest.take missing), rest.drop missing)
  | xs => .ok (xs.toArray, [])

/-- The least length of a run in a list of `n` values: `n` divided by a power of two that leaves
less than 64, and one more if the division is not exact. -/
def leastRun (n remainder : Nat) : Nat :=
  if 64 ≤ n then leastRun (n / 2) (max remainder (n % 2)) else n + remainder
termination_by n
decreasing_by omega

/-! ## The pending runs -/

/-- A run at its place in the list, with the depth of the boundary behind it. -/
structure Run (α : Type) where
  start : Nat
  items : Array α
  depth : Nat

/-- The first binary place at which `a / n` and `b / n` differ, for `a` below `b` and both below
`2 n`; the leading places are those of the integer parts. -/
def boundaryDepth : (fuel n a b : Nat) → Nat
  | 0, _, _, _ => 0
  | fuel + 1, n, a, b =>
    if n ≤ a then boundaryDepth fuel n (2 * (a - n)) (2 * (b - n)) + 1
    else if n ≤ b then 1
    else boundaryDepth fuel n (2 * a) (2 * b) + 1

/-- The depth of the boundary behind a run, from twice the middles of it and of the next run. -/
def Run.depthBefore (n : Nat) (r : Run α) (nextSize : Nat) : Nat :=
  let a := 2 * r.start + r.items.size
  boundaryDepth n n a (a + r.items.size + nextSize)

/-- Merges a run with those below it, the last of which comes first, while their boundaries lie
deeper than the one behind it. -/
def collapse (less : α → α → Outcome Bool) (patience : Nat) (top : Run α) :
    List (Run α) → Outcome (Nat × List (Run α))
  | below :: rest =>
    if top.depth < below.depth then do
      let (patience, items) ← merge less patience below.items top.items
      collapse less patience ⟨below.start, items, top.depth⟩ rest
    else .ok (patience, top :: below :: rest)
  | [] => .ok (patience, [top])

/-- Merges all runs that are left. Of three runs the middle one goes to the shorter neighbour. -/
def collapseAll (less : α → α → Outcome Bool) (patience : Nat) (top : Run α) :
    List (Run α) → Outcome (Array α)
  | [] => .ok top.items
  | [below] => do .ok (← merge less patience below.items top.items).2
  | below :: lower :: rest => do
    if lower.items.size < top.items.size then
      let (patience, items) ← merge less patience lower.items below.items
      collapseAll less patience top (⟨lower.start, items, 0⟩ :: rest)
    else
      let (patience, items) ← merge less patience below.items top.items
      collapseAll less patience ⟨below.start, items, 0⟩ (lower :: rest)
termination_by runs => runs.length
decreasing_by all_goals (simp only [List.length_cons]; omega)

/-- Reads runs off a list of `n` values, from the index `start` on. Each run has a value at least, so
`fuel` counts values. -/
def gather (less : α → α → Outcome Bool) (n : Nat) :
    (fuel patience start : Nat) → (pending : List (Run α)) → List α → Outcome (Array α)
  | fuel + 1, patience, start, pending, x :: xs => do
    let (items, rest) ← takeRun less (leastRun n 0) (x :: xs)
    let (patience, pending) ← match pending with
      | [] => pure (patience, [])
      | top :: below => collapse less patience { top with depth := top.depthBefore n items.size } below
    gather less n fuel patience (start + items.size) (⟨start, items, 0⟩ :: pending) rest
  | _, patience, _, top :: below, _ => collapseAll less patience top below
  | _, _, _, [], xs => .ok xs.toArray

/-- The values in ascending order, equal ones as they came. -/
def sort (less : α → α → Outcome Bool) (xs : List α) : Outcome (List α) := do
  .ok (← gather less xs.length xs.length longStretch 0 [] xs).toList

end Reckon.Sorting
