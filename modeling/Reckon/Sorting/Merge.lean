/-
Merging two sorted runs. The order is a test that may fail and of which nothing is assumed: among
values that are below nothing the result depends on the tests that are made, so the tests belong to
the definition. Elements are compared one by one until one run has won several times in a row; from
then on whole stretches are located by a search in doubling steps.
-/
import Reckon.Failure

namespace Reckon.Sorting

/-! ## Search -/

/-- The first index between `lo` and `hi` that fails a test, by halving. -/
def bisect (test : Nat → Outcome Bool) (lo hi : Nat) : Outcome Nat :=
  if h : lo < hi then do
    let mid := (lo + hi) / 2
    if ← test mid then bisect test (mid + 1) hi else bisect test lo mid
  else .ok hi
termination_by hi - lo
decreasing_by all_goals omega

/-- Doubles the distance `far` as long as it passes a test. The last distance that passed, from
`near` on, and the first one that is not known to pass, which is at most `limit`. -/
def stride (test : Nat → Outcome Bool) (limit near far : Nat) : Outcome (Nat × Nat) :=
  if h : far < limit then do
    if ← test far then stride test limit far (2 * far + 1) else .ok (near, far)
  else .ok (near, limit)
termination_by limit - far

/-- The first of `n` indices that fails a test, sought from `start` on in doubling steps and then by
halving. -/
def gallop (test : Nat → Outcome Bool) (n start : Nat) : Outcome Nat := do
  if ← test start then
    let (near, far) ← stride (fun k => test (start + k)) (n - start) 0 1
    bisect test (start + near + 1) (start + far)
  else
    let (near, far) ← stride (fun k => do .ok !(← test (start - k))) (start + 1) 0 1
    bisect test (start + 1 - far) (start - near)

/-! ## The state of a merge -/

/-- Two runs on their way to one. They are merged from the front or from the back; what is merged
already stands in its final order. -/
structure Merge (α : Type) where
  fromBack : Bool
  left : Array α
  right : Array α
  merged : Array α

namespace Merge

variable {α : Type}

/-- The next `k` elements of a run, and what is left of it. -/
def cut (m : Merge α) (run : Array α) (k : Nat) : Array α × Array α :=
  let n := run.size
  if m.fromBack then (run.extract (n - k) n, run.extract 0 (n - k))
  else (run.extract 0 k, run.extract k n)

/-- The merged elements with some more. -/
def extended (m : Merge α) (taken : Array α) : Array α :=
  if m.fromBack then taken ++ m.merged else m.merged ++ taken

/-- Takes elements of the left run. -/
def takeLeft (m : Merge α) (k : Nat) : Merge α :=
  let (taken, rest) := m.cut m.left k
  { m with left := rest, merged := m.extended taken }

/-- Takes elements of the right run. -/
def takeRight (m : Merge α) (k : Nat) : Merge α :=
  let (taken, rest) := m.cut m.right k
  { m with right := rest, merged := m.extended taken }

/-- The rest needs no more tests. The last element of the run that has the far end comes last. -/
def isDone (m : Merge α) : Bool :=
  if m.fromBack then m.left.isEmpty || m.right.size ≤ 1 else m.right.isEmpty || m.left.size ≤ 1

/-- All elements, the rest behind or in front of what is merged. -/
def result (m : Merge α) : Array α :=
  if m.fromBack then m.right ++ m.left ++ m.merged else m.merged ++ m.right ++ m.left

variable [Inhabited α]

/-- The next element of a run. -/
def next (m : Merge α) (run : Array α) : α :=
  run.getD (if m.fromBack then run.size - 1 else 0) default

/-- How many elements of a run can be taken at once; those in front pass a test. -/
def stretch (m : Merge α) (run : Array α) (test : α → Outcome Bool) : Outcome Nat := do
  let n := run.size
  let i ← gallop (fun i => test (run.getD i default)) n (if m.fromBack then n - 1 else 0)
  .ok (if m.fromBack then n - i else i)

end Merge

/-! ## Merging -/

variable {α : Type} [Inhabited α]

/-- A stretch this long keeps the search in doubling steps going. -/
def longStretch : Nat := 7

mutual

/-- Merges by single comparisons, until one run has won `patience` times in a row: `rightWon` says
which one won last, and `wins` how often. Each round takes an element, so `fuel` counts elements. The
result comes with the patience for later merges. -/
def single (less : α → α → Outcome Bool) :
    (fuel patience : Nat) → (rightWon : Bool) → (wins : Nat) → Merge α → Outcome (Nat × Array α)
  | 0, patience, _, _, m => .ok (patience, m.result)
  | fuel + 1, patience, rightWon, wins, m => do
    let rightWins := (← less (m.next m.right) (m.next m.left)) != m.fromBack
    let m := if rightWins then m.takeRight 1 else m.takeLeft 1
    let wins := if rightWins == rightWon then wins + 1 else 1
    if m.isDone then .ok (patience, m.result)
    else if patience ≤ wins then stretches less fuel patience m
    else single less fuel patience rightWins wins m

/-- Merges by stretches, as long as they are long. This lowers the patience, leaving it raises it. -/
def stretches (less : α → α → Outcome Bool) :
    (fuel patience : Nat) → Merge α → Outcome (Nat × Array α)
  | 0, patience, m => .ok (patience, m.result)
  | fuel + 1, patience, m => do
    let j ← m.stretch m.left fun x => do .ok !(← less (m.next m.right) x)
    let m := m.takeLeft j
    if m.isDone then return (patience, m.result)
    let m := m.takeRight 1
    if m.isDone then return (patience, m.result)
    let k ← m.stretch m.right fun y => less y (m.next m.left)
    let m := m.takeRight k
    if m.isDone then return (patience, m.result)
    let m := m.takeLeft 1
    if m.isDone then return (patience, m.result)
    if longStretch ≤ j || longStretch ≤ k then
      stretches less fuel (if 1 < patience then patience - 1 else patience) m
    else single less fuel (patience + 1) false 0 m

end

/-- Merges two neighbouring runs. What the left run has at its front and the right run at its back
stays in place; the shorter rest decides the direction. -/
def merge (less : α → α → Outcome Bool) (patience : Nat) (a b : Array α) :
    Outcome (Nat × Array α) := do
  let j ← gallop (fun i => do .ok !(← less (b.getD 0 default) (a.getD i default))) a.size 0
  if j = a.size then return (patience, a ++ b)
  let last := a.getD (a.size - 1) default
  let k ← gallop (fun i => less (b.getD i default) last) b.size (b.size - 1)
  if k = 0 then return (patience, a ++ b)
  let m : Merge α := ⟨k < a.size - j, a.extract j a.size, b.extract 0 k, #[]⟩
  let m := if m.fromBack then m.takeLeft 1 else m.takeRight 1
  let (patience, merged) ←
    if m.isDone then pure (patience, m.result)
    else single less (a.size + b.size) patience false 0 m
  .ok (patience, a.extract 0 j ++ merged ++ b.extract k b.size)

end Reckon.Sorting
