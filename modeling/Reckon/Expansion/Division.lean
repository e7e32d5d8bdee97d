/-
Decimal expansions of quotients. Long division gives the integer part, the digits before the first
repetition and the repeating block; how many digits come before the block is known from the
denominator, so the block ends when the remainder at its start comes back.
-/
import Reckon.Decimal.Reader

namespace Reckon

/-- The expansion of a quotient: ±`whole`.`lead``cycle``cycle`…, with an empty cycle if it
terminates. It is not `complete` if the digit budget ran out first; then `lead` holds the digits
that were found. -/
structure Expansion where
  negative : Bool
  whole : Nat
  lead : List Char
  cycle : List Char
  complete : Bool
  deriving DecidableEq, Repr, Inhabited

namespace Expansion

/-! ## Denominators -/

/-- How often a factor divides a number, and the cofactor. -/
def factorOut (p n : Nat) : Nat × Nat :=
  if _h : 1 < p ∧ 0 < n ∧ n % p = 0 then
    let (k, m) := factorOut p (n / p)
    (k + 1, m)
  else (0, n)
termination_by n
decreasing_by exact Nat.div_lt_self _h.2.1 _h.1

/-- How many digits come before the repeating block for a denominator in lowest terms. -/
def leadLength (den : Nat) : Nat := max (factorOut 2 den).1 (factorOut 5 den).1

/-- How many digits 1 / `den` has if it terminates, which it does if two and five are the only
prime factors. -/
def terminatingPlaces? (den : Nat) : Option Nat :=
  let (twos, m) := factorOut 2 den
  let (fives, m) := factorOut 5 m
  if m = 1 then some (max twos fives) else none

/-- The same for any integer: the number of digits, or -1. -/
def placesOrMinusOne (n : Int) : Int :=
  match if 0 < n then terminatingPlaces? n.natAbs else none with
  | some k => k
  | none => -1

/-! ## Long division -/

/-- The next `count` digits of `rem / den` in front of `acc`, latest first, and the remainder. -/
def digitsFrom (den : Nat) : (count rem : Nat) → (acc : List Char) → List Char × Nat
  | 0, rem, acc => (acc, rem)
  | count + 1, rem, acc =>
    digitsFrom den count (rem * 10 % den) (Digits.digitChar (rem * 10 / den) :: acc)

/-- The digits of `rem / den`, latest first, until the remainder `start` comes back; whether it did
before `budget` digits were spent. -/
def cycleFrom (den start : Nat) : (budget rem : Nat) → (acc : List Char) → List Char × Bool
  | 0, _, acc => (acc, false)
  | budget + 1, rem, acc =>
    let acc := Digits.digitChar (rem * 10 / den) :: acc
    let rem := rem * 10 % den
    if rem = start then (acc, true) else cycleFrom den start budget rem acc

/-- The expansion of `num / den` for `0 < den`, with at most `budget` digits. -/
def ofNat (negative : Bool) (num den budget : Nat) : Expansion :=
  let whole := num / den
  let rem := num % den
  let before := leadLength (den / Nat.gcd num den)
  let (lead, rem) := digitsFrom den (min before budget) rem []
  if rem = 0 then ⟨negative, whole, lead.reverse, [], true⟩
  else if budget < before then ⟨negative, whole, lead.reverse, [], false⟩
  else
    let (cycle, complete) := cycleFrom den rem (budget - before) rem []
    if complete then ⟨negative, whole, lead.reverse, cycle.reverse, true⟩
    else ⟨negative, whole, lead.reverse ++ cycle.reverse, [], false⟩

/-- The digits that a division spends at most before it gives up on a repetition. -/
def defaultBudget : Int := 10000

/-- The expansion of a quotient of integers. -/
def divide (num den budget : Int) : Outcome Expansion :=
  if den = 0 then .error .zeroDenominator
  else .ok (ofNat ((num < 0) != (den < 0) && num != 0) num.natAbs den.natAbs budget.toNat)

/-! ## Values -/

/-- The rational with the given integer part, `p` leading digits that spell `n` and `r` repeating
digits that spell `c`. -/
def rational (negative : Bool) (whole : Int) (p : Nat) (n : Int) (r : Nat) (c : Int) : Rat :=
  let q : Rat :=
    if r = 0 then mkRat (whole * (10 ^ p : Nat) + n) (10 ^ p)
    else
      let nines : Nat := 10 ^ r - 1
      mkRat (whole * (10 ^ p * nines : Nat) + n * nines + c) (10 ^ p * nines)
  if negative then -q else q

/-- The rational that a whole number and two digit strings denote. -/
def value (negative : Bool) (whole : Nat) (lead cycle : List Char) : Rat :=
  rational negative whole lead.length (Digits.toNat lead) cycle.length (Digits.toNat cycle)

/-- The whole number that a decimal text denotes, its fraction cut off. -/
def readWhole (text : String) : Outcome Int := do
  match ← Decimal.ofText text with
  | .finite d => .ok d.toInt
  | .infinite _ => .error .nativeOverflow
  | .nan => .error .textValue

/-- The rational of an expansion given as texts, an empty one without digits. -/
def ofTexts (negative : Bool) (whole : Int) (lead cycle : String) : Outcome Rat := do
  let n ← if lead.isEmpty then pure 0 else readWhole lead
  let c ← if cycle.isEmpty then pure 0 else readWhole cycle
  .ok (rational negative whole lead.length n cycle.length c)

end Expansion

end Reckon
