/-
Decimal digit strings. `ofNat` writes a number without leading zeros and `toNat` reads it back;
both stay usable on numbers of a hundred thousand digits.
-/

-- A power with a natural exponent is repeated multiplication, also where algebra offers another
-- instance for it.
attribute [instance (2000)] instPowNat

namespace Reckon.Digits

/-- The sign of a decimal digit. -/
def digitChar (d : Nat) : Char := Char.ofNat (48 + d)

/-- The value of an ASCII digit. -/
def digitValue (c : Char) : Nat := c.toNat - 48

/-- The least `w` from `k` on with `n < 10 ^ w`. -/
def widthFrom (k n : Nat) : Nat :=
  if n < 10 ^ k then k else widthFrom (k + 1) n
termination_by n + 1 - 10 ^ k
decreasing_by
  have : 10 ^ (k + 1) = 10 ^ k * 10 := Nat.pow_succ ..
  have : 0 < 10 ^ k := Nat.pow_pos (by decide)
  omega

/-- How many digits `n` has; zero has one. The search starts just below: the fraction is a lower
bound of the logarithm of two. -/
def width (n : Nat) : Nat := widthFrom (n.log2 * 1292913986 / 2 ^ (32 : Nat) + 1) n

/-- The lowest `w` digits of `n` in front of `rest`, the most significant first. Halving the width
keeps the divisions balanced. -/
def paddedOnto (w n : Nat) (rest : List Char) : List Char :=
  if w = 0 then rest
  else if w = 1 then digitChar (n % 10) :: rest
  else
    let low := w / 2
    paddedOnto (w - low) (n / 10 ^ low) (paddedOnto low (n % 10 ^ low) rest)
termination_by w

/-- The digits of a number, without leading zeros; zero is `0`. -/
def ofNat (n : Nat) : List Char := paddedOnto (width n) n []

/-- The number a digit string spells; the empty string spells zero. -/
def toNat (cs : List Char) : Nat := cs.foldl (fun acc c => acc * 10 + digitValue c) 0

/-- How many times ten divides a positive number, at most `limit`. -/
def trailingZeros : (limit n : Nat) → Nat
  | 0, _ => 0
  | k + 1, n => if n % 10 = 0 then trailingZeros k (n / 10) + 1 else 0

/-- A whole number in decimal. -/
def ofInt (n : Int) : String :=
  String.ofList (if n < 0 then '-' :: ofNat n.natAbs else ofNat n.natAbs)

end Reckon.Digits
