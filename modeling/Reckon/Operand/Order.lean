/-
Comparing operands. Numbers and native numbers compare by value; anything compared with NaN is
false, texts compare with texts, and other values are unequal to every number and have no order.
Extremes and the sorting of lists of operands are built on this.
-/
import Reckon.Operand.Native
import Reckon.Sorting.Runs

namespace Reckon

/-- A test of the order of two values. -/
inductive Relation
  | less | lessOrEqual | greater | greaterOrEqual
  deriving DecidableEq, Repr, Inhabited

/-- The orders that pass a test. -/
def Relation.holds : Relation → Ordering → Bool
  | less, o => o == .lt
  | lessOrEqual, o => o != .gt
  | greater, o => o == .gt
  | greaterOrEqual, o => o != .lt

/-! ## Points -/

/-- A native number as a point of the extended line. A finite one is a decimal over a positive whole
number, so that a far power of ten need not be formed. -/
inductive Point
  | finite (above : Decimal) (below : Nat)
  | infinite (negative : Bool)
  | nan
  deriving DecidableEq, Repr

namespace Point

instance : Inhabited Point := ⟨.nan⟩

/-- The point of a rational. -/
def ofRat (q : Rat) : Point := .finite (.ofInt q.num) q.den

/-- The point of a binary number, with all its bits. -/
def ofBinary {f : Format} : Binary f → Point
  | .finite x => .ofRat x.toRat
  | .infinite negative => .infinite negative
  | .nan => .nan

/-- The point of a decimal. -/
def ofExtended : ExtendedDecimal → Point
  | .finite d => .finite d 1
  | .infinite negative => .infinite negative
  | .nan => .nan

/-- Zero. -/
def isZero : Point → Bool
  | finite d _ => d.isZero
  | _ => false

/-- Where a point lies: below, within or above the finite ones. -/
def region : Point → Int
  | infinite negative => if negative then -1 else 1
  | _ => 0

/-- The order of two points; NaN has none. -/
def compare? : Point → Point → Option Ordering
  | nan, _ | _, nan => none
  | finite a m, finite b n =>
    some ({ a with coefficient := a.coefficient * n }.order { b with coefficient := b.coefficient * m })
  | p, q => some (compare p.region q.region)

/-- The residue of a decimal under the modulus of hashes, without its sign. -/
def residue (d : Decimal) : Nat :=
  let p := Number.hashModulus
  let ten := if 0 ≤ d.exponent then 10 else Number.powMod 10 (p - 2) p
  d.coefficient % p * Number.powMod ten d.exponent.natAbs p % p

/-- The hash of a point; NaN has none. -/
def hash? : Point → Option Int
  | finite d n => some (Number.hashQuotient d.negative (residue d) n)
  | infinite negative => some (if negative then -Number.hashInfinity else Number.hashInfinity)
  | nan => none

end Point

namespace Operand

/-! ## Order and equality -/

/-- The point of a native number; other operands have none. -/
def point? : Operand → Option Point
  | whole n | word n _ => some (.ofRat n)
  | truth b => some (.ofRat (if b then 1 else 0))
  | float x => some (.ofBinary x)
  | scalar _ x => some (.ofBinary x)
  | ratio q => some (.ofRat q)
  | decimal d => some (.ofExtended d)
  | number _ | text _ | nothing | foreign _ => none

/-- The points of two native numbers as they meet: machine scalars compare in their format, all
others exactly. -/
def points? (a b : Operand) : Option (Point × Point) :=
  let exactly := do some (← a.point?, ← b.point?)
  match a.meeting? b with
  | some (.scalar f) =>
    match a.toBinary f, b.toBinary f with
    | .ok x, .ok y => some (.ofBinary x, .ofBinary y)
    | _, _ => exactly
  | _ => exactly

/-- A decimal, which refuses to be ordered against NaN. -/
def isDecimal : Operand → Bool
  | decimal _ => true
  | _ => false

/-- The order of two values outside the library. -/
def nativeOrdered (r : Relation) (a b : Operand) : Outcome Bool :=
  match a, b, a.points? b with
  | text s, text t, _ => .ok (r.holds (compare s t))
  | _, _, some (p, q) =>
    match p.compare? q with
    | some o => .ok (r.holds o)
    | none => if a.isDecimal || b.isDecimal then .error .decimalRange else .ok false
  | _, _, none => .error .mismatch

/-- A NaN that makes every test false: one of the library, or a binary one. -/
def isQuietNaN : Operand → Bool
  | number n => n.isNaN
  | float x => x == .nan
  | scalar _ x => x == .nan
  | _ => false

/-- A test of order of two values, one of them of the library. -/
def ownOrdered (r : Relation) (a b : Operand) : Outcome Bool :=
  if !(a.isNumber && b.isNumber) then .error .mismatch
  else if a.isQuietNaN || b.isQuietNaN then .ok false
  else do .ok (r.holds (← apply₂ Number.compare a b))

/-- A test of order. -/
def ordered (r : Relation) (a b : Operand) : Outcome Bool :=
  if b.isOwn then ownOrdered r a.plain b
  else if a.isOwn then ownOrdered r a b
  else nativeOrdered r a b

/-- The equality of two values, one of them of the library. -/
def ownEquals (a b : Operand) : Outcome Bool :=
  if a.isNumber && b.isNumber then apply₂ Number.equals a b else .ok false

/-- The two values are equal. -/
def equals (a b : Operand) : Outcome Bool :=
  if b.isOwn then ownEquals a.plain b
  else if a.isOwn then ownEquals a b
  else
    match a.points? b with
    | some (p, q) => .ok (p.compare? q == some .eq)
    | none => .ok (a == b)

/-! ## Hashes -/

/-- The value has a hash; lists and tables have none. -/
def hasHash : Operand → Bool
  | foreign type => type != "list" && type != "dict"
  | _ => true

/-- The hash of a number; a native NaN has one of its own, which agrees with no other. -/
def hashKey? : Operand → Option Number.HashKey
  | number n => some n.hashKey
  | a => do some (.one (← (← a.point?).hash?))

/-- The hashes of two values agree. -/
def sameHash (a b : Operand) : Outcome Bool :=
  if a.hasHash && b.hasHash then
    .ok (match a.hashKey?, b.hashKey? with
      | some h, some k => h == k
      | none, none => a.point?.isNone && a == b
      | _, _ => false)
  else .error .mismatch

/-- NaN and the infinities exist once each; every other number is an object of its own. -/
def isShared : Operand → Bool
  | number (.scalar (.real x)) => x.isNaN || x.isInfinite
  | truth _ | nothing => true
  | _ => false

/-- The two values are found under each other's key. -/
def sameKey (a b : Operand) : Outcome Bool := do
  if a.isShared && a == b then .ok true
  else if ← a.sameHash b then a.equals b
  else .ok false

/-- The last of some values whose key is found under the given one. -/
def lookupLast {α : Type} (key : Operand) : List (Operand × α) → Outcome (Option α)
  | [] => .ok none
  | (k, v) :: rest => do
    match ← lookupLast key rest with
    | some w => .ok (some w)
    | none => if ← sameKey k key then .ok (some v) else .ok none

/-- The value that was last stored under a key. All keys need hashes. -/
def lookup {α : Type} (key : Operand) (entries : List (Operand × α)) : Outcome (Option α) :=
  if key.hasHash && entries.all (fun e => e.1.hasHash) then lookupLast key entries
  else .error .mismatch

/-! ## Lists -/

/-- The values in ascending order, equal ones as they came. -/
def sort : List Operand → Outcome (List Operand) := Sorting.sort (ordered .less)

/-- The first value that beats all before it. -/
def best (r : Relation) (champion : Operand) : List Operand → Outcome Operand
  | [] => .ok champion
  | x :: xs => do best r (if ← ordered r x champion then x else champion) xs

/-- An extreme value of a list, the first of equal ones; the empty list has none. -/
def extreme (r : Relation) : List Operand → Outcome Operand
  | [] => .error .textValue
  | x :: xs => best r x xs

end Operand

end Reckon
