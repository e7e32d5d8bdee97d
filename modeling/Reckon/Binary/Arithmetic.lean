/-
The four operations on binary numbers and the remainder, each the exact result rounded once. Special
values follow the rules of the interchange standard.
-/
import Reckon.Binary.Round

namespace Reckon.Binary

variable {f : Format}

/-- The number with the other sign. -/
def neg : Binary f → Binary f
  | .finite x => .finite x.neg
  | .infinite negative => .infinite !negative
  | .nan => .nan

/-- The number without its sign. -/
def abs (x : Binary f) : Binary f := if x.isNegative then x.neg else x

/-- The sum. A zero sum is negative only if both terms are. -/
def add : Binary f → Binary f → Binary f
  | .nan, _ | _, .nan => .nan
  | .infinite s, .infinite t => if s = t then .infinite s else .nan
  | .infinite s, _ | _, .infinite s => .infinite s
  | .finite x, .finite y => ofRat (x.toRat + y.toRat) (x.negative && y.negative)

/-- The difference. -/
def sub (x y : Binary f) : Binary f := x.add y.neg

/-- The product. -/
def mul : Binary f → Binary f → Binary f
  | .nan, _ | _, .nan => .nan
  | .finite x, .finite y => ofRat (x.toRat * y.toRat) (x.negative != y.negative)
  | x, y => if x.isZero || y.isZero then .nan else .infinite (x.isNegative != y.isNegative)

/-- The quotient. -/
def div : Binary f → Binary f → Binary f
  | .nan, _ | _, .nan => .nan
  | .infinite _, .infinite _ => .nan
  | .infinite s, y => .infinite (s != y.isNegative)
  | x, .infinite t => .finite (.zero (x.isNegative != t))
  | .finite x, .finite y =>
    let s := x.negative != y.negative
    if y.isZero then if x.isZero then .nan else .infinite s
    else ofRat (x.toRat / y.toRat) s

/-- The remainder of the division rounded down: it has the sign of the divisor, also as a zero. The
remainder towards zero is exact; only its shift to the other sign is rounded. -/
def mod (x y : Binary f) : Binary f :=
  match x, y with
  | .finite a, .finite b =>
    if b.isZero then .nan
    else
      let q := a.absRat / b.absRat
      let r := a.absRat - b.absRat * (q.floor : Rat)
      if r = 0 then .finite (.zero b.negative)
      else
        let r : Binary f := ofRat (if a.negative then -r else r)
        if a.negative == b.negative then r else r.add y
  | .finite a, .infinite t =>
    if a.isZero then .finite (.zero t) else if a.negative == t then x else y
  | _, _ => .nan

end Reckon.Binary
