/-
Writing numbers as text.

`render` is the form for display: a real number shows a digit after the point (`2.0`), a repeating
one its cycle in brackets (`0.(3)`), an approximation ends in three dots, a complex number reads
`3.0 + 4.0i`.

`canonical` is the form for storage, which the reader takes back: without a forced point and with
compact complex numbers (`3+4i`).
-/
import Reckon.Number.Basic

namespace Reckon.Notation

/-! ## Decimals -/

/-- A number is written in place with at most this many zeros of padding; beyond that it takes a
power of ten. -/
def maxPadding : Nat := 50

/-- A minus sign. -/
def signText (negative : Bool) : String := if negative then "-" else ""

/-- Digits with the point after the first one, and a power of ten. -/
def scientific (ds : List Char) (power : Int) (forcePoint : Bool) : String :=
  let mantissa := match ds with
    | [d] => if forcePoint then [d, '.', '0'] else [d]
    | d :: rest => d :: '.' :: rest
    | [] => []
  String.ofList mantissa ++ "e" ++ Digits.ofInt power

/-- The digits of a positive whole number times a power of ten, in place or with the power. -/
def magnitudeText (ds : List Char) (exponent : Int) (forcePoint : Bool) : String :=
  let n := ds.length
  let k := exponent.natAbs
  let power := exponent + (n - 1 : Nat)
  if 0 ≤ exponent then
    if maxPadding < k then scientific ds power forcePoint
    else String.ofList (ds ++ List.replicate k '0') ++ if forcePoint then ".0" else ""
  else if n ≤ k then
    if maxPadding < k - n then scientific ds power forcePoint
    else "0." ++ String.ofList (List.replicate (k - n) '0' ++ ds)
  else String.ofList (ds.take (n - k) ++ '.' :: ds.drop (n - k))

/-- A decimal without trailing zeros in its fraction; `forcePoint` keeps one digit after the point.
Zero has no sign. -/
def positional (d : Decimal) (forcePoint : Bool) : String :=
  let d := d.strip
  if d.isZero then if forcePoint then "0.0" else "0"
  else signText d.negative ++ magnitudeText d.digits d.exponent forcePoint

/-! ## Reals -/

/-- A repeating value with its cycle in brackets. -/
def cycleText (s : Cycle.Spelling) : String :=
  signText s.negative ++
    String.ofList (s.whole ++ '.' :: s.lead ++ '(' :: s.cycle ++ [')'])

/-- How a form writes repeating values: how many digits are searched for a cycle, and what stands
for a value without a visible one. -/
structure Style where
  forcePoint : Bool
  limit : Option Int
  fallback : Decimal → Outcome Decimal

/-- For display, a cycle has to show early, else ten digits stand for the value. -/
def Style.display : Style := ⟨true, some (Cycle.scanLimit : Int), (·.truncate 10)⟩

/-- For storage, all digits count. -/
def Style.storage : Style := ⟨false, none, .ok⟩

/-- The text of a repeating value that is already stored afresh. -/
def Style.recurring (style : Style) (d : Decimal) : Outcome String :=
  match Cycle.split d style.limit with
  | some s => .ok (cycleText s)
  | none => do .ok (positional (← style.fallback d) style.forcePoint)

/-- The text of a real number. -/
def Style.real (style : Style) (x : Real) : Outcome String :=
  match x with
  | .nan => .ok "NaN"
  | .infinite negative => .ok (signText negative ++ "Infinity")
  | .irrational d => .ok (positional d style.forcePoint ++ "...")
  | .small _ b => .ok (positional b.toDecimal style.forcePoint)
  | .big d => .ok (positional d style.forcePoint)
  | .recurring _ => do
    match ← x.normalize with
    | .recurring d => style.recurring d
    | y => do .ok (positional (← y.decimal) style.forcePoint)

/-! ## Complex numbers -/

/-- An exact one of either sign. -/
def isUnit (x : Real) : Bool :=
  !x.isIrrational && x.decimal?.any fun d => d.normalize.coefficient == 1 && d.normalize.exponent == 0

/-- The coefficient of the imaginary unit without its sign; a one is left out. -/
def Style.coefficient (style : Style) (im : Real) : Outcome String :=
  let m := if im.isNegative then im.neg else im
  if isUnit m then .ok "" else style.real m

/-- The text of a complex number for display. A zero part is left out. -/
def renderComplex (re im : Real) : Outcome String := do
  if im.isZero then Style.display.real re
  else
    let c ← Style.display.coefficient im
    if re.isZero then .ok (signText im.isNegative ++ c ++ "i")
    else
      let joint := if im.isNegative then " - " else " + "
      .ok ((← Style.display.real re) ++ joint ++ c ++ "i")

/-- The text of a complex number for storage. A zero real part is left out unless the imaginary
part is zero too. -/
def canonicalComplex (re im : Real) : Outcome String := do
  let c ← Style.storage.coefficient im
  if re.isZero && !im.isZero then .ok (signText im.isNegative ++ c ++ "i")
  else
    let joint := if im.isNegative then "-" else "+"
    .ok ((← Style.storage.real re) ++ joint ++ c ++ "i")

/-! ## Numbers -/

/-- The text for display. -/
def render : Number → Outcome String
  | .integer n => .ok (Digits.ofInt n.value)
  | .scalar (.real x) => Style.display.real x
  | .scalar (.complex re im) => renderComplex re im

/-- The text for storage. -/
def canonical : Number → Outcome String
  | .integer n => .ok (Digits.ofInt n.value)
  | .scalar (.real x) => Style.storage.real x
  | .scalar (.complex re im) => canonicalComplex re im

/-! ## Integers in a radix -/

/-- A digit of a radix up to 36: the ten digits, then lower-case letters. -/
def radixDigit (d : Nat) : Char := if d < 10 then Char.ofNat (48 + d) else Char.ofNat (87 + d)

/-- The digits of `n` in front of `acc`; zero has none. -/
def radixDigits (radix n : Nat) (acc : List Char) : List Char :=
  if _h : 1 < radix ∧ 0 < n then radixDigits radix (n / radix) (radixDigit (n % radix) :: acc)
  else acc
termination_by n
decreasing_by exact Nat.div_lt_self _h.2 _h.1

/-- An integer in a radix from 2 to 36. -/
def toRadix (n radix : Int) : Outcome String :=
  if radix < 2 ∨ 36 < radix then .error (.naming radix (.radixOutside radix))
  else if n = 0 then .ok "0"
  else .ok (signText (n < 0) ++ String.ofList (radixDigits radix.toNat n.natAbs []))

/-! ## Construction -/

/-- The name of a special value where its construction is shown. -/
def specialName : Kind → Option String
  | .nan => some "NAN"
  | .infinity => some "INFINITY"
  | .negInfinity => some "NEG_INFINITY"
  | _ => none

/-- How a real number is constructed. -/
def inspectReal (x : Real) : Outcome String :=
  match specialName x.kind with
  | some name => .ok ("Float(" ++ name ++ ")")
  | none => do
    let text ← Style.storage.real x
    .ok ("Float." ++ x.kind.label ++ "(" ++ Text.quoted text.toList ++ ")")

/-- How a number is constructed, for use in messages to developers. -/
def inspect : Number → Outcome String
  | .integer ⟨n, none⟩ => .ok ("Integer(" ++ Digits.ofInt n ++ ")")
  | .integer ⟨n, some w⟩ =>
    .ok ("Integer(" ++ Digits.ofInt n ++ ", " ++ Text.quoted w.name.toList ++ ")")
  | .scalar (.real x) => inspectReal x
  | .scalar (.complex re im) => do
    let re ← inspectReal re
    .ok ("Float.complex(" ++ re ++ ", " ++ (← inspectReal im) ++ ")")

end Reckon.Notation
