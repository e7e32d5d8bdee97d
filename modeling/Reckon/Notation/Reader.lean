/-
Reading numbers from text.

Integers:  [+-] digits, or after a prefix 0x, 0b or 0o the digits of that radix with underscores.
Reals:     [+-] nan, inf or infinity in any case;
           [+-] digits [. digits [(cycle)]] [e [+-] digits] [...]
Complex:   [real] [+-] [real] i

A cycle in brackets stands for its exact rational. A final `...` marks an approximation.
-/
import Reckon.Real.Recurring
import Reckon.Number.Basic

namespace Reckon.Notation

/-- Fails because a text is not a literal. -/
def malformed {α : Type} (e : Malformed) : Outcome α := .error (.malformed e)

/-! ## Pieces -/

/-- A place in a text: what follows, and how many characters came before. -/
structure Cursor where
  rest : List Char
  position : Nat
  deriving Repr

namespace Cursor

/-- The cursor `n` characters further on. -/
def skip (c : Cursor) (n : Nat) : Cursor := ⟨c.rest.drop n, c.position + n⟩

/-- A sign at the cursor: whether it is a minus, and the place after it. -/
def sign (c : Cursor) : Bool × Cursor :=
  match c.rest with
  | '-' :: _ => (true, c.skip 1)
  | '+' :: _ => (false, c.skip 1)
  | _ => (false, c)

/-- The ASCII digits at the cursor, and the place after them. -/
def digits (c : Cursor) : List Char × Cursor :=
  let ds := c.rest.takeWhile Text.isAsciiDigit
  (ds, c.skip ds.length)

/-- Steps over a character that has to stand at the cursor; `text` is what the message quotes. -/
def expect (c : Cursor) (wanted : Char) (text : String) : Outcome Cursor :=
  if c.rest.head? == some wanted then .ok (c.skip 1)
  else malformed (.expected wanted.toString c.position text)

end Cursor

/-- A place in a text by its number. -/
def cursorAt (cs : List Char) (i : Nat) : Cursor := ⟨cs.drop i, i⟩

/-! ## Pieces at a place

A place may be negative and then counts from the end. Reading goes on from the end of the text to
its start. -/

/-- What is read from a place on; there is no place before the start. -/
def fromPlace (cs : List Char) (i : Int) : Outcome (List Char) :=
  if 0 ≤ i then .ok (cs.drop i.toNat)
  else if i.natAbs ≤ cs.length then .ok (cs.drop (cs.length - i.natAbs) ++ cs)
  else .error .position

/-- The characters from one place up to another. -/
def between (cs : List Char) (i j : Int) : List Char :=
  let index (k : Int) : Nat := (if k < 0 then k + cs.length else k).toNat
  (cs.drop (index i)).take (index j - index i)

/-- The ASCII digits at a place, and the place after them. -/
def digitsAt (s : String) (i : Int) : Outcome (List Char × Int) := do
  let rest ← fromPlace s.toList i
  let j := i + (rest.takeWhile Text.isAsciiDigit).length
  .ok (between s.toList i j, j)

/-- A sign at a place: whether it is a minus, and the place after it. -/
def signAt (s : String) (i : Int) : Outcome (Bool × Int) := do
  match ← fromPlace s.toList i with
  | '-' :: _ => .ok (true, i + 1)
  | '+' :: _ => .ok (false, i + 1)
  | _ => .ok (false, i)

/-- The place after a character that has to stand at the given one. -/
def expectAt (s : String) (i : Int) (wanted : String) : Outcome Int := do
  let rest ← fromPlace s.toList i
  if !rest.isEmpty && wanted.toList == rest.take 1 then .ok (i + 1)
  else malformed (.expected wanted i s)

/-! ## Digits of a radix -/

/-- The value of a letter or digit. A character whose lower case has a second part cannot be
looked up; every other character has a value beyond all radices. -/
def radixValue (c : Char) : Outcome Nat :=
  if Text.isAsciiDigit c then .ok (c.toNat - 48)
  else
    match Text.lower c with
    | [l] => .ok (if 'a' ≤ l && l ≤ 'z' then l.toNat - 87 else 99)
    | _ => .error .mismatch

/-- The number that the characters from position `i` on spell after `acc`, and whether there was a
digit; underscores are skipped. -/
def accumulate (radix : Nat) (text : String) : (cs : List Char) → (i acc : Nat) → (seen : Bool) →
    Outcome (Nat × Bool)
  | [], _, acc, seen => .ok (acc, seen)
  | c :: cs, i, acc, seen => do
    if c == '_' then accumulate radix text cs (i + 1) acc seen
    else
      let d ← radixValue c
      if radix ≤ d then malformed (.radixDigit radix c i text)
      else accumulate radix text cs (i + 1) (acc * radix + d) true

/-- The number that a text of digits spells in a radix. -/
def radixNumber (radix : Nat) (cs : List Char) : Outcome Nat := do
  let text := String.ofList cs
  let (n, seen) ← accumulate radix text cs 0 0 false
  if seen then .ok n else malformed (.noRadixDigits radix text)

/-- The integer with a sign. -/
def signed (negative : Bool) (n : Nat) : Int := if negative then -n else n

/-! ## Integers -/

/-- A signed integer in a radix from 2 to 36. -/
def readRadix (text : String) (radix : Int) : Outcome Int := do
  if radix < 2 ∨ 36 < radix then
    if Failure.digitLimit < Digits.width radix.natAbs then .error .textValue
    else malformed (.radixRange radix)
  else
    let (negative, c) := (cursorAt (Text.trim text.toList) 0).sign
    .ok (signed negative (← radixNumber radix.toNat c.rest))

/-- A signed hexadecimal integer, with or without its prefix. -/
def readHex (text : String) : Outcome Int := do
  let (negative, c) := (cursorAt (Text.trim text.toList) 0).sign
  let body := if Text.lowerAll (c.rest.take 2) == ['0', 'x'] then c.rest.drop 2 else c.rest
  .ok (signed negative (← radixNumber 16 body))

/-- The words for special values. -/
def isSpecialWord (cs : List Char) : Bool :=
  let word := String.ofList (Text.lowerAll cs)
  word == "nan" || word == "inf" || word == "infinity"

/-- The radix that a prefix announces. -/
def prefixRadix? (cs : List Char) : Option Nat :=
  match Text.lowerAll (cs.take 2) with
  | ['0', 'x'] => some 16
  | ['0', 'b'] => some 2
  | ['0', 'o'] => some 8
  | _ => none

/-- A decimal integer at the cursor, which has to end the text `s`. -/
def readDecimalInteger (s : String) (c : Cursor) : Outcome Nat :=
  let (ds, c) := c.digits
  if c.rest.head? == some '.' then malformed (.notInteger s)
  else if ds.isEmpty then malformed (.expectedDigit c.position s)
  else if !c.rest.isEmpty then malformed (.trailing c.position s)
  else .ok (Digits.toNat ds)

/-- An integer literal. -/
def readInteger (text : String) : Outcome Int := do
  let cs := Text.trim text.toList
  if cs.isEmpty then malformed .emptyInteger
  else
    let (negative, c) := (cursorAt cs 0).sign
    if isSpecialWord c.rest then malformed (.notInteger (String.ofList c.rest))
    else
      let n ← match prefixRadix? c.rest with
        | some radix => radixNumber radix (c.rest.drop 2)
        | none => readDecimalInteger (String.ofList cs) c
      .ok (signed negative n)

/-- An integer literal; malformed text is zero. -/
def readIntegerOrZero (text : String) : Outcome Int :=
  match readInteger text with
  | .error (.malformed _) => .ok 0
  | outcome => outcome

/-! ## Reals -/

/-- The mark of an approximation. -/
def approximationMark : List Char := ['.', '.', '.']

/-- The text without the mark of an approximation, and whether it had one. -/
def splitMark (cs : List Char) : List Char × Bool :=
  if approximationMark.isSuffixOf cs then (cs.take (cs.length - 3), true) else (cs, false)

/-- The digits after a point and the cycle in brackets, where there are any. -/
def readFraction (s : String) (c : Cursor) : Outcome (List Char × Option (List Char) × Cursor) := do
  if c.rest.head? != some '.' then .ok ([], none, c)
  else
    let (fraction, c) := (c.skip 1).digits
    if c.rest.head? != some '(' then .ok (fraction, none, c)
    else
      let (cycle, c) := (c.skip 1).digits
      let c ← c.expect ')' s
      if cycle.isEmpty then malformed (.emptyCycle s) else .ok (fraction, some cycle, c)

/-- The power of ten at the end of a real; its digits have a limit. -/
def readPower (s : String) (c : Cursor) : Outcome (Int × Cursor) :=
  if c.rest.head? == some 'e' || c.rest.head? == some 'E' then
    let (negative, c) := (c.skip 1).sign
    let (ds, c) := c.digits
    if ds.isEmpty then malformed (.exponentDigits c.position s)
    else if Failure.digitLimit < ds.length then .error .textValue
    else .ok (signed negative (Digits.toNat ds), c)
  else .ok (0, c)

/-- The greatest power of ten that may follow a cycle. -/
def maxCycleExponent : Nat := 10000

/-- Ten to an integer power. -/
def tenTo (e : Int) : Rat :=
  if 0 ≤ e then ((10 ^ e.natAbs : Nat) : Rat) else mkRat 1 (10 ^ e.natAbs)

/-- The number that the parts of a literal denote. -/
def realOfParts (s : String) (negative : Bool) (whole fraction : List Char)
    (cycle : Option (List Char)) (e : Int) (approximate : Bool) : Outcome Real :=
  match cycle with
  | some cycle =>
    if approximate then malformed (.irrationalCycle s)
    else if maxCycleExponent < e.natAbs then fail (.recurringExponent e)
    else Real.ofRat (Expansion.value negative (Digits.toNat whole) fraction cycle * tenTo e)
  | none =>
    let d : Decimal := ⟨negative, Digits.toNat (whole ++ fraction), e - fraction.length⟩
    if !d.inRange then .error .decimalRange
    else .ok (if approximate then .irrational d else .big d)

/-- A real literal with digits, its sign already read; the cursor stands after it. -/
def readDigitsReal (negative : Bool) (start : Nat) (cs : List Char) : Outcome Real := do
  let (cs, approximate) := splitMark cs
  let s := String.ofList cs
  let (whole, c) := (cursorAt cs start).digits
  let (fraction, cycle, c) ← readFraction s c
  if whole.isEmpty && fraction.isEmpty then malformed (.expectedDigit c.position s)
  else
    let (e, c) ← readPower s c
    if !c.rest.isEmpty then malformed (.trailing c.position s)
    else realOfParts s negative whole fraction cycle e approximate

/-- A real literal. -/
def readReal (text : String) : Outcome Real :=
  let cs := Text.trim text.toList
  let (negative, c) := (cursorAt cs 0).sign
  match String.ofList (Text.lowerAll c.rest) with
  | "nan" => .ok .nan
  | "inf" | "infinity" => .ok (.infinite negative)
  | _ => readDigitsReal negative c.position cs

/-! ## Complex numbers -/

/-- The two texts of a complex number, split at the last sign that neither leads nor belongs to an
exponent; the first is missing if there is no such sign. `before` holds the characters in front,
the nearest first. -/
def splitSum : (before after : List Char) → Option (List Char) × List Char
  | [], after => (none, after)
  | [c], after => (none, c :: after)
  | c :: d :: before, after =>
    if (c == '+' || c == '-') && d != 'e' && d != 'E' then
      (some ((d :: before).reverse), c :: after)
    else splitSum (d :: before) (c :: after)

/-- The two texts of a complex number without its final letter. -/
def splitComplex (cs : List Char) : Option (List Char) × List Char := splitSum cs.reverse []

/-- The coefficient of the imaginary unit; without digits it is one. -/
def readCoefficient (text : String) : Outcome Real :=
  match text with
  | "" | "+" => .ok .one
  | "-" => .ok Real.one.neg
  | _ => readReal text

/-- A real or complex literal. -/
def readScalar (text : String) : Outcome Scalar := do
  let cs := Text.trim text.toList
  if cs.isEmpty then malformed .emptyFloat
  else if cs.getLast? == some 'i' || cs.getLast? == some 'I' then
    let (re, im) := splitComplex (Text.trim cs.dropLast)
    let re ← match re with
      | some re => readReal (String.ofList re)
      | none => .ok .zero
    let im ← readCoefficient (String.ofList (im.filter (· != ' ')))
    .ok (.complex re im)
  else (readReal (String.ofList cs)).map .real

/-- A real or complex literal; text that fails numerically is NaN. -/
def readScalarOrNaN (text : String) : Outcome Scalar :=
  match readScalar text with
  | .error (.malformed _) | .error (.numeric _) => .ok (.real .nan)
  | outcome => outcome

/-- The complex number of two real literals. -/
def readComplex (re im : String) : Outcome Scalar := do
  let re ← readReal re
  .ok (.complex re (← readReal im))

/-- A number literal: an integer if it is one. -/
def readNumber (text : String) : Outcome Number :=
  match readInteger text with
  | .error (.malformed _) => (readScalar text).map .scalar
  | outcome => outcome.map .ofInt

end Reckon.Notation
