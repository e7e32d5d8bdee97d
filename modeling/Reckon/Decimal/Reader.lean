/-
Reading a decimal from text: sign, digits with a point, power of ten. Digits may be of any script,
underscores are ignored, and blanks around the text are too. Besides numbers there are the two
infinities and NaN, so the result is an `ExtendedDecimal`.
-/
import Reckon.Decimal.Basic

namespace Reckon

/-- A decimal or one of the special values next to them. -/
inductive ExtendedDecimal
  | finite (d : Decimal)
  | infinite (negative : Bool)
  | nan
  deriving DecidableEq, Repr, Inhabited

namespace Decimal

/-- The text in ASCII: digits of any script are replaced by their values. -/
def asciiDigits (cs : List Char) : Option (List Char) :=
  (Text.trim cs).filter (· != '_') |>.mapM fun c =>
    if c.toNat < 128 then some c
    else if Text.isBlank c then some ' '
    else (Text.decimalValue? c).map Digits.digitChar

/-- Splits off a sign: whether it is a minus, and the rest. -/
def splitSign : List Char → Bool × List Char
  | '-' :: cs => (true, cs)
  | '+' :: cs => (false, cs)
  | cs => (false, cs)

/-- Splits at the first character that is not an ASCII digit. -/
def spanDigits (cs : List Char) : List Char × List Char :=
  (cs.takeWhile Text.isAsciiDigit, cs.dropWhile Text.isAsciiDigit)

/-- The power of ten at the end of a number. -/
def readExponent : List Char → Option Int
  | [] => some 0
  | c :: cs =>
    if c == 'e' || c == 'E' then
      let (negative, cs) := splitSign cs
      let (ds, rest) := spanDigits cs
      if ds.isEmpty || !rest.isEmpty then none
      else
        let n : Int := Digits.toNat ds
        some (if negative then -n else n)
    else none

/-- An unsigned number. -/
def readUnsigned (negative : Bool) (cs : List Char) : Option Decimal := do
  let (whole, rest) := spanDigits cs
  let (fraction, rest) := match rest with
    | '.' :: rest => spanDigits rest
    | _ => ([], rest)
  guard !(whole.isEmpty && fraction.isEmpty)
  let e ← readExponent rest
  some ⟨negative, Digits.toNat (whole ++ fraction), e - fraction.length⟩

/-- A text read as a decimal or special value; anything else is out of range. -/
def ofText (text : String) : Outcome ExtendedDecimal := do
  let some cs := asciiDigits text.toList | .error .decimalRange
  let (negative, body) := splitSign cs
  let word := Text.lowerAll body
  if word == "inf".toList || word == "infinity".toList then .ok (.infinite negative)
  else if ("nan".toList.isPrefixOf word && (word.drop 3).all Text.isAsciiDigit) ||
      ("snan".toList.isPrefixOf word && (word.drop 4).all Text.isAsciiDigit) then .ok .nan
  else
    match readUnsigned negative body with
    | some d => if d.inRange then .ok (.finite d) else .error .decimalRange
    | none => .error .decimalRange

end Decimal

end Reckon
