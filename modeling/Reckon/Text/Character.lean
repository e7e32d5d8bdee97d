/-
Classes of characters and trimming. The classes cover every script, because expressions, names
and digit texts may come from any; lower case is only carried as far as it can reach ASCII.
-/
import Reckon.Text.Letters
import Reckon.Text.Numerals
import Reckon.Text.Names

namespace Reckon.Text

/-- Membership in a table of closed ranges. -/
def inRanges (ranges : Array (Nat × Nat)) (c : Char) : Bool :=
  ranges.any fun (lo, hi) => lo ≤ c.toNat && c.toNat ≤ hi

/-! ## Blanks -/

/-- The blank characters: tab to carriage return, the four separators before the space, the
space, and the spaces and line separators outside ASCII. -/
def isBlank (c : Char) : Bool :=
  let n := c.toNat
  (9 ≤ n && n ≤ 13) || (28 ≤ n && n ≤ 32) || n == 0x85 || n == 0xA0 || n == 0x1680 ||
    (0x2000 ≤ n && n ≤ 0x200A) || n == 0x2028 || n == 0x2029 || n == 0x202F || n == 0x205F ||
    n == 0x3000

/-- The text without the blanks at its two ends. -/
def trim (cs : List Char) : List Char :=
  ((cs.dropWhile isBlank).reverse.dropWhile isBlank).reverse

/-! ## Digits and letters -/

/-- An ASCII digit. -/
def isAsciiDigit (c : Char) : Bool := '0' ≤ c && c ≤ '9'

/-- The value of a decimal digit of any script. -/
def decimalValue? (c : Char) : Option Nat :=
  if isAsciiDigit c then some (c.toNat - 48)
  else if c.toNat < 128 then none
  else (decimalZeros.find? fun z => z ≤ c.toNat && c.toNat < z + 10).map (c.toNat - ·)

/-- A digit sign: a decimal digit of any script, a superscript digit, a circled digit. -/
def isDigit (c : Char) : Bool :=
  (decimalValue? c).isSome || (128 ≤ c.toNat && inRanges digitSignRanges c)

/-- A letter of any script. -/
def isLetter (c : Char) : Bool :=
  if c.toNat < 128 then c.isAlpha else inRanges letterRanges c

/-- A letter, a digit sign or another sign with a numeric value. -/
def isLetterOrNumeral (c : Char) : Bool :=
  isLetter c || isDigit c || (128 ≤ c.toNat && inRanges numeralRanges c)

/-- A text that can name a variable. -/
def isName : List Char → Bool
  | [] => false
  | c :: cs => inRanges nameStartRanges c && cs.all (inRanges namePartRanges)

/-! ## Lower case -/

/-- The lower-case form of a character. Outside ASCII only the Kelvin sign and the dotted capital
I have a form with an ASCII part; every other character stands for itself here, since no keyword
and no digit of a radix can be reached from it. -/
def lower (c : Char) : List Char :=
  if c == '\u212a' then ['k']
  else if c == '\u0130' then ['i', '\u0307']
  else [c.toLower]

/-- The lower-case form of a text, for comparison with keywords. -/
def lowerAll (cs : List Char) : List Char := cs.flatMap lower

end Reckon.Text
