/-
Reading entries from JSON. Every object is decoded as soon as it is complete: one with the tag of a
number becomes that number. Besides JSON proper the words `NaN`, `Infinity` and `-Infinity` are
numbers. Whole numbers stay exact; numbers with a point or a power become the nearest double.
-/
import Reckon.Archive.Entry
import Reckon.Notation.Reader

namespace Reckon.Archive

/-- Fails because a text is not JSON. -/
def notJson {α : Type} : Outcome α := .error .malformedJson

/-- The text without the blanks at its start. -/
def skipBlanks (cs : List Char) : List Char :=
  cs.dropWhile fun c => c == ' ' || c == '\t' || c == '\n' || c == '\r'

/-! ## Text -/

/-- The value of a hexadecimal digit. -/
def hexValue? (c : Char) : Option Nat :=
  if Text.isAsciiDigit c then some (c.toNat - 48)
  else if 'a' ≤ c && c ≤ 'f' then some (c.toNat - 87)
  else if 'A' ≤ c && c ≤ 'F' then some (c.toNat - 55)
  else none

/-- The unit of 16 bits that four hexadecimal digits spell. -/
def unit? (ds : List Char) : Option Nat := do
  guard (ds.length = 4)
  some ((← ds.mapM hexValue?).foldl (fun n d => n * 16 + d) 0)

/-- The character of a unit, or of two units that belong together, and what follows. A unit without
its partner has no character and is replaced. -/
def unitChar (n : Nat) (rest : List Char) : Char × List Char :=
  if 0xD800 ≤ n && n < 0xDC00 then
    match rest with
    | '\\' :: 'u' :: more =>
      match unit? (more.take 4) with
      | some m =>
        if 0xDC00 ≤ m && m < 0xE000 then
          (Char.ofNat (0x10000 + (n - 0xD800) * 1024 + (m - 0xDC00)), more.drop 4)
        else ('\ufffd', rest)
      | none => ('\ufffd', rest)
    | _ => ('\ufffd', rest)
  else if 0xDC00 ≤ n && n < 0xE000 then ('\ufffd', rest)
  else (Char.ofNat n, rest)

/-- The character of a short escape. -/
def shortEscape? : Char → Option Char
  | '"' => some '"'
  | '\\' => some '\\'
  | '/' => some '/'
  | 'b' => some '\x08'
  | 'f' => some '\x0c'
  | 'n' => some '\n'
  | 'r' => some '\r'
  | 't' => some '\t'
  | _ => none

/-- The text up to its closing quote, after `acc` in reverse. -/
def readText : (fuel : Nat) → List Char → (acc : List Char) → Outcome (String × List Char)
  | 0, _, _ => notJson
  | fuel + 1, cs, acc =>
    match cs with
    | '"' :: rest => .ok (String.ofList acc.reverse, rest)
    | '\\' :: 'u' :: rest =>
      match unit? (rest.take 4) with
      | some n =>
        let (c, rest) := unitChar n (rest.drop 4)
        readText fuel rest (c :: acc)
      | none => notJson
    | '\\' :: c :: rest =>
      match shortEscape? c with
      | some c => readText fuel rest (c :: acc)
      | none => notJson
    | c :: rest => if c.toNat < 32 || c == '\\' then notJson else readText fuel rest (c :: acc)
    | [] => notJson

/-! ## Numbers -/

/-- The digits of a whole number: no zero leads unless it is alone. -/
def spanWhole : List Char → List Char × List Char
  | '0' :: rest => (['0'], rest)
  | cs => Decimal.spanDigits cs

/-- The digits of a fraction. -/
def spanFraction (cs : List Char) : List Char × List Char :=
  match cs with
  | '.' :: rest =>
    let (ds, more) := Decimal.spanDigits rest
    if ds.isEmpty then ([], cs) else (ds, more)
  | _ => ([], cs)

/-- The power of ten. -/
def spanPower (cs : List Char) : Option Int × List Char :=
  match cs with
  | c :: rest =>
    if c == 'e' || c == 'E' then
      let (negative, rest) := Decimal.splitSign rest
      let (ds, more) := Decimal.spanDigits rest
      if ds.isEmpty then (none, cs)
      else (some (Notation.signed negative (Digits.toNat ds)), more)
    else (none, cs)
  | [] => (none, cs)

/-- A number. A whole one may have as many digits as other whole numbers in text. -/
def readNumber (cs : List Char) : Outcome (Operand × List Char) :=
  let (negative, body) : Bool × List Char := match cs with
    | '-' :: rest => (true, rest)
    | _ => (false, cs)
  let (whole, rest) := spanWhole body
  if whole.isEmpty then notJson
  else
    let (fraction, rest) := spanFraction rest
    match spanPower rest with
    | (none, rest) =>
      if !fraction.isEmpty then
        .ok (.float (.ofDecimal ⟨negative, Digits.toNat (whole ++ fraction), -fraction.length⟩), rest)
      else if Failure.digitLimit < whole.length then .error .textValue
      else .ok (.whole (Notation.signed negative (Digits.toNat whole)), rest)
    | (some e, rest) =>
      .ok (.float (.ofDecimal ⟨negative, Digits.toNat (whole ++ fraction), e - fraction.length⟩), rest)

/-! ## Entries -/

/-- The words that stand for values. -/
def words : List (String × Operand) :=
  [("null", .nothing), ("true", .truth true), ("false", .truth false), ("NaN", .float .nan),
    ("Infinity", .float (.infinite false)), ("-Infinity", .float (.infinite true))]

/-- A word at the start of a text. -/
def word? (cs : List Char) : Option (Operand × List Char) :=
  words.findSome? fun (w, x) =>
    if w.toList.isPrefixOf cs then some (x, cs.drop w.length) else none

/-- The text under a tag. -/
def taggedText : Entry → Outcome String
  | .leaf (.text s) => .ok s
  | _ => .error .entryType

/-- A complete object; with a tag it is a number. -/
def decode (fields : List (String × Entry)) : Outcome Entry :=
  match fields.lookup Entry.integerTag, fields.lookup Entry.scalarTag with
  | some e, _ => do .ok (.number (.ofInt (← Notation.readInteger (← taggedText e))))
  | none, some e => do .ok (.number (.scalar (← Notation.readScalar (← taggedText e))))
  | none, none => .ok (.object fields)

/-- How deep lists and objects may be nested. -/
def maxDepth : Nat := 988

mutual

/-- An entry without blanks in front of it; `room` levels may be nested in it. -/
def readEntry : (fuel room : Nat) → List Char → Outcome (Entry × List Char)
  | 0, _, _ => notJson
  | fuel + 1, room, cs =>
    match cs, room with
    | '"' :: rest, _ => do
      let (s, rest) ← readText fuel rest []
      .ok (.text s, rest)
    | '[' :: _, 0 | '\x7b' :: _, 0 => .error .tooDeep
    | '[' :: rest, room + 1 =>
      match skipBlanks rest with
      | ']' :: rest => .ok (.list [], rest)
      | rest => do
        let (items, rest) ← readItems fuel room rest
        .ok (.list items, rest)
    | '\x7b' :: rest, room + 1 =>
      match skipBlanks rest with
      | '\x7d' :: rest => do .ok (← decode [], rest)
      | rest => do
        let (fields, rest) ← readFields fuel room rest []
        .ok (← decode fields, rest)
    | _, _ =>
      match word? cs with
      | some (x, rest) => .ok (.leaf x, rest)
      | none => do
        let (x, rest) ← readNumber cs
        .ok (.leaf x, rest)

/-- The items of a list up to its closing bracket. -/
def readItems : (fuel room : Nat) → List Char → Outcome (List Entry × List Char)
  | 0, _, _ => notJson
  | fuel + 1, room, cs => do
    let (e, rest) ← readEntry fuel room cs
    match skipBlanks rest with
    | ']' :: rest => .ok ([e], rest)
    | ',' :: rest => do
      let (es, rest) ← readItems fuel room (skipBlanks rest)
      .ok (e :: es, rest)
    | _ => notJson

/-- The fields of an object up to its closing bracket, after those read already. -/
def readFields : (fuel room : Nat) → List Char → List (String × Entry) →
    Outcome (List (String × Entry) × List Char)
  | 0, _, _, _ => notJson
  | fuel + 1, room, cs, fields => do
    let .cons '"' cs := cs | notJson
    let (name, rest) ← readText fuel cs []
    let .cons ':' rest := skipBlanks rest | notJson
    let (e, rest) ← readEntry fuel room (skipBlanks rest)
    let fields := Entry.put fields name e
    match skipBlanks rest with
    | '\x7d' :: rest => .ok (fields, rest)
    | ',' :: rest => readFields fuel room (skipBlanks rest) fields
    | _ => notJson

end

/-- The entry that a whole text spells. -/
def read (text : String) : Outcome Entry := do
  let cs := skipBlanks text.toList
  let (e, rest) ← readEntry (2 * cs.length + 2) maxDepth cs
  if (skipBlanks rest).isEmpty then .ok e else notJson

end Reckon.Archive
