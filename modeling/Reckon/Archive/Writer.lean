/-
Writing entries as JSON. Numbers are written as objects that hold their canonical text under a tag;
native integers and doubles have JSON forms of their own. All text is ASCII.
-/
import Reckon.Archive.Entry

namespace Reckon.Archive

/-- How entries are laid out: the text of one step of indentation, if there is one line per item,
the separators, and whether fields are sorted by name. -/
structure Layout where
  indent : Option String
  itemSeparator : String
  nameSeparator : String
  sorted : Bool
  deriving Repr

namespace Layout

/-- The layout for some choices: items on lines of their own need no blank behind the separator. -/
def ofChoices (indent : Option String) (separators : Option (String × String)) (sorted : Bool) :
    Layout :=
  let (item, name) := separators.getD (if indent.isSome then "," else ", ", ": ")
  ⟨indent, item, name, sorted⟩

/-- Everything on one line. -/
def inline : Layout := ofChoices none none false

/-- One line per item. -/
def indented (width : Nat) : Layout :=
  ofChoices (some (String.ofList (List.replicate width ' '))) none false

/-- The start of a line at a depth. -/
def lineStart (layout : Layout) (depth : Nat) : String :=
  match layout.indent with
  | some unit => "\n" ++ String.join (List.replicate depth unit)
  | none => ""

/-- Items between two brackets at a depth. -/
def enclose (layout : Layout) (depth : Nat) (left right : String) (items : List String) : String :=
  if items.isEmpty then left ++ right
  else
    let start := layout.lineStart (depth + 1)
    left ++ start ++ (layout.itemSeparator ++ start).intercalate items ++ layout.lineStart depth ++
      right

end Layout

/-! ## Text -/

/-- A unit of 16 bits as an escape. -/
def escapeUnit (n : Nat) : List Char := '\\' :: 'u' :: Text.hexPadded 4 n

/-- A character inside a JSON text. Characters beyond 16 bits are two units. -/
def escape (c : Char) : List Char :=
  let n := c.toNat
  if c == '"' || c == '\\' then ['\\', c]
  else if c == '\n' then ['\\', 'n']
  else if c == '\r' then ['\\', 'r']
  else if c == '\t' then ['\\', 't']
  else if n = 8 then ['\\', 'b']
  else if n = 12 then ['\\', 'f']
  else if 32 ≤ n && n < 127 then [c]
  else if n < 0x10000 then escapeUnit n
  else escapeUnit (0xD800 + (n - 0x10000) / 1024) ++ escapeUnit (0xDC00 + (n - 0x10000) % 1024)

/-- A JSON text with its quotes. -/
def textJson (s : String) : String := String.ofList ('"' :: s.toList.flatMap escape ++ ['"'])

/-! ## Entries -/

/-- A double as JSON; the special values are words. -/
def doubleJson : Double → String
  | .nan => "NaN"
  | .infinite negative => Notation.signText negative ++ "Infinity"
  | x => x.text

/-- A single value as JSON. -/
def leafJson (layout : Layout) (depth : Nat) : Operand → Outcome String
  | .nothing => .ok "null"
  | .truth b => .ok (if b then "true" else "false")
  | .text s => .ok (textJson s)
  | .whole n =>
    if Failure.digitLimit < Digits.width n.natAbs then .error .textValue else .ok (Digits.ofInt n)
  | .float x | .scalar .double x => .ok (doubleJson x)
  | .number x => do
    let field := textJson (Entry.tagOf x) ++ layout.nameSeparator ++ textJson (← Notation.canonical x)
    .ok (layout.enclose depth "\x7b" "\x7d" [field])
  | .scalar .single _ | .word .. | .decimal _ | .ratio _ | .foreign _ => .error .mismatch

mutual

/-- An entry as JSON. -/
def json (layout : Layout) (depth : Nat) : Entry → Outcome String
  | .leaf x => leafJson layout depth x
  | .list items => do
    .ok (layout.enclose depth "[" "]" (← itemsJson layout (depth + 1) items))
  | .object fields => do
    let fields ← fieldsJson layout (depth + 1) fields
    let fields := if layout.sorted then fields.mergeSort fun a b => !(b.1 < a.1) else fields
    .ok (layout.enclose depth "\x7b" "\x7d" (fields.map (·.2)))

/-- The items of a list as JSON. -/
def itemsJson (layout : Layout) (depth : Nat) : List Entry → Outcome (List String)
  | [] => .ok []
  | e :: es => do
    let t ← json layout depth e
    .ok (t :: (← itemsJson layout depth es))

/-- The fields of an object as JSON, each with its name. -/
def fieldsJson (layout : Layout) (depth : Nat) :
    List (String × Entry) → Outcome (List (String × String))
  | [] => .ok []
  | (n, e) :: fs => do
    let t ← json layout depth e
    .ok ((n, textJson n ++ layout.nameSeparator ++ t) :: (← fieldsJson layout depth fs))

end

/-- An entry as a JSON document. -/
def write (layout : Layout) (e : Entry) : Outcome String := json layout 0 e

end Reckon.Archive
