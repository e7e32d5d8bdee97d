/-
Stored lists of numbers. A store holds the numbers, how many they are and a digest over their
canonical texts; loading checks the count and the digest.
-/
import Reckon.Archive.Reader
import Reckon.Archive.Writer
import Reckon.Digest

namespace Reckon.Archive

/-- The canonical text of an entry that is a number. -/
def canonicalEntry : Entry → Outcome String
  | .leaf (.number x) => Notation.canonical x
  | _ => .error .entryType

/-- The entries that an entry consists of; those of a text are its characters, those of an object
its names. -/
def contents : Entry → Outcome (List Entry)
  | .list items => .ok items
  | .object fields => .ok (fields.map fun (n, _) => .text n)
  | .leaf (.text s) => .ok (s.toList.map fun c => .text c.toString)
  | .leaf _ => .error .mismatch

/-- The digest of numbers: over their canonical texts, each followed by a line end. -/
def digest (values : Entry) : Outcome String := do
  let texts ← (← contents values).mapM canonicalEntry
  .ok (Digest.hex (texts.flatMap fun t => (t ++ "\n").toUTF8.toList))

/-- The text of a store. -/
def save (values : Entry) : Outcome String := do
  let hash ← digest values
  let count := (← contents values).length
  write (.indented 2)
    (.object [("hash", .text hash), ("count", .leaf (.whole count)), ("values", values)])

/-- A field of a store. -/
def field (store : Entry) (name : String) : Outcome Entry :=
  match store with
  | .object fields =>
    match fields.lookup name with
    | some e => .ok e
    | none => .error .missingEntry
  | _ => .error .mismatch

/-- An entry is the given whole number, in any form. -/
def isCount (e : Entry) (n : Nat) : Outcome Bool :=
  match e with
  | .leaf x => Operand.equals x (.whole n)
  | _ => .ok false

/-- An entry is the given text. -/
def isText (e : Entry) (s : String) : Bool :=
  match e with
  | .leaf x => x == .text s
  | _ => false

/-- The numbers of a store; `file` is the name that an error gives it. -/
def load (file text : String) : Outcome Entry := do
  let store ← read text
  let values ← field store "values"
  let count ← field store "count"
  let found := (← contents values).length
  if !(← isCount count found) then fail (.countMismatch (← count.shown) found)
  else
    let hash ← digest values
    if isText (← field store "hash") hash then .ok values else fail (.hashMismatch file)

end Reckon.Archive
