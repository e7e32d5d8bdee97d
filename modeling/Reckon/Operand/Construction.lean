/-
Building numbers from operands, and native values from numbers. A payload is checked against the
kind or the width that it is given for.
-/
import Reckon.Operand.Basic
import Reckon.Parts

namespace Reckon

namespace Integer

/-- The whole number in an operand and the width that it brings along. -/
def payload (a : Operand) : Outcome (Int × Option Width) :=
  match a with
  | .number (.integer n) => .ok (n.value, none)
  | .word n w => .ok (n, some w)
  | _ =>
    match a.whole? with
    | some n => .ok (n, none)
    | none => .error (.notWhole a.typeName)

/-- An integer of a given width, or of the width that a machine word brings along. -/
def construct (a : Operand) (width : Option String) : Outcome Integer := do
  let (n, own) ← payload a
  match width with
  | some name => ofWidth n (← widthNamed name)
  | none => match own with
    | some w => ofWidth n w
    | none => .ok ⟨n, none⟩

/-- The native value of a number in the range of a width: a machine word where there is one. -/
def nativeOf (n : Int) (w : Width) : Operand := if w.hasScalar then .word n w else .whole n

/-- The number narrowed to a width. -/
def toNative (n : Int) (w : Width) : Outcome Operand := do .ok (nativeOf (← narrow n w) w)

/-- The native value of an integer; an unbounded one has none. -/
def native (n : Integer) : Option Operand := n.width.map (nativeOf n.value)

end Integer

namespace Scalar

/-- A real operand, as the part of a complex number. -/
def realPart : Option Operand → Outcome Real
  | some (.number (.scalar (.real x))) => .ok x
  | _ => .error (.payload .complexParts)

/-- A real number of a kind with its payload. -/
def realOfKind (kind : Kind) (value : Option Operand) : Outcome Real :=
  match kind, value with
  | .nan, none => .ok .nan
  | .infinity, none => .ok (.infinite false)
  | .negInfinity, none => .ok (.infinite true)
  | .nan, _ | .infinity, _ | .negInfinity, _ => .error (.payload (.specialPayload kind))
  | .small, some (.scalar f (.finite x)) => .ok (.small f x)
  | .small, _ => .error (.payload .smallPayload)
  | .big, some (.decimal (.finite d)) => .ok (.big d)
  | .irrational, some (.decimal (.finite d)) => .ok (.irrational d)
  | .recurring, some (.decimal (.finite d)) => .ok (.recurring d)
  | _, _ => .error (.payload (.decimalPayload kind))

/-- A number of a kind: a complex one has two real parts, any other one has a payload that fits its
kind. -/
def construct (kind : Kind) (value re im : Option Operand) : Outcome Scalar :=
  match kind with
  | .complex => do
    let x ← realPart re
    let y ← realPart im
    if value.isSome then .error (.payload .complexPayload) else .ok (.complex x y)
  | _ =>
    if re.isSome || im.isSome then .error (.payload (.realParts kind))
    else (realOfKind kind value).map .real

/-- The complex number of two operands. -/
def complexOf (re im : Operand) : Outcome Scalar := do
  let x ← re.toScalar
  Parts.join x (← im.toScalar)

end Scalar

namespace Operand

/-! ## Native numbers -/

/-- The underscores of a text stand between digits. -/
def underscoresInside : (digitBefore : Bool) → List Char → Bool
  | _, [] => true
  | before, '_' :: cs => before && (cs.head?.any fun c => (Text.decimalValue? c).isSome) &&
      underscoresInside false cs
  | _, c :: cs => underscoresInside (Text.decimalValue? c).isSome cs

/-- The nearest double of a decimal or special value. -/
def doubleOf : ExtendedDecimal → Double
  | .finite d => .ofDecimal d
  | .infinite negative => .infinite negative
  | .nan => .nan

/-- A text read as a double: a decimal literal with any power of ten, an infinity or NaN. -/
def readDouble (s : String) : Outcome Double :=
  let cs := Text.trim s.toList
  match if underscoresInside false cs then Decimal.asciiDigits cs else none with
  | none => .error .textValue
  | some ds =>
    let (negative, body) := Decimal.splitSign ds
    match String.ofList (Text.lowerAll body) with
    | "nan" => .ok .nan
    | "inf" | "infinity" => .ok (.infinite negative)
    | _ =>
      match Decimal.readUnsigned negative body with
      | some d => .ok (.ofDecimal d)
      | none => .error .textValue

/-- A finite double, where there has to be one. -/
def bounded (x : Double) : Outcome Double := if x.isFinite then .ok x else .error .nativeOverflow

/-- The double nearest to an operand. -/
def toDouble : Operand → Outcome Double
  | number n => n.toDouble
  | float x => .ok x
  | scalar _ x => .ok (Binary.convert x)
  | decimal d => .ok (doubleOf d)
  | ratio q => bounded (.ofRat q)
  | text s => readDouble s
  | nothing | foreign _ => .error .mismatch
  | whole n | word n _ => bounded (.ofRat n)
  | truth b => .ok (.ofRat (if b then 1 else 0))

/-- The shortest decimal of a native number, or the special value that it is. A text is read, and
anything else is no decimal. -/
def toShortest : Operand → Outcome ExtendedDecimal
  | float x => .ok (shortest x)
  | scalar _ x => .ok (shortest x)
  | whole n | word n _ => .ok (.finite (.ofInt n))
  | decimal d => .ok d
  | text s => Decimal.ofText s
  | _ => .error .decimalRange
where
  /-- The same for a number of either format. -/
  shortest {f : Format} : Binary f → ExtendedDecimal
    | .finite x => .finite x.toDecimal
    | .infinite negative => .infinite negative
    | .nan => .nan

/-- A native number wrapped as it is; anything else is rounded to a double first, and a missing value
is NaN. -/
def wrapNative : Operand → Outcome Real
  | scalar _ x => .ok (.ofBinary x)
  | nothing => .ok .nan
  | a => a.toDouble.map .ofBinary

/-- The name of the native width or format of a machine value. -/
def widthName : Operand → Outcome String
  | word _ w => .ok w.name
  | scalar .single _ => .ok "f32"
  | scalar .double _ => .ok "f64"
  | a => .error (.noWidth a.typeName)

/-! ## Whole numbers -/

/-- The integer part of a double. -/
def wholeOfDouble (x : Double) : Outcome Int :=
  match x with
  | .finite x => .ok (x.toRat.num.tdiv x.toRat.den)
  | .infinite _ => .error .nativeOverflow
  | .nan => .error .textValue

/-- A text read as a whole number: digits of any script with a sign, underscores between them. -/
def readWhole (s : String) : Outcome Int :=
  let cs := Text.trim s.toList
  let (negative, body) := Decimal.splitSign cs
  let digits := body.filter (· != '_')
  match digits.mapM Text.decimalValue? with
  | some ds =>
    if ds.isEmpty || !underscoresInside false body || Failure.digitLimit < ds.length then
      .error .textValue
    else
      let n : Nat := ds.foldl (fun n d => n * 10 + d) 0
      .ok (if negative then -n else n)
  | none => .error .textValue

/-- The integer part of an operand, as a whole number. -/
def toWhole : Operand → Outcome Int
  | number (.integer n) => .ok n.value
  | number n => n.wholePart.map (·.value)
  | whole n | word n _ => .ok n
  | truth b => .ok (if b then 1 else 0)
  | float x => wholeOfDouble x
  | scalar _ x => wholeOfDouble (Binary.convert x)
  | decimal (.finite d) => .ok d.toInt
  | decimal (.infinite _) => .error .nativeOverflow
  | decimal .nan => .error .textValue
  | ratio q => .ok (q.num.tdiv q.den)
  | text s => readWhole s
  | nothing | foreign _ => .error .mismatch

/-! ## Ratios -/

/-- Digits of any script with underscores between them. -/
def readDigits (cs : List Char) : Option (List Nat) :=
  let ds := cs.filter (· != '_')
  if ds.isEmpty || !underscoresInside false cs then none else ds.mapM Text.decimalValue?

/-- The number that digit values spell. -/
def spelled (ds : List Nat) : Nat := ds.foldl (fun n d => n * 10 + d) 0

/-- A text read as a ratio: `n/d`, or a decimal literal. -/
def readRatio (s : String) : Outcome Rat :=
  let cs := Text.trim s.toList
  let (negative, body) := Decimal.splitSign cs
  let sign (q : Rat) : Rat := if negative then -q else q
  let whole := body.takeWhile (· != '/')
  match body.dropWhile (· != '/') with
  | '/' :: below =>
    match readDigits whole, readDigits below with
    | some n, some d =>
      if spelled d = 0 then .error .zeroDivision else .ok (sign (mkRat (spelled n) (spelled d)))
    | _, _ => .error .textValue
  | _ =>
    match if underscoresInside false cs then Decimal.asciiDigits body else none with
    | none => .error .textValue
    | some ds =>
      match Decimal.readUnsigned negative ds with
      | some d => .ok d.toRat
      | none => .error .textValue

/-- The exact ratio of a native number; a double counts as its shortest decimal. -/
def toRatio : Operand → Outcome Rat
  | ratio q => .ok q
  | float (.finite x) => .ok x.toDecimal.toRat
  | float _ => .error .textValue
  | decimal (.finite d) => .ok d.toRat
  | decimal (.infinite _) => .error .nativeOverflow
  | decimal .nan => .error .textValue
  | whole n | word n _ => .ok n
  | truth b => .ok (if b then 1 else 0)
  | text s => readRatio s
  | number _ | scalar .. | nothing | foreign _ => .error .mismatch

end Operand

end Reckon
