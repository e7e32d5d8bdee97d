/-
The ways an operation can fail. A `NumericError` is a failed operation on numbers and carries one
of seven codes; a `Malformed` literal is the special case of text that is not a number. All other
constructors of `Failure` are misuses that the numeric channel does not report.
-/
import Reckon.Digits
import Reckon.Text.Quoted
import Reckon.Width

namespace Reckon

/-! ## Codes -/

/-- The code of a failed numeric operation. -/
inductive ErrorCode
  | unimplemented | invalidFormat | divisionByZero | negativeResult | negativeRoot | tooLarge
  | infiniteResult
  deriving DecidableEq, Repr, Inhabited

namespace ErrorCode

/-- All codes. -/
def all : List ErrorCode :=
  [unimplemented, invalidFormat, divisionByZero, negativeResult, negativeRoot, tooLarge,
    infiniteResult]

/-- The number of a code. -/
def number : ErrorCode → Int
  | unimplemented => -1
  | invalidFormat => 1
  | divisionByZero => 2
  | negativeResult => 3
  | negativeRoot => 4
  | tooLarge => 5
  | infiniteResult => 6

/-- What a code says. -/
def message : ErrorCode → String
  | unimplemented => "Operation not implemented"
  | invalidFormat => "Invalid format"
  | divisionByZero => "Division by zero"
  | negativeResult => "Negative result"
  | negativeRoot => "Square root of a negative number"
  | tooLarge => "Number too large"
  | infiniteResult => "Infinite result"

/-- The code with a given number. -/
def ofNumber? (n : Int) : Option ErrorCode := all.find? fun c => c.number == n

/-- What the code with a given number says. -/
def messageOf (n : Int) : String :=
  match ofNumber? n with
  | some c => c.message
  | none => "Unknown error"

/-- The number of the code that a message belongs to, in any case and between any blanks; zero for
an unknown message. -/
def numberOf (text : String) : Int :=
  let key := Text.lowerAll (Text.trim text.toList)
  match all.find? fun c => Text.lowerAll c.message.toList == key with
  | some c => c.number
  | none => 0

/-- The message of a code, followed by a detail if there is one. -/
def describe (c : ErrorCode) (detail : String) : String :=
  if detail.isEmpty then c.message else c.message ++ ": " ++ detail

end ErrorCode

/-! ## Kinds of numbers -/

/-- The kinds of a number that is not an integer. -/
inductive Kind
  | small | big | irrational | recurring | complex | nan | infinity | negInfinity
  deriving DecidableEq, Repr, Inhabited

/-- The name of a kind. -/
def Kind.label : Kind → String
  | small => "small"
  | big => "big"
  | irrational => "irrational"
  | recurring => "recurring"
  | complex => "complex"
  | nan => "nan"
  | infinity => "infinity"
  | negInfinity => "-infinity"

/-! ## Numeric errors -/

/-- A failed operation on numbers. -/
inductive NumericError
  -- conversions to and from native integers
  | negativeForUnsigned (value : Int) (width : Width)
  | outsideWidth (value : Int) (width : Width)
  -- arithmetic
  | nanOperand
  | divisionByZero
  | oppositeInfinities
  | negativeIntegerExponent
  | exponentTooLarge (exponent : Int)
  | zeroToNegativePower
  | zeroExponentDenominator
  | vanishedRoot
  | powerNotReal
  | complexModulo
  | rootIndex (index : Int)
  | evenRoot (index : Int)
  | negativeSquareRoot
  -- bits and shifts
  | bitsNeedIntegers
  | negativeShift
  | shiftTooFar (distance : Int)
  -- elementary functions
  | functionOfNaN (function : String)
  | notANumber (function : String)
  | overflows (function : String)
  | nonPositive (function : String)
  | logOperands
  | logBaseOne
  | argumentOfZero
  | logOfZero
  -- order, rounding, conversion
  | unordered
  | floorOf (kind : Kind)
  | ceilingOf (kind : Kind)
  | noDecimal (kind : Kind)
  | nanNoInteger
  | infiniteNoInteger
  | complexNoInteger
  | fractionalPart
  | nanNoNative
  | complexNoNative
  | outsideFormat (format : String)
  -- text
  | recurringExponent (exponent : Int)
  | radixOutside (radix : Int)
  | integerDigits (digits : String)
  | twoMantissas (instead : String)
  -- calculator
  | placesNotInteger
  | unexpectedCharacter (c : Char) (position : Nat)
  | strayComma
  | strayClose
  | strayOpen
  | unknownName (name : String)
  | emptyExpression
  | argumentCount (function : String) (arity : Nat)
  | missingOperand (operator : String)
  | malformedExpression
  -- stored values
  | countMismatch (expected : String) (found : Nat)
  | hashMismatch (file : String)
  deriving DecidableEq, Repr, Inhabited

namespace NumericError

/-- The code of an error. -/
def code : NumericError → ErrorCode
  | unordered => .unimplemented
  | divisionByZero | zeroToNegativePower | zeroExponentDenominator | vanishedRoot | logBaseOne =>
    .divisionByZero
  | negativeForUnsigned .. | negativeShift => .negativeResult
  | evenRoot .. | negativeSquareRoot => .negativeRoot
  | outsideWidth .. | exponentTooLarge .. | shiftTooFar .. | outsideFormat ..
  | recurringExponent .. => .tooLarge
  | oppositeInfinities | overflows .. | infiniteNoInteger => .infiniteResult
  | _ => .invalidFormat

/-- What an error adds to the message of its code; empty when the code says it all. -/
def detail : NumericError → String
  | negativeForUnsigned v w => Digits.ofInt v ++ " does not fit unsigned " ++ w.name
  | outsideWidth v w => Digits.ofInt v ++ " does not fit " ++ w.name
  | nanOperand => "NaN operand"
  | divisionByZero => ""
  | oppositeInfinities => "Infinity + -Infinity"
  | negativeIntegerExponent => "negative integer exponent"
  | exponentTooLarge e => "exponent " ++ Digits.ofInt e ++ " is too large"
  | zeroToNegativePower => "zero raised to a negative power"
  | zeroExponentDenominator => "exponent denominator is zero"
  | vanishedRoot => "root underflowed to zero"
  | powerNotReal => "power is not a real number"
  | complexModulo => "modulo of a complex number"
  | rootIndex n => "root index " ++ Digits.ofInt n ++ " must be positive"
  | evenRoot n => "even root (" ++ Digits.ofInt n ++ ") of a negative number"
  | negativeSquareRoot => ""
  | bitsNeedIntegers => "bit operations need integers"
  | negativeShift => "negative shift"
  | shiftTooFar n => "shift by " ++ Digits.ofInt n
  | functionOfNaN f => f ++ " of NaN"
  | notANumber f => f ++ " is not a number"
  | overflows f => f ++ " overflows"
  | nonPositive f => f ++ " of a non-positive number"
  | logOperands => "log needs positive operands"
  | logBaseOne => "log base 1"
  | argumentOfZero => "argument of zero"
  | logOfZero => "ln of zero"
  | unordered => "complex numbers are not ordered"
  | floorOf k => "floor of " ++ k.label
  | ceilingOf k => "ceil of " ++ k.label
  | noDecimal k => k.label ++ " has no decimal value"
  | nanNoInteger => "NaN has no integer value"
  | infiniteNoInteger => ""
  | complexNoInteger => "complex value has no integer value"
  | fractionalPart => "value has a fractional part"
  | nanNoNative => "NaN has no native value"
  | complexNoNative => "complex value has no native float"
  | outsideFormat f => "out of " ++ f ++ " range"
  | recurringExponent e => "exponent " ++ Digits.ofInt e ++ " on a repeating value"
  | radixOutside r => "radix " ++ Digits.ofInt r ++ " is outside 2..36"
  | integerDigits ds => "bad integer digits " ++ Text.quoted ds.toList
  | twoMantissas instead => "a complex value has two mantissas; use " ++ instead
  | placesNotInteger => "decimal places must be an integer"
  | unexpectedCharacter c i =>
    "unexpected character " ++ Text.quoted [c] ++ " at position " ++ Digits.ofInt i
  | strayComma => "',' outside a function call"
  | strayClose => "unbalanced ')'"
  | strayOpen => "unbalanced '('"
  | unknownName name => "unknown name " ++ Text.quoted name.toList
  | emptyExpression => "empty expression"
  | argumentCount f n => f ++ " takes " ++ Digits.ofInt n ++ " argument(s)"
  | missingOperand op => "missing operand for " ++ Text.quoted op.toList
  | malformedExpression => "malformed expression"
  | countMismatch expected found =>
    "expected " ++ expected ++ " values, found " ++ Digits.ofInt found
  | hashMismatch file => "hash mismatch in " ++ file

/-- The whole message of an error. -/
def message (e : NumericError) : String := e.code.describe e.detail

end NumericError

/-! ## Malformed literals -/

/-- Why a text is not a literal. Positions count characters of the text that is quoted. -/
inductive Malformed
  | expected (wanted : String) (position : Int) (text : String)
  | radixDigit (radix : Nat) (digit : Char) (position : Nat) (text : String)
  | noRadixDigits (radix : Nat) (text : String)
  | radixRange (radix : Int)
  | emptyInteger
  | notInteger (text : String)
  | expectedDigit (position : Nat) (text : String)
  | trailing (position : Nat) (text : String)
  | exponentDigits (position : Nat) (text : String)
  | emptyCycle (text : String)
  | irrationalCycle (text : String)
  | emptyFloat
  deriving DecidableEq, Repr, Inhabited

namespace Malformed

/-- What is wrong with the text. -/
def detail : Malformed → String
  | expected c i s =>
    "Expected '" ++ c ++ "' at position " ++ Digits.ofInt i ++ " in " ++ Text.quoted s.toList
  | radixDigit r c i s =>
    "Invalid base-" ++ Digits.ofInt r ++ " digit " ++ Text.quoted [c] ++ " at position " ++
      Digits.ofInt i ++ " in " ++ Text.quoted s.toList
  | noRadixDigits r s => "No base-" ++ Digits.ofInt r ++ " digits in " ++ Text.quoted s.toList
  | radixRange r => "Radix " ++ Digits.ofInt r ++ " is outside 2..36"
  | emptyInteger => "Empty integer literal"
  | notInteger s => Text.quoted s.toList ++ " is not an integer"
  | expectedDigit i s => "Expected digit at position " ++ Digits.ofInt i ++ " in " ++ Text.quoted s.toList
  | trailing i s =>
    "Unexpected trailing content at position " ++ Digits.ofInt i ++ " in " ++ Text.quoted s.toList
  | exponentDigits i s =>
    "Expected exponent digits at position " ++ Digits.ofInt i ++ " in " ++ Text.quoted s.toList
  | emptyCycle s => "Empty repeating block in " ++ Text.quoted s.toList
  | irrationalCycle s => "A repeating value cannot be irrational: " ++ Text.quoted s.toList
  | emptyFloat => "Empty float literal"

/-- The whole message; malformed text is an invalid format. -/
def message (e : Malformed) : String := ErrorCode.invalidFormat.describe e.detail

end Malformed

/-! ## All failures -/

/-- A payload that does not fit the kind of number it is given for. -/
inductive PayloadFault
  | complexParts
  | complexPayload
  | realParts (kind : Kind)
  | specialPayload (kind : Kind)
  | smallPayload
  | decimalPayload (kind : Kind)
  deriving DecidableEq, Repr, Inhabited

/-- What is wrong with a payload. -/
def PayloadFault.message : PayloadFault → String
  | complexParts => "complex parts must be real Floats"
  | complexPayload => "complex Float carries no decimal payload"
  | realParts k => k.label ++ " Float has no complex parts"
  | specialPayload k => k.label ++ " carries no payload"
  | smallPayload => "small Float needs a finite np.float32 or np.float64"
  | decimalPayload k => k.label ++ " Float needs a finite Decimal"

/-- Why an operation gave no result. -/
inductive Failure
  /-- The operation is not defined on these numbers. -/
  | numeric (e : NumericError)
  /-- A text is not a literal. -/
  | malformed (e : Malformed)
  /-- An operand is not a number. -/
  | foreignOperand (type : String)
  /-- A value cannot become a real or complex number. -/
  | notConvertible (type : String)
  /-- A value is not a whole number. -/
  | notWhole (type : String)
  | payload (fault : PayloadFault)
  /-- The types of the operands do not go together. -/
  | mismatch
  | negativeDecimalPower
  | unboundedRange (shown : String)
  | emptyRange (low high : Int)
  | unknownWidth (name : String)
  | unknownFormat (name : String)
  | noWidth (type : String)
  | unknownConstant (name : String)
  | zeroDenominator
  /-- A quotient by zero outside the numeric channel. -/
  | zeroDivision
  /-- A decimal's exponent leaves the range of decimals, or a text is no decimal. -/
  | decimalRange
  /-- A decimal result exceeds the greatest exponent. -/
  | decimalOverflow
  /-- A decimal result would have to be rounded below the least exponent. -/
  | decimalInexact
  /-- A decimal other than zero is divided by zero. -/
  | decimalZeroDivision
  /-- There is no element at a position. -/
  | position
  /-- A text is nested too deeply. -/
  | tooDeep
  /-- A value has no text, or a text no value: more than 4300 digits, or not a number at all. -/
  | textValue
  /-- A value is too large for its native form. -/
  | nativeOverflow
  | missingEntry
  | malformedJson
  /-- A stored entry is not of the type that its tag announces. -/
  | entryType
  deriving DecidableEq, Repr, Inhabited

/-- The outcome of an operation that can fail. -/
abbrev Outcome (α : Type) := Except Failure α

namespace Failure

/-- A list of names in brackets, each quoted. -/
def bracketed (names : List String) : String :=
  "[" ++ ", ".intercalate (names.map fun n => Text.quoted n.toList) ++ "]"

/-- The names of the native float formats, in the order in which they are listed to the user. -/
def formatNames : List String := ["f32", "float32", "single", "f64", "float64", "double"]

/-- The message of a failure; none for a misuse that has no wording. -/
def message? : Failure → Option String
  | numeric e => some e.message
  | malformed e => some e.message
  | foreignOperand t => some ("unsupported operand type " ++ t)
  | notConvertible t => some ("cannot make a Float from " ++ t)
  | notWhole t => some ("Integer value must be an int, got " ++ t)
  | payload f => some f.message
  | negativeDecimalPower => some "dpow: negative exponent"
  | unboundedRange shown => some ("random range bounds must be finite reals, got " ++ shown)
  | emptyRange lo hi =>
    some ("randint: empty range [" ++ Digits.ofInt lo ++ ", " ++ Digits.ofInt hi ++ "]")
  | unknownWidth n =>
    some ("Integer width '" ++ n ++ "' not implemented. Supported widths " ++
      bracketed (Width.all.map Width.name))
  | unknownFormat n =>
    some ("Format '" ++ n ++ "' not implemented. Supported formats " ++ bracketed formatNames)
  | noWidth t => some ("No native width for " ++ t)
  | unknownConstant n => some ("unknown constant " ++ Text.quoted n.toList)
  | zeroDenominator => some "long_divide: zero denominator"
  | mismatch | zeroDivision | decimalRange | decimalOverflow | decimalInexact | decimalZeroDivision
  | position | tooDeep | textValue | nativeOverflow | missingEntry | malformedJson | entryType => none

/-- The code of a failure that the numeric channel reports. -/
def code? : Failure → Option ErrorCode
  | numeric e => some e.code
  | malformed _ => some .invalidFormat
  | _ => none

/-- The greatest number of digits that a whole number may have in a message or an exponent. -/
def digitLimit : Nat := 4300

/-- A numeric error that names a whole number; a number over the digit limit has no text. -/
def naming (value : Int) (e : NumericError) : Failure :=
  if Digits.width value.natAbs > digitLimit then .textValue else .numeric e

end Failure

/-- Fails with a numeric error. -/
def fail {α : Type} (e : NumericError) : Outcome α := .error (.numeric e)

end Reckon
