/-
Arithmetic of native numbers among themselves. Two of them meet in a realm, which decides how they
calculate: whole numbers of any size and ratios exactly, decimals at the working precision, doubles
with one rounding, machine words modulo their size and machine scalars in their format. A whole
number or double takes the type of the machine value it meets. Decimals do not meet binary numbers
or ratios.
-/
import Reckon.Binary.Functions
import Reckon.Decimal.Working
import Reckon.Operand.Construction

namespace Reckon

namespace Operand

/-! ## Realms -/

/-- A way to calculate. -/
inductive Realm
  | whole | float | ratio | decimal
  | word (w : Width)
  | scalar (f : Format)
  deriving DecidableEq, Repr

namespace Realm

/-- Where words of two widths meet: in a width that contains both, or else in the double format. -/
def ofWidths (w v : Width) : Realm :=
  if w.signed == v.signed then .word (if w.bits < v.bits then v else w)
  else
    let (s, u) := if w.signed then (w, v) else (v, w)
    if u.bits < s.bits then .word s
    else
      match Width.ofBits? true (2 * u.bits) with
      | some x => .word x
      | none => .scalar .double

/-- Where two realms meet. A short word fits the single format. -/
def join : Realm → Realm → Option Realm
  | whole, r | r, whole => some r
  | word w, word v => some (ofWidths w v)
  | word w, scalar f | scalar f, word w => some (.scalar (if w.bits ≤ 16 then f else .double))
  | scalar f, scalar g => some (.scalar (if f = g then f else .double))
  | word _, float | float, word _ => some (.scalar .double)
  | scalar f, float | float, scalar f => some (.scalar f)
  | float, float | float, ratio | ratio, float | scalar _, ratio | ratio, scalar _ => some .float
  | ratio, ratio | ratio, word _ | word _, ratio => some .ratio
  | decimal, decimal | decimal, word _ | word _, decimal => some .decimal
  | decimal, _ | _, decimal => none

end Realm

/-- The realm of a native number. A truth value counts as a whole number. -/
def realm? : Operand → Option Realm
  | whole _ | truth _ => some .whole
  | word _ w => some (.word w)
  | float _ => some .float
  | scalar f _ => some (.scalar f)
  | decimal _ => some .decimal
  | ratio _ => some .ratio
  | number _ | text _ | nothing | foreign _ => none

/-- The realm in which two operands meet. -/
def meeting? (a b : Operand) : Option Realm := do (← a.realm?).join (← b.realm?)

/-! ## Entering a realm -/

/-- A whole operand, of any kind. -/
def wholeOrZero (a : Operand) : Int := a.whole?.getD 0

/-- A whole operand as a word, which has to contain it unless it is a word already. -/
def toWord (w : Width) (a : Operand) : Outcome Int :=
  match a with
  | whole n => if w.contains n then .ok n else .error .nativeOverflow
  | _ => .ok a.wholeOrZero

/-- An operand in a binary format. -/
def toBinary (f : Format) (a : Operand) : Outcome (Binary f) :=
  match a with
  | scalar _ x => .ok (Binary.convert x)
  | word n _ => .ok (.ofRat n)
  | _ => a.toDouble.map Binary.convert

/-- A whole operand or decimal as a decimal. -/
def toDecimal (a : Operand) : ExtendedDecimal :=
  match a with
  | decimal d => d
  | _ => .finite (.ofInt a.wholeOrZero)

/-! ## Operations -/

/-- An operation in every realm. -/
structure Arithmetic where
  onWholes : Int → Int → Outcome Operand
  onWords : Width → Int → Int → Outcome Operand
  onRatios : Rat → Rat → Outcome Operand
  onDoubles : Double → Double → Outcome Double
  onScalars : (f : Format) → Binary f → Binary f → Binary f
  onDecimals : ExtendedDecimal → ExtendedDecimal → Outcome ExtendedDecimal

namespace Arithmetic

/-- The operation in the realm where two operands meet. -/
def apply (o : Arithmetic) (a b : Operand) : Outcome Operand :=
  match a.meeting? b with
  | none => .error .mismatch
  | some .whole => o.onWholes a.wholeOrZero b.wholeOrZero
  | some (.word w) => do
    let m ← a.toWord w
    o.onWords w m (← b.toWord w)
  | some .ratio => do
    let p ← a.toRatio
    o.onRatios p (← b.toRatio)
  | some .float => do
    let x ← a.toDouble
    .ok (.float (← o.onDoubles x (← b.toDouble)))
  | some (.scalar f) => do
    let x ← a.toBinary f
    .ok (.scalar f (o.onScalars f x (← b.toBinary f)))
  | some .decimal => (o.onDecimals a.toDecimal b.toDecimal).map .decimal

/-- An operation that stays in each realm and is defined everywhere. -/
def closed (onWholes : Int → Int → Int) (onRatios : Rat → Rat → Rat)
    (onBinaries : (f : Format) → Binary f → Binary f → Binary f)
    (onDecimals : ExtendedDecimal → ExtendedDecimal → Outcome ExtendedDecimal) : Arithmetic where
  onWholes m n := .ok (.whole (onWholes m n))
  onWords w m n := .ok (.word (w.wrap (onWholes m n)) w)
  onRatios p q := .ok (.ratio (onRatios p q))
  onDoubles x y := .ok (onBinaries .double x y)
  onScalars := onBinaries
  onDecimals := onDecimals

/-- The sum. -/
def add : Arithmetic :=
  closed (· + ·) (· + ·) (fun _ => Binary.add) ExtendedDecimal.Working.add

/-- The difference. -/
def sub : Arithmetic :=
  closed (· - ·) (· - ·) (fun _ => Binary.sub) ExtendedDecimal.Working.sub

/-- The product. -/
def mul : Arithmetic :=
  closed (· * ·) (· * ·) (fun _ => Binary.mul) ExtendedDecimal.Working.mul

/-- Refuses a zero as divisor. -/
def refuseZero (isZero : Bool) : Outcome Unit := if isZero then .error .zeroDivision else .ok ()

/-- The quotient. That of whole numbers is a double, that of words a machine scalar, where alone a
divisor may be zero. -/
def div : Arithmetic where
  onWholes m n := do
    refuseZero (n == 0)
    .ok (.float (← bounded (.ofRat (Rat.divInt m n) (n < 0))))
  onWords _ m n := .ok (.scalar .double (Binary.div (.ofRat m) (.ofRat n)))
  onRatios p q := do
    refuseZero (q == 0)
    .ok (.ratio (p / q))
  onDoubles x y := do
    refuseZero y.isZero
    .ok (x.div y)
  onScalars _ := Binary.div
  onDecimals := ExtendedDecimal.Working.div

/-- The remainder of the division rounded down, with the sign of the divisor; among decimals that of
the division towards zero. The remainder of a word by zero is zero. -/
def mod : Arithmetic where
  onWholes m n := do
    refuseZero (n == 0)
    .ok (.whole (m.fmod n))
  onWords w m n := .ok (.word (if n = 0 then 0 else m.fmod n) w)
  onRatios p q := do
    refuseZero (q == 0)
    .ok (.ratio (p - q * ((p / q).floor : Rat)))
  onDoubles x y := do
    refuseZero y.isZero
    .ok (x.mod y)
  onScalars _ := Binary.mod
  onDecimals := ExtendedDecimal.Working.mod

/-- The power of doubles. Zero has no negative power, and a negative base only whole ones. -/
def powDoubles (x y : Double) : Outcome Double :=
  let z := Binary.pow x y
  match x, y with
  | .finite a, .finite b =>
    if a.isZero && b.negative && !b.isZero then .error .zeroDivision
    else if z == .nan then .error .mismatch
    else bounded z
  | _, _ => .ok z

/-- The power of words, by squaring. -/
def powWords (w : Width) (m : Int) (n : Nat) : Int :=
  if n = 0 then 1
  else
    let square := powWords w (w.wrap (m * m)) (n / 2)
    if n % 2 = 1 then w.wrap (square * m) else square
termination_by n
decreasing_by omega

/-- The power. Negative exponents lead whole numbers to doubles and words nowhere; a ratio has exact
powers for whole exponents. Decimals have none here. -/
def pow : Arithmetic where
  onWholes m n :=
    if 0 ≤ n then .ok (.whole (m ^ n.toNat))
    else do
      let x ← bounded (.ofRat m)
      .ok (.float (← powDoubles x (← bounded (.ofRat n))))
  onWords w m n := if 0 ≤ n then .ok (.word (powWords w m n.toNat) w) else .error .textValue
  onRatios p q :=
    if q.den = 1 then
      if 0 ≤ q then .ok (.ratio (p ^ q.num.toNat))
      else do
        refuseZero (p == 0)
        .ok (.ratio ((1 / p) ^ q.num.natAbs))
    else do
      let x ← bounded (.ofRat p)
      .ok (.float (← powDoubles x (← bounded (.ofRat q))))
  onDoubles := powDoubles
  onScalars _ x y := Binary.convert (Binary.pow (Binary.convert x) (Binary.convert y))
  onDecimals _ _ := .error .mismatch

end Arithmetic

/-! ## Bits -/

/-- An operation on the bits of whole numbers, truth values or words. -/
def nativeBits (onWholes : Int → Int → Int) (a b : Operand) : Outcome Operand :=
  match a, b with
  | truth p, truth q => .ok (.truth (onWholes (if p then 1 else 0) (if q then 1 else 0) != 0))
  | _, _ =>
    match a.meeting? b with
    | some .whole => .ok (.whole (onWholes a.wholeOrZero b.wholeOrZero))
    | some (.word w) => do
      let m ← a.toWord w
      .ok (.word (w.wrap (onWholes m (← b.toWord w))) w)
    | _ => .error .mismatch

/-- A shift. A whole number refuses a negative distance; a word is `exhausted` by a distance outside
its size. -/
def nativeShift (shift : Int → Nat → Int) (exhausted : Int → Int) (a b : Operand) :
    Outcome Operand :=
  match a.meeting? b with
  | some .whole =>
    let k := b.wholeOrZero
    if k < 0 then .error .textValue else .ok (.whole (shift a.wholeOrZero k.toNat))
  | some (.word w) => do
    let m ← a.toWord w
    let k ← b.toWord w
    .ok (.word (if 0 ≤ k && k < w.bits then w.wrap (shift m k.toNat) else exhausted m) w)
  | _ => .error .mismatch

/-- The left shift. -/
def nativeShiftLeft : Operand → Operand → Outcome Operand :=
  nativeShift (fun m k => m * (2 ^ k : Nat)) fun _ => 0

/-- The right shift, rounded down. -/
def nativeShiftRight : Operand → Operand → Outcome Operand :=
  nativeShift (· >>> ·) fun m => if m < 0 then -1 else 0

end Operand

end Reckon
