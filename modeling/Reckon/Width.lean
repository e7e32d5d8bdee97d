/-
Native integer widths: the ranges that a machine word of a given size and signedness holds.
-/
import Reckon.Digits
import Reckon.Text.Character

namespace Reckon

/-- The native integer widths. The two machine-sized ones have 64 bits. -/
inductive Width
  | i8 | u8 | i16 | u16 | i32 | u32 | i64 | u64 | isize | usize | i128 | u128
  deriving DecidableEq, Repr, Inhabited

namespace Width

/-- All widths, in the order in which they are listed to the user. -/
def all : List Width := [i8, u8, i16, u16, i32, u32, i64, u64, isize, usize, i128, u128]

/-- The name of a width. -/
def name : Width → String
  | i8 => "i8" | u8 => "u8" | i16 => "i16" | u16 => "u16" | i32 => "i32" | u32 => "u32"
  | i64 => "i64" | u64 => "u64" | isize => "isize" | usize => "usize"
  | i128 => "i128" | u128 => "u128"

/-- The size in bits. -/
def bits : Width → Nat
  | i8 | u8 => 8
  | i16 | u16 => 16
  | i32 | u32 => 32
  | i64 | u64 | isize | usize => 64
  | i128 | u128 => 128

/-- Whether negative values are representable. -/
def signed : Width → Bool
  | i8 | i16 | i32 | i64 | isize | i128 => true
  | u8 | u16 | u32 | u64 | usize | u128 => false

/-- The least value. -/
def min (w : Width) : Int := if w.signed then -2 ^ (w.bits - 1) else 0

/-- The greatest value. -/
def max (w : Width) : Int := if w.signed then 2 ^ (w.bits - 1) - 1 else 2 ^ w.bits - 1

/-- The value lies in the range of the width. -/
def contains (w : Width) (n : Int) : Bool := w.min ≤ n && n ≤ w.max

/-- A machine scalar exists up to 64 bits; wider values stay plain integers in a checked range. -/
def hasScalar (w : Width) : Bool := w.bits ≤ 64

/-- The value modulo the number of words, in the range of the width. -/
def wrap (w : Width) (n : Int) : Int :=
  if w.signed then Int.bmod n (2 ^ w.bits) else n % (2 ^ w.bits : Nat)

/-- The width of a machine scalar with a given signedness and size. -/
def ofBits? (signed : Bool) (bits : Nat) : Option Width :=
  all.find? fun w => w.hasScalar && w.signed == signed && w.bits == bits

/-- The width of a name in any case; the empty name means the 64-bit signed width. -/
def ofName? (name : String) : Option Width :=
  let key := Text.lowerAll name.toList
  if key.isEmpty then some i64 else all.find? fun w => w.name.toList == key

end Width

end Reckon
