/-
The digits of a decimal. Those before the point and those behind it spell its size: the first are without leading
zeros, and of the second there are as many as places below the point. Dropping the zeros at their end changes
neither the value nor the sign, and digits are left behind the point exactly if the value is not whole.
-/
import Reckon.Proofs.Decimal.Value

namespace Reckon.Decimal

open Reckon.Digits Reckon.Text

/-! ## Digits before and behind the point -/

/-- The digits before the point and behind it spell the size of the decimal, with one digit for each place down
to the exponent. -/
structure Spells (d : Decimal) (whole fraction : List Char) : Prop where
  whole_isDigit : ∀ c ∈ whole, isAsciiDigit c = true
  fraction_isDigit : ∀ c ∈ fraction, isAsciiDigit c = true
  whole_ne_nil : whole ≠ []
  no_leading_zero : ∀ cs, whole = '0' :: cs → cs = []
  length_fraction : (fraction.length : ℤ) = max 0 (-d.exponent)
  value : |d.toRat| = toNat whole + toNat fraction / 10 ^ fraction.length

/-- Without digits behind the point the value is whole. -/
theorem abs_toRat_of_fractionDigits_eq_nil {d : Decimal} (h : d.fractionDigits = []) : |d.toRat| = d.wholePart := by
  obtain ⟨n, hn⟩ := d.exists_toRat_mul_pow
  rw [h, List.length_nil, pow_zero, mul_one] at hn
  rw [wholePart_eq, hn, ← Int.cast_abs, Int.abs_eq_natAbs, Int.cast_natCast, Nat.floor_natCast]

theorem abs_toRat_eq_wholePart_add (d : Decimal) :
    |d.toRat| = d.wholePart + toNat d.fractionDigits / 10 ^ d.fractionDigits.length := by
  by_cases hnil : d.fractionDigits = []
  · rw [abs_toRat_of_fractionDigits_eq_nil hnil, hnil, toNat_nil, Nat.cast_zero, zero_div, add_zero]
  · rw [abs_toRat, exponent_of_fractionDigits hnil, tenPow_neg_natCast, ← wholePart_mul_pow_add hnil]
    push_cast
    field_simp

theorem spells_digits (d : Decimal) : Spells d d.integerDigits d.fractionDigits where
  whole_isDigit := ofNat_isDigit _
  fraction_isDigit := d.fractionDigits_isDigit
  whole_ne_nil := ofNat_ne_nil _
  no_leading_zero _ := eq_nil_of_ofNat_eq
  length_fraction := by
    rw [length_fractionDigits]
    omega
  value := by
    rw [integerDigits, toNat_ofNat]
    exact d.abs_toRat_eq_wholePart_add

/-! ## Dropping zeros -/

/-- The last digit behind the point is that of the coefficient. -/
theorem eq_last_of_fractionDigits_eq {d : Decimal} {c : Char} {cs : List Char} (h : d.fractionDigits = cs ++ [c]) :
    c = digitChar (d.coefficient % 10) := by
  have hneg : ¬ 0 ≤ d.exponent := by
    intro hpos
    rw [fractionDigits, if_pos hpos] at h
    exact List.append_ne_nil_of_right_ne_nil _ (List.cons_ne_nil c []) h.symm
  rw [fractionDigits, if_neg hneg, show d.exponent.natAbs = d.exponent.natAbs - 1 + 1 by omega, padded_succ_eq_append] at h
  exact (List.head_eq_of_cons_eq (List.append_inj' h rfl).2).symm

/-- What is left without the zeros at the end of the fraction: the same value with the same sign and no such zero,
so nothing more is to be dropped; and a decimal has room for it. -/
structure IsStripped (d s : Decimal) : Prop where
  value : s.toRat = d.toRat
  negative : s.negative = d.negative
  no_trailing_zero : ∀ cs, s.fractionDigits ≠ cs ++ ['0']
  fixed : s.strip = s
  inRange : d.inRange = true → s.inRange = true

theorem fractionDigits_strip_ne (d : Decimal) (cs : List Char) : d.strip.fractionDigits ≠ cs ++ ['0'] := by
  intro h
  have hlast : d.strip.coefficient % 10 = 0 :=
    (digitChar_inj (Nat.mod_lt _ (by decide)) (by decide)).1 (eq_last_of_fractionDigits_eq h).symm
  have hneg : d.strip.exponent < 0 := by
    rw [exponent_of_fractionDigits (by rw [h]; exact List.append_ne_nil_of_right_ne_nil _ (List.cons_ne_nil _ _)), h,
      List.length_append, List.length_singleton]
    omega
  exact strip_not_ten_dvd hneg (Nat.dvd_of_mod_eq_zero hlast)

theorem isStripped_strip (d : Decimal) : IsStripped d d.strip where
  value := d.toRat_strip
  negative := d.strip_negative
  no_trailing_zero := d.fractionDigits_strip_ne
  fixed := d.strip_strip
  inRange := inRange_strip

/-! ## Both views -/

/-- The digits spell the decimal, what is stripped of zeros has its value, and it has a fraction exactly if no
integer is its value. -/
theorem digits_spell_and_strip (d : Decimal) : Spells d d.integerDigits d.fractionDigits ∧ IsStripped d d.strip ∧
    (d.hasFraction = true ↔ ∀ n : ℤ, d.toRat ≠ n) := by
  refine ⟨d.spells_digits, d.isStripped_strip, ?_⟩
  rw [hasFraction_iff]
  constructor
  · rintro hden n hn
    exact hden (by rw [hn, Rat.den_intCast])
  · intro hne hden
    exact hne d.toRat.num (Rat.coe_int_num_of_den_eq_one hden).symm

end Reckon.Decimal
