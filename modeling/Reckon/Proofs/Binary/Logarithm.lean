/-
Logarithms of doubles. No double is so near to one that its logarithm could be lost: a logarithm is zero or
far from zero, and so are quotients of logarithms. Far from zero each step, a quotient that is rounded or a
double that is written as a decimal, keeps its value up to the last bit.
-/
import Reckon.Proofs.Binary.Shortest
import Reckon.Proofs.Binary.Spacing
import Reckon.Proofs.Binary.Whole
import Reckon.Proofs.Enclosure.Logarithm

namespace Reckon

open Decimal.Significant (Near)

/-! ## Values of doubles -/

namespace FiniteBinary

variable {x : FiniteBinary .double}

/-- The neighbour of one is half a unit below it. -/
theorem le_abs_sub_one (h : x.toRat ≠ 1) : 1 / 2 ^ 53 ≤ |x.toRat - 1| := by
  rcases lt_or_ge x.toRat (1 / 2) with hsmall | hlarge
  · rw [abs_of_neg (by linarith)]
    linarith [show (1 : ℚ) / 2 ^ 53 ≤ 1 / 2 by norm_num]
  have habs : x.absRat = x.toRat := by rw [← abs_toRat, abs_of_pos (by linarith)]
  obtain ⟨n, hn⟩ := exists_units_of_le (x := x) (a := -1) (by rw [habs]; norm_num; linarith)
  have hunits : x.toRat - 1 = ((n - 2 ^ 53 : ℤ) : ℚ) / 2 ^ 53 := by
    rw [← habs, hn, show (-1 - 52 : ℤ) = -(53 : Nat) by norm_num, zpow_neg, zpow_natCast, ← div_eq_mul_inv,
      div_sub_one (by norm_num)]
    push_cast
    rfl
  have hne : (n - 2 ^ 53 : ℤ) ≠ 0 := fun hzero => h (by rw [← sub_eq_zero, hunits, hzero, Int.cast_zero, zero_div])
  rw [hunits, abs_div, abs_of_pos (show (0 : ℚ) < 2 ^ 53 by positivity)]
  gcongr
  exact_mod_cast Int.one_le_abs hne

theorem negative_eq_false_of_pos (h : 0 < x.toRat) : x.negative = false := by
  refine Bool.eq_false_iff.2 fun hsign => not_le.2 h ?_
  rw [toRat, if_pos hsign]
  exact neg_nonpos.2 x.absRat_nonneg

theorem toRat_pos (hsign : x.negative = false) (hzero : x.isZero = false) : 0 < x.toRat := by
  have hmagnitude : x.magnitude ≠ 0 := fun h => by
    rw [isZero, h] at hzero
    cases hzero
  have hsignificand : 0 < x.significand := by
    have := unit_pos .double
    unfold significand
    split <;> omega
  rw [toRat, hsign, if_neg Bool.false_ne_true, absRat_eq]
  positivity

/-- The exponents of positive doubles. -/
theorem two_zpow_bounds (h : 0 < x.toRat) : (2 : ℚ) ^ (-1074 : ℤ) ≤ x.toRat ∧ x.toRat < 2 ^ (1024 : ℤ) := by
  have habs : x.toRat = x.absRat := by rw [← abs_toRat, abs_of_pos h]
  rw [habs] at h ⊢
  refine ⟨?_, (absRat_le_largest x).trans_lt toRat_largest_lt⟩
  rw [absRat_eq] at h ⊢
  have hsignificand : (1 : ℚ) ≤ x.significand := by
    rw [Nat.one_le_cast, Nat.one_le_iff_ne_zero]
    rintro hzero
    rw [hzero, Nat.cast_zero, zero_mul] at h
    exact h.false
  calc (2 : ℚ) ^ (-1074 : ℤ) ≤ 2 ^ x.quantum := zpow_le_zpow_right₀ (by norm_num) x.quantum_bounds.1
    _ ≤ x.significand * 2 ^ x.quantum := le_mul_of_one_le_left (by positivity) hsignificand

/-- The decimal of a normal double. -/
theorem toDecimal_near (h : (2 : ℚ) ^ (-1022 : ℤ) ≤ |x.toRat|) : Near (1 / 2 ^ 53) x.toRat x.toDecimal.toRat := by
  have hunit : (2 : ℚ) ^ 52 * 2 ^ x.quantum ≤ |x.toRat| := by
    rcases x.quantum_eq_or_unit_le with hmin | hfull
    · rw [hmin, ← zpow_natCast, ← zpow_add₀ (by norm_num)]
      exact h
    · rw [abs_toRat, absRat_eq]
      gcongr
      exact_mod_cast hfull
  unfold Near
  linarith [x.toDecimal_error]

end FiniteBinary

/-! ## Rounded quotients and logarithms -/

namespace Binary

/-- A value far from both ends of the range is rounded up to the last bit. -/
theorem exists_ofRat_near {q : ℚ} (hlow : (2 : ℚ) ^ (-100 : ℤ) ≤ |q|) (hhigh : |q| ≤ 2 ^ (100 : ℤ)) (zeroSign : Bool) :
    ∃ y : FiniteBinary .double, ofRat q zeroSign = .finite y ∧ Near (1 / 2 ^ 52) q y.toRat := by
  obtain ⟨y, hy, -, hvalue⟩ := ofRat_of_le (hhigh.trans (FiniteBinary.two_zpow_le_largest (by norm_num))) zeroSign
  refine ⟨y, hy, ?_⟩
  have htiny : (2 : ℚ) ^ (-1075 : ℤ) ≤ |q| / 2 ^ 53 := by
    rw [le_div_iff₀ (by positivity), ← zpow_natCast, ← zpow_add₀ (by norm_num)]
    exact le_trans (zpow_le_zpow_right₀ (by norm_num) (by norm_num)) hlow
  rw [hvalue]
  unfold Near
  linarith [Roots.nearest_error q]

/-- The sizes of logarithms other than zero. -/
def IsLogarithm (y : FiniteBinary .double) : Prop := 1 / 2 ^ 57 ≤ |y.toRat| ∧ |y.toRat| ≤ 2 ^ 12

theorem IsLogarithm.ne_zero {y : FiniteBinary .double} (h : IsLogarithm y) : y.toRat ≠ 0 :=
  abs_pos.1 (lt_of_lt_of_le (by norm_num) h.1)

/-- The logarithm of a positive number is zero or of such a size. -/
theorem exists_ln {x : FiniteBinary .double} (h : 0 < x.toRat) :
    ∃ y, ln (.finite x) = .finite y ∧ ((x.toRat = 1 ∧ y = .zero false) ∨ (x.toRat ≠ 1 ∧ IsLogarithm y)) := by
  have hln : ln (.finite x) = if x.toRat = 1 then .zero else settled (Enclosure.ln x.toRat) := by
    rw [ln, logarithm]
    simp only [x.isZero_eq_false h.ne', x.negative_eq_false_of_pos h, Bool.false_eq_true, if_false]
  rw [hln]
  by_cases hone : x.toRat = 1
  · exact ⟨.zero false, if_pos hone, .inl ⟨hone, rfl⟩⟩
  rw [if_neg hone]
  suffices hsettled : ∃ y, settled (Enclosure.ln x.toRat) = .finite y ∧ IsLogarithm y by
    obtain ⟨y, hy, hsize⟩ := hsettled
    exact ⟨y, hy, .inr ⟨hone, hsize⟩⟩
  obtain ⟨hlow, hhigh⟩ := x.two_zpow_bounds h
  obtain ⟨hk, hk'⟩ := Enclosure.binaryExponent_bounds h hlow hhigh
  have hexponent : |(Enclosure.binaryExponent x.toRat : ℚ)| ≤ 1074 := by
    exact_mod_cast abs_le.2 ⟨hk, by omega⟩
  refine Enclosure.settle_of_forall (p := fun z : Double => ∃ y, z = .finite y ∧ IsLogarithm y)
    (fun bits hbits => ?_) fun bits => Enclosure.le_of_mem_precisions
  obtain ⟨hfrom, hto⟩ := Enclosure.abs_low_ln_bounds hbits h (x.le_abs_sub_one hone)
  obtain ⟨y, hy, hnear⟩ := exists_ofRat_near (q := (Enclosure.ln x.toRat bits).low)
    (le_trans (by norm_num) hfrom) (le_trans (by linarith) (show (2 * 1074 + 1 : ℚ) ≤ 2 ^ (100 : ℤ) by norm_num)) false
  obtain ⟨hdown, hup⟩ := hnear.abs_bounds
  exact ⟨y, hy, by linarith, by linarith⟩

theorem div_finite {x y : FiniteBinary .double} (hy : y.toRat ≠ 0) :
    div (.finite x) (.finite y) = ofRat (x.toRat / y.toRat) (x.negative != y.negative) := by
  rw [div]
  simp only [y.isZero_eq_false hy, Bool.false_eq_true, if_false]

/-- The quotient of two logarithms. -/
theorem exists_div_near {x y : FiniteBinary .double} (hx : IsLogarithm x) (hy : IsLogarithm y) :
    ∃ z : FiniteBinary .double, div (.finite x) (.finite y) = .finite z ∧ Near (1 / 2 ^ 52) (x.toRat / y.toRat) z.toRat ∧
      1 / 2 ^ 70 ≤ |z.toRat| := by
  have hpos : 0 < |y.toRat| := abs_pos.2 hy.ne_zero
  have hlow : 1 / 2 ^ 69 ≤ |x.toRat / y.toRat| := by
    rw [abs_div, le_div_iff₀ hpos]
    linarith [hx.1, hy.2]
  have hhigh : |x.toRat / y.toRat| ≤ 2 ^ 69 := by
    rw [abs_div, div_le_iff₀ hpos]
    linarith [hx.2, hy.1]
  rw [div_finite hy.ne_zero]
  obtain ⟨z, hz, hnear⟩ := exists_ofRat_near (q := x.toRat / y.toRat) (le_trans (by norm_num) hlow)
    (hhigh.trans (by norm_num)) (x.negative != y.negative)
  exact ⟨z, hz, hnear, by linarith [hnear.abs_bounds.1]⟩

end Binary

end Reckon
