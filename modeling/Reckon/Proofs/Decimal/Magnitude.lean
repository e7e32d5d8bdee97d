/-
The exponent of the leading digit bounds a decimal from both sides by neighbouring powers of ten,
so two decimals of one value have their leading digit at the same place.
-/
import Reckon.Proofs.Decimal.Value

namespace Reckon.Decimal

open Reckon.Digits

theorem tenPow_le_tenPow {e f : ℤ} : tenPow e ≤ tenPow f ↔ e ≤ f := zpow_le_zpow_iff_right₀ (by norm_num)

theorem tenPow_lt_tenPow {e f : ℤ} : tenPow e < tenPow f ↔ e < f := zpow_lt_zpow_iff_right₀ (by norm_num)

theorem tenPow_sub (e f : ℤ) : tenPow (e - f) = tenPow e / tenPow f := zpow_sub₀ (by norm_num) e f

theorem tenPow_eq_div (e : ℤ) : tenPow e = ((10 ^ e.toNat : Nat) : ℚ) / ((10 ^ (-e).toNat : Nat) : ℚ) := by
  rw [← tenPow_natCast, ← tenPow_natCast, ← tenPow_sub]
  congr 1
  omega

/-- A power of ten below a power of two, by the rates 10 ^ 3 ≤ 2 ^ 10 and 2 ^ 93 ≤ 10 ^ 28. -/
theorem tenPow_le_two_zpow {k s : ℤ} (hup : 10 * k ≤ 3 * s) (hdown : 93 * k ≤ 28 * s) : tenPow k ≤ (2 : ℚ) ^ s := by
  unfold tenPow
  rcases le_total 0 k with hk | hk
  · refine le_of_pow_le_pow_left₀ (by norm_num : 3 ≠ 0) (by positivity) ?_
    calc ((10 : ℚ) ^ k) ^ 3 = (10 ^ 3) ^ k := by rw [← zpow_natCast, ← zpow_mul, mul_comm, zpow_mul]; norm_num
      _ ≤ (2 ^ 10) ^ k := zpow_le_zpow_left₀ hk (by norm_num) (by norm_num)
      _ = 2 ^ (10 * k) := by rw [zpow_mul]; norm_num
      _ ≤ 2 ^ (3 * s) := zpow_le_zpow_right₀ (by norm_num) hup
      _ = (2 ^ s) ^ 3 := by rw [mul_comm, zpow_mul, zpow_ofNat]
  · refine le_of_pow_le_pow_left₀ (by norm_num : 28 ≠ 0) (by positivity) ?_
    calc ((10 : ℚ) ^ k) ^ 28 = (10 ^ 28) ^ k := by rw [← zpow_natCast, ← zpow_mul, mul_comm, zpow_mul]; norm_num
      _ = ((10 ^ 28) ^ (-k))⁻¹ := by rw [zpow_neg, inv_inv]
      _ ≤ ((2 ^ 93) ^ (-k))⁻¹ := inv_anti₀ (by positivity) (zpow_le_zpow_left₀ (by omega) (by norm_num) (by norm_num))
      _ = 2 ^ (93 * k) := by rw [zpow_neg, inv_inv, zpow_mul]; norm_num
      _ ≤ 2 ^ (28 * s) := zpow_le_zpow_right₀ (by norm_num) hdown
      _ = (2 ^ s) ^ 28 := by rw [mul_comm, zpow_mul, zpow_ofNat]

theorem tenPow_adjusted_le {d : Decimal} (h : d.coefficient ≠ 0) : tenPow d.adjusted ≤ |d.toRat| := by
  have hlow : 10 ^ (d.digitCount - 1) ≤ d.coefficient := by
    rw [digitCount, width_eq, Nat.add_sub_cancel]
    exact Nat.pow_log_le_self 10 h
  rw [abs_toRat, adjusted, Int.add_comm, tenPow_add, tenPow_natCast]
  gcongr
  exact (tenPow_pos _).le

theorem abs_toRat_lt (d : Decimal) : |d.toRat| < tenPow (d.adjusted + 1) := by
  have hhigh : d.coefficient < 10 ^ d.digitCount := lt_pow_width _
  have hpos : 0 < d.digitCount := width_pos _
  rw [abs_toRat, show d.adjusted + 1 = (d.digitCount : ℤ) + d.exponent by unfold adjusted; omega, tenPow_add,
    tenPow_natCast]
  gcongr
  exact tenPow_pos _

theorem adjusted_eq_of_abs_toRat {a b : Decimal} (ha : a.coefficient ≠ 0) (h : |a.toRat| = |b.toRat|) :
    a.adjusted = b.adjusted := by
  have hb : b.coefficient ≠ 0 := by
    rw [Ne, ← toRat_eq_zero_iff, ← abs_eq_zero] at ha ⊢
    rwa [← h]
  have hab := tenPow_lt_tenPow.1 ((tenPow_adjusted_le ha).trans_lt (h ▸ abs_toRat_lt b))
  have hba := tenPow_lt_tenPow.1 ((tenPow_adjusted_le hb).trans_lt (h ▸ abs_toRat_lt a))
  omega

theorem adjusted_of_zero {d : Decimal} (h : d.coefficient = 0) : d.adjusted = d.exponent := by
  rw [adjusted, digitCount, h, (width_eq_one_iff 0).2 (by decide)]
  exact Int.add_zero _

/-- A decimal is in range if exponents reach its size and its last place. -/
theorem inRange_of_le {d : Decimal} {a b : Nat} (hsize : |d.toRat| ≤ 10 ^ a) (hlow : -(b : ℤ) ≤ d.exponent)
    (hhigh : d.exponent ≤ a) (ha : a < 10 ^ 18) (hb : b < 10 ^ 18) : d.inRange = true := by
  have hadjusted : d.adjusted ≤ a := by
    by_cases hzero : d.coefficient = 0
    · exact (adjusted_of_zero hzero).trans_le hhigh
    · rw [← tenPow_le_tenPow, tenPow_natCast]
      exact_mod_cast (tenPow_adjusted_le hzero).trans hsize
  rw [inRange_iff, minExponent, maxExponent]
  omega

end Reckon.Decimal
