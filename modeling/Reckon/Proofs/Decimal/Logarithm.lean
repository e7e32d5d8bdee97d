/-
Logarithms of very large and very small decimals. The power of ten outweighs the digits in front of it, so the
logarithm is known from the exponent of the leading digit up to a factor of ten.
-/
import Reckon.Proofs.Decimal.Significant
import Reckon.Proofs.Enclosure.Logarithm

namespace Reckon.Decimal

open Reckon.Digits

theorem toRat_of_isOne {d : Decimal} (h : d.isOne = true) : d.toRat = 1 := by
  rw [← toRat_normalize, beq_iff_eq.1 (show (d.normalize == one) = true from h)]
  exact toRat_ofInt 1

theorem adjusted_of_isOne {d : Decimal} (h : d.isOne = true) : d.adjusted = 0 := by
  have hvalue : one.toRat = 1 := toRat_ofInt 1
  have hadjusted : one.adjusted = 0 := by with_unfolding_all decide
  exact (adjusted_eq_of_abs_toRat (b := d) (by decide) (by rw [hvalue, toRat_of_isOne h])).symm.trans hadjusted

namespace Significant

theorem ofRat_near {prec : Nat} (hprec : 1 ≤ prec) (q : ℚ) : Near (ulp prec) q (ofRat prec q).toRat := by
  have hden : (ofInt q.den).coefficient ≠ 0 := q.den_nz
  have h := div_near hprec (ofInt q.num) hden
  rwa [toRat_ofInt, toRat_ofInt, Int.cast_natCast, Rat.num_div_den] at h

theorem mantissa_bounds {d : Decimal} (h : d.coefficient ≠ 0) : 1 ≤ mantissa d ∧ mantissa d < 10 := by
  have hcount : d.digitCount = Nat.log 10 d.coefficient + 1 := width_eq _
  have hpow : (0 : ℚ) < 10 ^ Nat.log 10 d.coefficient := by positivity
  have hlow : (10 : ℚ) ^ Nat.log 10 d.coefficient ≤ d.coefficient := by exact_mod_cast Nat.pow_log_le_self 10 h
  have hhigh : (d.coefficient : ℚ) < 10 ^ (Nat.log 10 d.coefficient + 1) := by
    exact_mod_cast Nat.lt_pow_succ_log_self (by norm_num) _
  rw [mantissa, hcount, Nat.add_sub_cancel, Rat.mkRat_eq_div, Int.cast_natCast, Nat.cast_pow, Nat.cast_ofNat,
    one_le_div hpow, div_lt_iff₀ hpow, ← pow_succ']
  exact ⟨hlow, hhigh⟩

/-- The logarithm of a number outside the range of doubles, to at least two digits. -/
theorem abs_ln_bounds {prec : Nat} (hprec : 2 ≤ prec) {d : Decimal} (h : d.coefficient ≠ 0) (hfar : 300 ≤ |d.adjusted|) :
    |(d.adjusted : ℚ)| ≤ |(ln prec d).toRat| ∧ |(ln prec d).toRat| ≤ 10 * |(d.adjusted : ℚ)| := by
  have hone : ¬ d.isOne = true := fun hone => by
    rw [adjusted_of_isOne hone, abs_zero] at hfar
    omega
  have hulp : ulp prec ≤ 1 / 10 := by
    rw [show (1 / 10 : ℚ) = tenPow (-1) by norm_num [tenPow], ulp, tenPow_le_tenPow]
    omega
  obtain ⟨hlow, hhigh⟩ := mantissa_bounds h
  rw [ln, if_neg hone, settled]
  refine Enclosure.settle_of_forall
    (p := fun r : Decimal => |(d.adjusted : ℚ)| ≤ |r.toRat| ∧ |r.toRat| ≤ 10 * |(d.adjusted : ℚ)|)
    (fun bits hbits => ?_) ?_
  · obtain ⟨hfrom, hto⟩ := Enclosure.abs_low_lnScaled_bounds hbits hlow (hhigh.trans (by norm_num)) hfar
    have hnear := (ofRat_near (by omega) (Enclosure.lnScaled (mantissa d) d.adjusted bits).low).mono hulp
    generalize (Enclosure.lnScaled (mantissa d) d.adjusted bits).low = q at hfrom hto hnear ⊢
    obtain ⟨hdown, hup⟩ := hnear.abs_bounds
    constructor <;> linarith
  · intro bits hmem
    obtain ⟨b, hb, rfl⟩ := List.mem_map.1 hmem
    have := Enclosure.le_of_mem_precisions hb
    omega

end Significant

end Reckon.Decimal
