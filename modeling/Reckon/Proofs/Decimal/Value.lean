/-
The value of a decimal is its signed coefficient times a power of ten. Sums, products and signs
compute with the values exactly, and the ways to restore the range of exponents, to drop trailing
zeros and to read digits off keep the value.
-/
import Reckon.Decimal.Places
import Reckon.Proofs.Digits
import Reckon.Proofs.Outcome

namespace Reckon.Decimal

open Reckon.Digits

/-! ## The value -/

/-- The power of ten of an exponent. -/
def tenPow (e : ℤ) : ℚ := 10 ^ e

theorem tenPow_pos (e : ℤ) : 0 < tenPow e := zpow_pos (by norm_num) e

theorem tenPow_ne_zero (e : ℤ) : tenPow e ≠ 0 := (tenPow_pos e).ne'

theorem tenPow_add (e f : ℤ) : tenPow (e + f) = tenPow e * tenPow f := zpow_add₀ (by norm_num) e f

@[simp] theorem tenPow_zero : tenPow 0 = 1 := rfl

theorem tenPow_natCast (k : Nat) : tenPow k = ((10 ^ k : Nat) : ℚ) := by
  rw [tenPow, zpow_natCast]
  push_cast
  rfl

theorem tenPow_toNat {e : ℤ} (h : 0 ≤ e) : tenPow e = ((10 ^ e.toNat : Nat) : ℚ) := by
  rw [← tenPow_natCast, Int.toNat_of_nonneg h]

theorem tenPow_of_le {e f : ℤ} (h : e ≤ f) : tenPow f = ((10 ^ (f - e).toNat : Nat) : ℚ) * tenPow e := by
  rw [← tenPow_natCast, ← tenPow_add]
  congr 1
  omega

theorem tenPow_neg_natCast (k : Nat) : tenPow (-(k : ℤ)) = ((10 ^ k : Nat) : ℚ)⁻¹ := by
  rw [tenPow, zpow_neg, zpow_natCast]
  push_cast
  rfl

theorem isZero_iff (d : Decimal) : d.isZero = true ↔ d.coefficient = 0 := by rw [isZero, beq_iff_eq]

theorem signedCoefficient_of_zero {d : Decimal} (h : d.isZero = true) : d.signedCoefficient = 0 := by
  rw [isZero_iff] at h
  rw [signedCoefficient, h]
  split <;> rfl

theorem signedCoefficient_eq_zero_iff (d : Decimal) : d.signedCoefficient = 0 ↔ d.coefficient = 0 := by
  unfold signedCoefficient
  split <;> omega

theorem signedCoefficient_ofSigned (n e : ℤ) : signedCoefficient ⟨n < 0, n.natAbs, e⟩ = n := by
  unfold signedCoefficient
  simp only [decide_eq_true_eq]
  split <;> omega

theorem natAbs_signedCoefficient (d : Decimal) : d.signedCoefficient.natAbs = d.coefficient := by
  unfold signedCoefficient
  split <;> omega

theorem toRat_eq (d : Decimal) : d.toRat = d.signedCoefficient * tenPow d.exponent := by
  unfold toRat
  split
  · rename_i h
    rw [signedCoefficient_of_zero h]
    simp
  split
  · rename_i h
    rw [Rat.mkRat_eq_div, div_eq_mul_inv, ← tenPow_neg_natCast]
    congr 2
    omega
  · rename_i h
    have : d.exponent = (d.exponent.natAbs : ℤ) := by omega
    conv_rhs => rw [this, tenPow_natCast]
    push_cast
    rfl

theorem toRat_eq_zero_iff (d : Decimal) : d.toRat = 0 ↔ d.coefficient = 0 := by
  rw [toRat_eq, mul_eq_zero, or_iff_left (tenPow_ne_zero _), Int.cast_eq_zero, signedCoefficient_eq_zero_iff]

theorem abs_toRat (d : Decimal) : |d.toRat| = d.coefficient * tenPow d.exponent := by
  rw [toRat_eq, abs_mul, abs_of_pos (tenPow_pos _), ← Int.cast_abs, Int.abs_eq_natAbs, natAbs_signedCoefficient]
  rfl

theorem toRat_ofSigned (n e : ℤ) : toRat ⟨n < 0, n.natAbs, e⟩ = n * tenPow e := by
  rw [toRat_eq, signedCoefficient_ofSigned]

theorem toRat_ofInt (n : ℤ) : (ofInt n).toRat = n := by
  rw [ofInt, toRat_ofSigned, tenPow_zero, mul_one]

/-- A decimal made of its parts holds them, and it can be made exactly if it is in range. -/
theorem make_eq_ok_iff {negative : Bool} {coefficient : Nat} {e : ℤ} {d : Decimal} :
    make negative coefficient e = .ok d ↔ d = ⟨negative, coefficient, e⟩ ∧ d.inRange = true := by
  unfold make
  simp only
  split
  · rename_i h
    rw [Except.ok.injEq]
    exact ⟨fun heq => ⟨heq.symm, heq ▸ h⟩, fun heq => heq.1.symm⟩
  · rename_i h
    have : ¬ (d = ⟨negative, coefficient, e⟩ ∧ d.inRange = true) := fun ⟨heq, hr⟩ => h (heq ▸ hr)
    split <;> exact iff_of_false nofun this

theorem exists_make_eq_error {negative : Bool} {coefficient : Nat} {e : ℤ} (h : inRange ⟨negative, coefficient, e⟩ = false) :
    ∃ f, make negative coefficient e = .error f := by
  unfold make
  simp only [h, Bool.false_eq_true, if_false]
  split <;> exact ⟨_, rfl⟩

theorem toRat_congr {d : Decimal} {coefficient : Nat} {e : ℤ}
    (h : (coefficient : ℚ) * tenPow e = d.coefficient * tenPow d.exponent) :
    toRat ⟨d.negative, coefficient, e⟩ = d.toRat := by
  rw [toRat_eq, toRat_eq]
  unfold signedCoefficient
  cases d.negative
  · simpa using h
  · simpa using congrArg Neg.neg h

/-- The value over its sign. -/
theorem toRat_eq_sign (d : Decimal) :
    d.toRat = (if d.negative then -1 else 1) * (d.coefficient * tenPow d.exponent) := by
  rw [toRat_eq]
  unfold signedCoefficient
  cases d.negative <;> simp

@[simp] theorem abs_sign_mul (p : Prop) [Decidable p] (x : ℚ) : |(if p then -1 else 1) * x| = |x| := by
  split <;> simp

theorem sign_mul_abs (x : ℚ) : (if x < 0 then -1 else 1) * |x| = x := by
  split
  · rw [abs_of_neg ‹x < 0›, neg_one_mul, neg_neg]
  · rw [abs_of_nonneg (not_lt.1 ‹_›), one_mul]

theorem decide_lt_zero_eq {x y : ℚ} {negative : Bool} (hx : x = (if negative then -1 else 1) * y) (hy : 0 < y) :
    decide (x < 0) = negative := by
  rw [hx]
  cases negative
  · simpa using hy.le
  · simpa using hy

theorem toRat_eq_sign_mul_abs (d : Decimal) : d.toRat = (if d.negative then -1 else 1) * |d.toRat| := by
  rw [abs_toRat]
  exact toRat_eq_sign d

theorem negative_eq_false_of_pos {d : Decimal} (h : 0 < d.toRat) : d.negative = false :=
  (decide_lt_zero_eq d.toRat_eq_sign_mul_abs (abs_pos.2 h.ne')).symm.trans (decide_eq_false h.not_gt)

/-! ## Sums and products -/

theorem coefficientAt_mul_tenPow {d : Decimal} {e : ℤ} (h : e ≤ d.exponent) :
    (d.coefficientAt e : ℚ) * tenPow e = d.toRat := by
  rw [toRat_eq]
  unfold coefficientAt
  split
  · rename_i hz
    rw [signedCoefficient_of_zero hz]
    simp
  · rw [tenPow_of_le h]
    push_cast
    ring

theorem toRat_sum (a b : Decimal) : (sum a b).toRat = a.toRat + b.toRat := by
  rw [← coefficientAt_mul_tenPow (min_le_left a.exponent b.exponent),
    ← coefficientAt_mul_tenPow (min_le_right a.exponent b.exponent), ← add_mul, ← Int.cast_add]
  unfold sum
  simp only
  generalize a.coefficientAt _ + b.coefficientAt _ = n
  by_cases hn : n = 0
  · rw [(toRat_eq_zero_iff _).2 (show n.natAbs = 0 by omega), hn]
    simp
  · rw [if_neg hn, toRat_ofSigned]

@[simp] theorem neg_exponent (d : Decimal) : d.neg.exponent = d.exponent := rfl

@[simp] theorem neg_coefficient (d : Decimal) : d.neg.coefficient = d.coefficient := rfl

@[simp] theorem toRat_neg (d : Decimal) : d.neg.toRat = -d.toRat := by
  rw [toRat_eq, toRat_eq, ← neg_mul]
  congr 1
  unfold signedCoefficient neg
  cases d.negative <;> simp

theorem toRat_product (a b : Decimal) : (product a b).toRat = a.toRat * b.toRat := by
  rw [toRat_eq, toRat_eq, toRat_eq, show (product a b).exponent = a.exponent + b.exponent from rfl, tenPow_add]
  have : (product a b).signedCoefficient = a.signedCoefficient * b.signedCoefficient := by
    unfold signedCoefficient product
    cases a.negative <;> cases b.negative <;> simp
  rw [this]
  push_cast
  ring

/-! ## Digits -/

theorem shiftDown_eq (c k : Nat) : shiftDown c k = c / 10 ^ k := by
  unfold shiftDown
  split
  · rename_i h
    have hlt : c < 10 ^ k := calc
      c < 2 ^ (c.log2 + 1) := Nat.lt_log2_self
      _ ≤ 2 ^ k := Nat.pow_le_pow_right (by decide) h
      _ ≤ 10 ^ k := Nat.pow_le_pow_left (by decide) k
    rw [Nat.div_eq_of_lt hlt]
  · rfl

/-- The integer part is cut off the absolute value. -/
theorem wholePart_eq (d : Decimal) : d.wholePart = ⌊|d.toRat|⌋₊ := by
  rw [abs_toRat]
  unfold wholePart
  split
  · rename_i hz
    rw [(isZero_iff d).1 hz]
    simp
  split
  · rename_i h
    have : d.exponent = (d.exponent.natAbs : ℤ) := by omega
    conv_rhs => rw [this, tenPow_natCast, ← Nat.cast_mul, Nat.floor_natCast]
  · rename_i h
    have : d.exponent = -(d.exponent.natAbs : ℤ) := by omega
    conv_rhs => rw [this, tenPow_neg_natCast, ← div_eq_mul_inv, Nat.floor_div_eq_div]
    rw [shiftDown_eq]

theorem length_fractionDigits (d : Decimal) : d.fractionDigits.length = (-d.exponent).toNat := by
  unfold fractionDigits
  split
  · rw [List.length_nil]
    omega
  · rw [length_padded]
    omega

theorem exponent_of_fractionDigits {d : Decimal} (h : d.fractionDigits ≠ []) : d.exponent = -(d.fractionDigits.length : ℤ) := by
  have hpos := List.length_pos_iff.2 h
  rw [length_fractionDigits] at hpos ⊢
  omega

theorem fractionDigits_isDigit (d : Decimal) : ∀ c ∈ d.fractionDigits, Text.isAsciiDigit c = true := by
  unfold fractionDigits
  split
  · exact fun c hc => absurd hc List.not_mem_nil
  · exact padded_isDigit _ _

/-- The value of a decimal is whole in units of its last fraction digit. -/
theorem exists_toRat_mul_pow (d : Decimal) : ∃ n : ℤ, d.toRat * 10 ^ d.fractionDigits.length = n := by
  have hlast : -(d.fractionDigits.length : ℤ) ≤ d.exponent := by
    rw [length_fractionDigits]
    omega
  refine ⟨d.coefficientAt (-(d.fractionDigits.length : ℤ)), ?_⟩
  rw [← coefficientAt_mul_tenPow hlast, tenPow_neg_natCast, mul_assoc]
  push_cast
  rw [inv_mul_cancel₀ (by positivity), mul_one]

/-- The digits before and behind the point spell the coefficient. -/
theorem wholePart_mul_pow_add {d : Decimal} (h : d.fractionDigits ≠ []) :
    d.wholePart * 10 ^ d.fractionDigits.length + toNat d.fractionDigits = d.coefficient := by
  have hexp := exponent_of_fractionDigits h
  have hwhole : d.wholePart = d.coefficient / 10 ^ d.fractionDigits.length := by
    rw [wholePart_eq, abs_toRat, hexp, tenPow_neg_natCast, ← div_eq_mul_inv, Nat.floor_div_eq_div]
  have hneg : ¬ 0 ≤ d.exponent := by
    have := List.length_pos_iff.2 h
    omega
  rw [hwhole, fractionDigits, if_neg hneg, length_padded, toNat_padded, Nat.div_add_mod']

/-! ## Trailing zeros -/

/-- The decimal with `k` zeros moved from the end of its coefficient into its exponent. -/
def dropZeros (d : Decimal) (k : Nat) : Decimal := ⟨d.negative, d.coefficient / 10 ^ k, d.exponent + k⟩

@[simp] theorem dropZeros_zero (d : Decimal) : d.dropZeros 0 = d := by simp [dropZeros]

section

variable {d : Decimal} {k : Nat} (hdvd : 10 ^ k ∣ d.coefficient)

include hdvd

theorem toRat_dropZeros : (d.dropZeros k).toRat = d.toRat := by
  refine toRat_congr ?_
  obtain ⟨m, hm⟩ := hdvd
  rw [hm, Nat.mul_div_cancel_left m (by positivity), tenPow_add, tenPow_natCast]
  push_cast
  ring

theorem dropZeros_coefficient_pos (h : d.coefficient ≠ 0) : 0 < (d.dropZeros k).coefficient :=
  Nat.div_pos (Nat.le_of_dvd (Nat.pos_of_ne_zero h) hdvd) (by positivity)

/-- The leading digit stays where it is. -/
theorem adjusted_dropZeros (h : d.coefficient ≠ 0) : (d.dropZeros k).adjusted = d.adjusted := by
  have hpos : 0 < d.coefficient / 10 ^ k := dropZeros_coefficient_pos hdvd h
  have hwidth := width_mul_pow hpos k
  have hone := width_pos (d.coefficient / 10 ^ k)
  rw [Nat.div_mul_cancel hdvd] at hwidth
  simp only [adjusted, digitCount, dropZeros]
  omega

end

theorem strip_of_zero {d : Decimal} (h : d.coefficient = 0) : d.strip = signedZero d.negative := by
  unfold strip
  rw [if_pos ((isZero_iff d).2 h)]

/-- What `strip` does to a decimal that is not zero: it moves zeros from the coefficient to the
exponent until one of the two forbids it. -/
theorem strip_spec {d : Decimal} (h : d.coefficient ≠ 0) : ∃ k : Nat,
    10 ^ k ∣ d.coefficient ∧ d.strip = d.dropZeros k ∧
      (0 < k → d.exponent + k ≤ 0) ∧ (d.exponent + k < 0 → ¬ 10 ∣ d.coefficient / 10 ^ k) := by
  unfold strip
  rw [if_neg (by rwa [isZero_iff])]
  split
  · exact ⟨0, by simp, by simp, by simp, by omega⟩
  · rename_i hneg
    obtain ⟨h1, h2, h3⟩ := trailingZeros_spec d.exponent.natAbs d.coefficient
    simp only
    generalize trailingZeros d.exponent.natAbs d.coefficient = k at h1 h2 h3
    refine ⟨k, h2, ?_, by omega, fun hlt hdvd => h3 (by omega) ?_⟩
    · split
      · rename_i hk
        rw [hk, dropZeros_zero]
      · rfl
    · rw [pow_succ]
      exact (Nat.dvd_div_iff_mul_dvd h2).1 hdvd

/-- A fraction that is left keeps its last digit. -/
theorem strip_not_ten_dvd {d : Decimal} (hneg : d.strip.exponent < 0) : ¬ 10 ∣ d.strip.coefficient := by
  by_cases h : d.coefficient = 0
  · rw [strip_of_zero h] at hneg
    exact absurd hneg (lt_irrefl 0)
  · obtain ⟨k, -, heq, -, hlast⟩ := strip_spec h
    rw [heq] at hneg ⊢
    exact hlast hneg

theorem strip_negative (d : Decimal) : d.strip.negative = d.negative := by
  by_cases h : d.coefficient = 0
  · rw [strip_of_zero h]; rfl
  · obtain ⟨k, -, heq, -⟩ := strip_spec h
    rw [heq]
    rfl

theorem toRat_strip (d : Decimal) : d.strip.toRat = d.toRat := by
  by_cases h : d.coefficient = 0
  · rw [strip_of_zero h, (toRat_eq_zero_iff d).2 h]; rfl
  · obtain ⟨k, hdvd, heq, -⟩ := strip_spec h
    rw [heq, toRat_dropZeros hdvd]

theorem strip_withSign (d : Decimal) (negative : Bool) :
    strip ⟨negative, d.coefficient, d.exponent⟩ = ⟨negative, d.strip.coefficient, d.strip.exponent⟩ := by
  have hzero : isZero ⟨negative, d.coefficient, d.exponent⟩ = d.isZero := rfl
  unfold strip
  rw [hzero]
  simp only
  split
  · rfl
  split
  · rfl
  split <;> rfl

/-- A stripped decimal has no more zeros to drop. -/
theorem strip_strip (d : Decimal) : d.strip.strip = d.strip := by
  by_cases h : d.coefficient = 0
  · rw [strip_of_zero h]
    rfl
  · obtain ⟨k, hdvd, heq, -⟩ := strip_spec h
    have hne : d.strip.coefficient ≠ 0 := by
      rw [heq]
      exact (dropZeros_coefficient_pos hdvd h).ne'
    obtain ⟨j, hdvd', heq', hle, -⟩ := strip_spec hne
    rcases Nat.eq_zero_or_pos j with rfl | hj
    · rw [heq', dropZeros_zero]
    · exfalso
      have hneg := hle hj
      exact strip_not_ten_dvd (by omega) ((dvd_pow_self 10 hj.ne').trans hdvd')

/-- Dropping zeros leaves the leading digit where it is. -/
theorem adjusted_strip {d : Decimal} (h : d.coefficient ≠ 0) :
    d.strip.coefficient ≠ 0 ∧ d.exponent ≤ d.strip.exponent ∧ d.strip.adjusted = d.adjusted := by
  obtain ⟨k, hdvd, heq, -⟩ := strip_spec h
  rw [heq]
  exact ⟨(dropZeros_coefficient_pos hdvd h).ne', by simp only [dropZeros]; omega, adjusted_dropZeros hdvd h⟩

theorem normalize_of_zero {d : Decimal} (h : d.coefficient = 0) : d.normalize = signedZero d.negative := by
  rw [normalize, if_pos ((isZero_iff d).2 h)]

/-- What `normalize` does to a decimal that is not zero: it drops every zero at the end of the coefficient. -/
theorem normalize_spec {d : Decimal} (h : d.coefficient ≠ 0) : ∃ k : Nat, 10 ^ k ∣ d.coefficient ∧
    d.normalize = d.dropZeros k ∧ ¬ 10 ∣ (d.dropZeros k).coefficient := by
  obtain ⟨-, hdvd, hmost⟩ := trailingZeros_spec d.digitCount d.coefficient
  unfold normalize
  rw [if_neg (by rwa [isZero_iff])]
  refine ⟨_, hdvd, rfl, fun hten => hmost ?_ ?_⟩
  · -- a number is at least the power of ten that it is a multiple of
    have hle := Nat.le_of_dvd (Nat.pos_of_ne_zero h) ((Nat.dvd_div_iff_mul_dvd hdvd).1 hten)
    rw [← pow_succ] at hle
    have := (Nat.pow_lt_pow_iff_right (show 1 < 10 by decide)).1 (hle.trans_lt (lt_pow_width d.coefficient))
    exact (Nat.lt_succ_self _).trans this
  · rw [pow_succ]
    exact (Nat.dvd_div_iff_mul_dvd hdvd).1 hten
theorem toRat_normalize (d : Decimal) : d.normalize.toRat = d.toRat := by
  by_cases h : d.coefficient = 0
  · rw [normalize_of_zero h, (toRat_eq_zero_iff d).2 h]
    rfl
  · obtain ⟨k, hdvd, heq, -⟩ := normalize_spec h
    rw [heq, toRat_dropZeros hdvd]

/-- Digits whose last one is not zero make one with no exponent only. -/
theorem mul_tenPow_eq_one_iff {m : Nat} {e : ℤ} (hlast : ¬ 10 ∣ m) : (m : ℚ) * tenPow e = 1 ↔ m = 1 ∧ e = 0 := by
  constructor
  · intro hone
    rcases lt_or_ge e 0 with he | he
    · -- a power of ten below one needs a factor of ten
      exfalso
      have hten := tenPow_neg_natCast (-e).toNat
      rw [show -((-e).toNat : ℤ) = e by omega] at hten
      rw [hten, ← div_eq_mul_inv, div_eq_one_iff_eq (by positivity)] at hone
      have hnat : m = 10 ^ (-e).toNat := by exact_mod_cast hone
      exact hlast (hnat ▸ dvd_pow_self 10 (by omega))
    · rw [tenPow_toNat he] at hone
      have hnat : m * 10 ^ e.toNat = 1 := by exact_mod_cast hone
      have hm1 := Nat.eq_one_of_mul_eq_one_right hnat
      rw [hm1, Nat.one_mul] at hnat
      have := (Nat.pow_eq_one.1 hnat).resolve_left (by decide)
      exact ⟨hm1, by omega⟩
  · rintro ⟨rfl, rfl⟩
    simp

/-- Without any trailing zero, also before the point, one is written with the digit one. -/
theorem normalize_one_iff (d : Decimal) :
    (d.normalize.coefficient = 1 ∧ d.normalize.exponent = 0) ↔ |d.toRat| = 1 := by
  rw [← toRat_normalize, abs_toRat]
  by_cases h : d.coefficient = 0
  · rw [normalize_of_zero h]
    simp [signedZero]
  · obtain ⟨k, -, heq, hlast⟩ := normalize_spec h
    rw [heq]
    exact (mul_tenPow_eq_one_iff hlast).symm

/-! ## The range of exponents -/

theorem inRange_iff (d : Decimal) :
    d.inRange = true ↔ minExponent ≤ d.exponent ∧ d.adjusted ≤ maxExponent := by
  rw [inRange, Bool.and_eq_true, decide_eq_true_eq, decide_eq_true_eq]

theorem exponent_le_adjusted (d : Decimal) : d.exponent ≤ d.adjusted := by
  unfold adjusted
  omega

/-- A whole number is a decimal if its digits are no more than exponents can count. -/
theorem inRange_ofInt_iff (n : ℤ) : (ofInt n).inRange = true ↔ width n.natAbs ≤ 10 ^ 18 := by
  have hmin : minExponent ≤ 0 := by decide
  have hwidth := width_pos n.natAbs
  rw [inRange_iff, ofInt, adjusted, digitCount, maxExponent]
  simp only
  omega

theorem inRange_strip {d : Decimal} (h : d.inRange = true) : d.strip.inRange = true := by
  by_cases hz : d.coefficient = 0
  · rw [strip_of_zero hz]
    cases d.negative <;> with_unfolding_all decide
  · obtain ⟨-, hle, hadj⟩ := adjusted_strip hz
    rw [inRange_iff] at h ⊢
    omega

theorem toRat_fit {d r : Decimal} (h : fit d = .ok r) : r.toRat = d.toRat := by
  unfold fit at h
  split at h
  · rw [Except.ok.inj h]
  split at h
  · rename_i hz
    rw [isZero_iff] at hz
    obtain rfl := Except.ok.inj h
    rw [(toRat_eq_zero_iff d).2 hz]
    exact (toRat_eq_zero_iff _).2 hz
  split at h
  · cases h
  simp only at h
  split at h
  · rename_i hr _ hmax hk
    obtain rfl := Except.ok.inj h
    rw [inRange_iff] at hr
    obtain ⟨m, hm⟩ := hk ▸ (trailingZeros_spec (minExponent - d.exponent).toNat d.coefficient).2.1
    refine toRat_congr ?_
    rw [shiftDown_eq, tenPow_of_le (show d.exponent ≤ minExponent by omega), hm,
      Nat.mul_div_cancel_left m (by positivity)]
    push_cast
    ring
  · cases h

/-- The decimal is zero, or its leading digit is in range and no digit lies below the least
exponent. -/
def Fits (d : Decimal) : Prop :=
  d.coefficient = 0 ∨ d.adjusted ≤ maxExponent ∧ 10 ^ (minExponent - d.exponent).toNat ∣ d.coefficient

theorem exists_fit_iff (d : Decimal) : (∃ r, fit d = .ok r) ↔ d.Fits := by
  unfold fit Fits
  split
  · rename_i hr
    rw [inRange_iff] at hr
    refine iff_of_true ⟨_, rfl⟩ (.inr ⟨hr.2, ?_⟩)
    rw [show (minExponent - d.exponent).toNat = 0 by omega]
    exact one_dvd _
  split
  · rename_i hz
    exact iff_of_true ⟨_, rfl⟩ (.inl ((isZero_iff d).1 hz))
  rename_i hz
  rw [isZero_iff] at hz
  split
  · rename_i hmax
    exact iff_of_false nofun (by omega)
  rename_i hmax
  obtain ⟨hle, hdvd, hmost⟩ := trailingZeros_spec (minExponent - d.exponent).toNat d.coefficient
  simp only
  split
  · rename_i hk
    exact iff_of_true ⟨_, rfl⟩ (.inr ⟨by omega, hk ▸ hdvd⟩)
  · rename_i hk
    refine iff_of_false nofun ?_
    rintro (hzero | ⟨-, hall⟩)
    · exact hz hzero
    · exact hmost (by omega) ((pow_dvd_pow 10 (by omega)).trans hall)

theorem toRat_mul {a b r : Decimal} (h : mul a b = .ok r) : r.toRat = a.toRat * b.toRat := by
  rw [toRat_fit h, toRat_product]

theorem powLoop_eq (acc square : Decimal) {n : Nat} (hn : n ≠ 0) : powLoop acc square n =
    (if n % 2 = 1 then mul acc square else .ok acc) >>= fun acc =>
      if n / 2 = 0 then .ok acc else mul square square >>= fun square => powLoop acc square (n / 2) := by
  rw [powLoop, dif_neg hn]
  by_cases hodd : n % 2 = 1
  · rw [if_pos hodd, if_pos hodd]
  · rw [if_neg hodd, if_neg hodd]

/-- What is left to multiply is the power of the square for the remaining bits. -/
theorem toRat_powLoop {acc square r : Decimal} {n : Nat} (h : powLoop acc square n = .ok r) :
    r.toRat = acc.toRat * square.toRat ^ n := by
  induction n using Nat.strong_induction_on generalizing acc square with
  | _ n ih =>
    by_cases hn : n = 0
    · rw [powLoop, dif_pos hn] at h
      rw [← Except.ok.inj h, hn, pow_zero, mul_one]
    rw [powLoop_eq acc square hn] at h
    obtain ⟨acc', hacc, h⟩ := Outcome.bind_eq_ok.1 h
    have hacc' : acc'.toRat = acc.toRat * square.toRat ^ (n % 2) := by
      split at hacc
      · rename_i hodd
        rw [toRat_mul hacc, hodd, pow_one]
      · rw [← Except.ok.inj hacc, show n % 2 = 0 by omega, pow_zero, mul_one]
    split at h
    · rw [← Except.ok.inj h, hacc', show n % 2 = n by omega]
    · obtain ⟨square', hsquare, h⟩ := Outcome.bind_eq_ok.1 h
      rw [ih (n / 2) (by omega) h, hacc', toRat_mul hsquare, ← pow_two, ← pow_mul, mul_assoc, ← pow_add,
        Nat.mod_add_div]

theorem toRat_pow {a r : Decimal} {n : Nat} (h : pow a n = .ok r) : r.toRat = a.toRat ^ n := by
  have hone : one.toRat = 1 := by with_unfolding_all decide
  rw [toRat_powLoop h, hone, one_mul]

/-! ## Cutting -/

/-- A rational cut towards zero after a number of places. -/
def cut (places : ℤ) (q : ℚ) : ℚ :=
  (if q < 0 then -1 else 1) * (⌊|q| * tenPow places⌋₊ * tenPow (-places))

theorem cut_sign_mul (places : ℤ) (negative : Bool) {x : ℚ} (hx : 0 ≤ x) :
    cut places ((if negative then -1 else 1) * x) =
      (if negative then -1 else 1) * (⌊x * tenPow places⌋₊ * tenPow (-places)) := by
  unfold cut
  rw [abs_sign_mul, abs_of_nonneg hx]
  cases negative with
  | false => rw [if_neg (by simpa using hx)]; rfl
  | true =>
    rcases hx.eq_or_lt with rfl | hpos
    · simp
    · rw [if_pos (by simpa using hpos)]; rfl

theorem toRat_truncate {d r : Decimal} {places : ℤ} (h : d.truncate places = .ok r) :
    r.toRat = cut places d.toRat := by
  have hx : 0 ≤ (d.coefficient : ℚ) * tenPow d.exponent := mul_nonneg (by positivity) (tenPow_pos _).le
  rw [toRat_eq_sign d, cut_sign_mul places _ hx, mul_assoc, ← tenPow_add]
  unfold truncate at h
  split at h
  · rename_i hle
    obtain rfl := Except.ok.inj h
    have hpow := tenPow_toNat (show 0 ≤ d.exponent + places by omega)
    rw [hpow, ← Nat.cast_mul, Nat.floor_natCast, Nat.cast_mul, ← hpow, mul_assoc, ← tenPow_add, toRat_eq_sign,
      add_neg_cancel_right]
  · rename_i hlt
    obtain ⟨unit, hunit, hr⟩ := Outcome.bind_eq_ok.1 h
    obtain rfl := Except.ok.inj hr
    obtain ⟨rfl, -⟩ := make_eq_ok_iff.1 hunit
    rw [show d.exponent + places = -((-places - d.exponent).toNat : ℤ) by omega, tenPow_neg_natCast,
      ← div_eq_mul_inv, Nat.floor_div_eq_div, toRat_eq_sign, shiftDown_eq]

theorem cut_eq_zero_iff (places : ℤ) (q : ℚ) : cut places q = 0 ↔ |q| < tenPow (-places) := by
  have hpow := tenPow_pos places
  have hsign : (if q < 0 then -1 else 1 : ℚ) ≠ 0 := by split <;> norm_num
  have hinv : tenPow (-places) = 1 / tenPow places := by
    rw [eq_div_iff hpow.ne', ← tenPow_add, neg_add_cancel, tenPow_zero]
  unfold cut
  rw [mul_eq_zero, or_iff_right hsign, mul_eq_zero, or_iff_left (tenPow_ne_zero _), Nat.cast_eq_zero,
    Nat.floor_eq_zero, hinv, lt_div_iff₀ hpow]

theorem ite_neg_eq_abs (y : ℚ) : (if y < 0 then -y else y) = |y| := by
  split
  · rename_i h
    rw [abs_of_neg h]
  · rename_i h
    rw [abs_of_nonneg (not_lt.1 h)]

theorem scaled_eq (q : ℚ) (places : ℤ) : scaled q places = |q| * tenPow places := by
  unfold scaled
  rw [ite_neg_eq_abs]
  simp only
  split
  · rw [← tenPow_natCast, show (places.natAbs : ℤ) = places by omega]
  · rw [div_eq_mul_inv, ← tenPow_neg_natCast, show -(places.natAbs : ℤ) = places by omega]

theorem toRat_truncateRat {q : ℚ} {places : ℤ} {r : Decimal} (h : truncateRat q places = .ok r) :
    r.toRat = cut places q := by
  obtain ⟨rfl, -⟩ := make_eq_ok_iff.1 h
  have hfloor : (|q| * tenPow places).floor.toNat = ⌊|q| * tenPow places⌋₊ := by
    rw [← Int.floor_toNat]
    rfl
  rw [toRat_ofSigned, scaled_eq, hfloor]
  unfold cut
  split <;> simp

theorem cut_cut (places : ℤ) (q : ℚ) : cut places (cut places q) = cut places q := by
  rw [show cut places q = (if decide (q < 0) then -1 else 1) * (⌊|q| * tenPow places⌋₊ * tenPow (-places)) by
    simp only [cut, decide_eq_true_eq]]
  have hunits : (0 : ℚ) ≤ ⌊|q| * tenPow places⌋₊ * tenPow (-places) := mul_nonneg (Nat.cast_nonneg _) (tenPow_pos _).le
  rw [cut_sign_mul places _ hunits, mul_assoc _ (tenPow (-places)), ← tenPow_add, neg_add_cancel, tenPow_zero, mul_one,
    Nat.floor_natCast]

/-! ## Integers among the decimals -/

/-- The coefficient of an integer is the integer with zeros appended. -/
theorem coefficient_of_den_eq_one {d : Decimal} {k : Nat} (hk : d.exponent = -(k : ℤ)) (hden : d.toRat.den = 1) :
    d.coefficient = d.toRat.num.natAbs * 10 ^ k := by
  have hsize : |d.toRat| = d.coefficient * tenPow (-(k : ℤ)) := by rw [abs_toRat, hk]
  rw [tenPow_neg_natCast, ← div_eq_mul_inv, eq_div_iff (by positivity), ← Rat.coe_int_num_of_den_eq_one hden,
    ← Int.cast_abs, Int.abs_eq_natAbs] at hsize
  exact_mod_cast hsize.symm

theorem hasFraction_iff (d : Decimal) : d.hasFraction = true ↔ d.toRat.den ≠ 1 := by
  unfold hasFraction
  rw [decide_eq_true_iff, ← toRat_strip d]
  constructor
  · intro hneg hden
    refine strip_not_ten_dvd hneg ?_
    rw [coefficient_of_den_eq_one (k := (-d.strip.exponent).toNat) (by omega) hden]
    exact Dvd.dvd.mul_left (dvd_pow_self 10 (by omega)) _
  · intro hden
    by_contra hexp
    have hunits := coefficientAt_mul_tenPow (d := d.strip) (not_lt.1 hexp)
    rw [tenPow_zero, mul_one] at hunits
    rw [← hunits] at hden
    exact hden (Rat.den_intCast _)

end Reckon.Decimal
