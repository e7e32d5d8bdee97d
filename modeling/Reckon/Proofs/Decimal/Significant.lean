/-
The error of decimal arithmetic to a number of significant digits. Rounding moves a value by at most
half a unit of the last digit that is kept, so relative to the value by at most `ulp / 2`; the short
cuts of quotients, sums and powers are far below that, and every operation stays within `ulp`.
-/
import Reckon.Decimal.Significant
import Reckon.Proofs.Decimal.Magnitude

namespace Reckon.Decimal.Significant

open Reckon.Digits

/-! ## Relative errors -/

/-- `r` is `q` up to a relative error. -/
def Near (ε q r : ℚ) : Prop := |r - q| ≤ ε * |q|

theorem near_self {ε : ℚ} (hε : 0 ≤ ε) (q : ℚ) : Near ε q q := by
  rw [Near, sub_self, abs_zero]
  positivity

theorem Near.mono {ε ε' q r : ℚ} (h : Near ε q r) (hε : ε ≤ ε') : Near ε' q r :=
  h.trans (mul_le_mul_of_nonneg_right hε (abs_nonneg q))

theorem Near.abs_bounds {ε q r : ℚ} (h : Near ε q r) : (1 - ε) * |q| ≤ |r| ∧ |r| ≤ (1 + ε) * |q| := by
  unfold Near at h
  have hdown := abs_sub_abs_le_abs_sub q r
  have hup := abs_sub_abs_le_abs_sub r q
  rw [abs_sub_comm] at hdown
  constructor <;> linarith

theorem Near.trans {ε ε' p q r : ℚ} (h : Near ε p q) (h' : Near ε' q r) (hε' : 0 ≤ ε') :
    Near (ε + ε' + ε * ε') p r := by
  have hq := h.abs_bounds.2
  unfold Near at *
  calc |r - p| ≤ |r - q| + |q - p| := abs_sub_le r q p
    _ ≤ ε' * ((1 + ε) * |p|) + ε * |p| := add_le_add (h'.trans (mul_le_mul_of_nonneg_left hq hε')) h
    _ = (ε + ε' + ε * ε') * |p| := by ring

theorem Near.mul {ε ε' p q r s : ℚ} (h : Near ε p r) (h' : Near ε' q s) : Near (ε + ε' + ε * ε') (p * q) (r * s) := by
  have hs := h'.abs_bounds.2
  unfold Near at *
  calc |r * s - p * q| = |(r - p) * s + p * (s - q)| := by ring_nf
    _ ≤ |r - p| * |s| + |p| * |s - q| := by
      rw [← abs_mul, ← abs_mul]
      exact abs_add_le _ _
    _ ≤ ε * |p| * ((1 + ε') * |q|) + |p| * (ε' * |q|) :=
      add_le_add (mul_le_mul h hs (abs_nonneg _) ((abs_nonneg _).trans h)) (mul_le_mul_of_nonneg_left h' (abs_nonneg _))
    _ = (ε + ε' + ε * ε') * |p * q| := by
      rw [abs_mul]
      ring

/-- Of a value that is not negative, both bounds. -/
theorem near_iff {ε q r : ℚ} (hq : 0 ≤ q) : Near ε q r ↔ (1 - ε) * q ≤ r ∧ r ≤ (1 + ε) * q := by
  rw [Near, abs_of_nonneg hq, abs_le]
  constructor <;> rintro ⟨hlow, hhigh⟩ <;> constructor <;> linarith

/-- The unit of the last of `prec` digits, relative to the value. -/
def ulp (prec : Nat) : ℚ := tenPow (1 - prec)

theorem ulp_pos (prec : Nat) : 0 < ulp prec := tenPow_pos _

theorem ulp_le_one {prec : Nat} (h : 1 ≤ prec) : ulp prec ≤ 1 := by
  rw [ulp, ← tenPow_zero, tenPow_le_tenPow]
  omega

/-! ## Rounding -/

theorem roundHalfEven_error (num : Nat) {den : Nat} (hden : 0 < den) :
    2 * |(roundHalfEven num den * den : ℤ) - num| ≤ den := by
  have hdiv := Nat.div_add_mod num den
  have hmod := Nat.mod_lt num hden
  have hnum : (num : ℤ) = (num / den : Nat) * den + (num % den : Nat) := by
    rw [mul_comm]
    exact_mod_cast hdiv.symm
  unfold roundHalfEven
  simp only [Bool.or_eq_true, decide_eq_true_eq, Bool.and_eq_true, beq_iff_eq]
  rw [hnum]
  generalize num / den = q at *
  generalize num % den = r at *
  split
  · rename_i h
    rw [sub_add_cancel_left, abs_neg, Nat.abs_cast]
    omega
  · rename_i h
    have hdiff : ((q + 1 : Nat) * den : ℤ) - (q * den + r) = den - r := by
      push_cast
      ring
    rw [hdiff, abs_of_nonneg (by omega)]
    omega

/-- The value after rounding; a carry into a new digit does not change it. -/
theorem toRat_roundTo {prec : Nat} (hprec : 1 ≤ prec) {d : Decimal} (hlong : prec < d.digitCount) :
    (roundTo prec d).toRat = (if d.negative then -1 else 1) *
      (roundHalfEven d.coefficient (10 ^ (d.digitCount - prec)) * tenPow (d.exponent + (d.digitCount - prec : Nat))) := by
  unfold roundTo
  rw [if_neg (by omega)]
  simp only
  generalize roundHalfEven d.coefficient (10 ^ (d.digitCount - prec)) = c
  split
  · rename_i hc
    obtain ⟨k, rfl⟩ : ∃ k, prec = k + 1 := ⟨prec - 1, by omega⟩
    have hten : tenPow 1 = 10 := zpow_one 10
    rw [toRat_eq_sign, hc, pow_succ, Nat.mul_div_cancel _ (by decide), tenPow_add _ 1, hten]
    push_cast
    ring
  · rw [toRat_eq_sign]

theorem roundTo_near {prec : Nat} (hprec : 1 ≤ prec) (d : Decimal) : Near (ulp prec / 2) d.toRat (roundTo prec d).toRat := by
  by_cases hlong : prec < d.digitCount
  · have hcoefficient : d.coefficient ≠ 0 := by
      intro h
      rw [digitCount, h, width_eq] at hlong
      simp at hlong
      omega
    obtain ⟨k, hk⟩ : ∃ k, d.digitCount = prec + k := ⟨d.digitCount - prec, by omega⟩
    -- half a unit of the last place that is kept is at most half an `ulp` of the number
    have hunit : tenPow (d.exponent + k) = ulp prec * tenPow d.adjusted := by
      rw [ulp, ← tenPow_add]
      congr 1
      unfold adjusted
      omega
    have herror : |(roundHalfEven d.coefficient (10 ^ k) : ℚ) * ((10 ^ k : Nat) : ℚ) - d.coefficient| ≤
        ((10 ^ k : Nat) : ℚ) / 2 := by
      have h := roundHalfEven_error d.coefficient (show 0 < 10 ^ k by positivity)
      have hcast : 2 * |(roundHalfEven d.coefficient (10 ^ k) : ℚ) * ((10 ^ k : Nat) : ℚ) - d.coefficient| ≤
          ((10 ^ k : Nat) : ℚ) := by exact_mod_cast h
      linarith
    rw [Near, toRat_roundTo hprec hlong, hk, Nat.add_sub_cancel_left, toRat_eq_sign d, ← mul_sub, abs_sign_mul,
      abs_sign_mul]
    calc |(roundHalfEven d.coefficient (10 ^ k) : ℚ) * tenPow (d.exponent + k) - d.coefficient * tenPow d.exponent|
        = |(roundHalfEven d.coefficient (10 ^ k) : ℚ) * ((10 ^ k : Nat) : ℚ) - d.coefficient| * tenPow d.exponent := by
          rw [← abs_of_pos (tenPow_pos d.exponent), ← abs_mul, abs_of_pos (tenPow_pos d.exponent), tenPow_add,
            tenPow_natCast]
          congr 1
          ring
      _ ≤ ((10 ^ k : Nat) : ℚ) / 2 * tenPow d.exponent := by
          gcongr
          exact (tenPow_pos _).le
      _ = ulp prec / 2 * tenPow d.adjusted := by
          rw [tenPow_add, tenPow_natCast] at hunit
          linarith
      _ ≤ ulp prec / 2 * |d.toRat| := by
          have := ulp_pos prec
          gcongr
          exact tenPow_adjusted_le hcoefficient
      _ = ulp prec / 2 * |(d.coefficient : ℚ) * tenPow d.exponent| := by
          rw [abs_toRat, abs_of_nonneg (mul_nonneg (Nat.cast_nonneg _) (tenPow_pos _).le)]
  · rw [roundTo, if_pos (not_lt.1 hlong)]
    exact near_self (half_pos (ulp_pos prec)).le _

/-! ## Products and quotients -/

section

variable {prec : Nat} (hprec : 1 ≤ prec)

include hprec

theorem mul_near (a b : Decimal) : Near (ulp prec / 2) (a.toRat * b.toRat) (mul prec a b).toRat := by
  rw [← toRat_product]
  exact roundTo_near hprec _

end

/-- Of a quotient at least one digit more than the precision is computed. -/
theorem pow_le_quotient {prec : Nat} {a b : Decimal} (ha : a.coefficient ≠ 0) :
    10 ^ prec * (b.coefficient * 10 ^ (-((b.digitCount : ℤ) - a.digitCount + prec + 1)).toNat) ≤
      a.coefficient * 10 ^ ((b.digitCount : ℤ) - a.digitCount + prec + 1).toNat := by
  have hlow : 10 ^ (a.digitCount - 1) ≤ a.coefficient := by
    rw [digitCount, width_eq, Nat.add_sub_cancel]
    exact Nat.pow_log_le_self 10 ha
  have hhigh : b.coefficient < 10 ^ b.digitCount := lt_pow_width _
  have hwidth : 0 < a.digitCount := width_pos _
  generalize hshift : (b.digitCount : ℤ) - a.digitCount + prec + 1 = shift
  calc 10 ^ prec * (b.coefficient * 10 ^ (-shift).toNat)
      ≤ 10 ^ prec * (10 ^ b.digitCount * 10 ^ (-shift).toNat) := by gcongr
    _ = 10 ^ (a.digitCount - 1) * 10 ^ shift.toNat := by
      rw [← pow_add, ← pow_add, ← pow_add]
      congr 1
      omega
    _ ≤ a.coefficient * 10 ^ shift.toNat := by gcongr

/-- The digits of a quotient are at most a unit away from it. -/
theorem exists_toRat_quotient (prec : Nat) {a b : Decimal} (ha : a.coefficient ≠ 0) (hb : b.coefficient ≠ 0) {shift : ℤ}
    (hshift : shift = (b.digitCount : ℤ) - a.digitCount + prec + 1) :
    ∃ c : Nat, |(c : ℚ) - ((a.coefficient * 10 ^ shift.toNat : Nat) : ℚ) / ((b.coefficient * 10 ^ (-shift).toNat : Nat) : ℚ)| ≤ 1 ∧
      (quotient prec a b).toRat =
        (if (a.negative != b.negative) = true then -1 else 1) * (c * tenPow (a.exponent - b.exponent - shift)) := by
  have hden : 0 < b.coefficient * 10 ^ (-shift).toNat := by positivity
  unfold quotient
  rw [if_neg (by rwa [isZero_iff])]
  simp only [← hshift]
  generalize a.coefficient * 10 ^ shift.toNat = num
  generalize b.coefficient * 10 ^ (-shift).toNat = den at hden
  -- the quotient before rounding, as its whole part and a rest below one
  have hdiv : (num : ℚ) / den = (num / den : Nat) + ((num % den : Nat) : ℚ) / den := by
    rw [div_eq_iff (by positivity), add_mul, div_mul_cancel₀ _ (by positivity)]
    exact_mod_cast (Nat.div_add_mod' num den).symm
  have hrest : ((num % den : Nat) : ℚ) / den < 1 := by
    rw [div_lt_one (by exact_mod_cast hden)]
    exact_mod_cast Nat.mod_lt num hden
  have hrest' : 0 ≤ ((num % den : Nat) : ℚ) / den := by positivity
  split
  · refine ⟨if num / den % 5 = 0 then num / den + 1 else num / den, ?_, toRat_eq_sign _⟩
    rw [hdiv, abs_le]
    split
    · push_cast
      constructor <;> linarith
    · constructor <;> linarith
  -- without a rest zeros are dropped, which keeps the value
  · rename_i hexact
    have hmod : num % den = 0 := not_not.1 hexact
    refine ⟨num / den, by rw [hdiv, hmod]; simp, ?_⟩
    generalize htrailing : (a.exponent - b.exponent - (a.exponent - b.exponent - shift)).toNat = limit
    obtain ⟨m, hm⟩ := (trailingZeros_spec limit (num / den)).2.1
    generalize trailingZeros limit (num / den) = k at hm
    rw [toRat_eq_sign, hm, Nat.mul_div_cancel_left m (by positivity)]
    simp only
    rw [tenPow_add, tenPow_natCast]
    push_cast
    ring

theorem quotient_near (prec : Nat) (a : Decimal) {b : Decimal} (hb : b.coefficient ≠ 0) :
    Near (ulp prec / 10) (a.toRat / b.toRat) (quotient prec a b).toRat := by
  by_cases ha : a.coefficient = 0
  · have hq : (quotient prec a b).toRat = 0 := by
      unfold quotient
      rw [if_pos ((isZero_iff a).2 ha)]
      exact (toRat_eq_zero_iff _).2 rfl
    rw [hq, (toRat_eq_zero_iff a).2 ha, zero_div]
    exact near_self (by have := ulp_pos prec; positivity) _
  obtain ⟨shift, hshift⟩ : ∃ shift : ℤ, shift = (b.digitCount : ℤ) - a.digitCount + prec + 1 := ⟨_, rfl⟩
  obtain ⟨c, hc, hquotient⟩ := exists_toRat_quotient prec ha hb hshift
  -- the quotient of the shifted coefficients has digits enough that one more or less does not count
  have hlarge := @pow_le_quotient prec a b ha
  rw [← hshift] at hlarge
  have hvalue : a.toRat / b.toRat = (if (a.negative != b.negative) = true then -1 else 1) *
      (((a.coefficient * 10 ^ shift.toNat : Nat) : ℚ) / ((b.coefficient * 10 ^ (-shift).toNat : Nat) : ℚ) *
        tenPow (a.exponent - b.exponent - shift)) := by
    have hb' : (b.coefficient : ℚ) ≠ 0 := by exact_mod_cast hb
    have hten := tenPow_ne_zero b.exponent
    rw [toRat_eq_sign, toRat_eq_sign, tenPow_sub, tenPow_sub, tenPow_eq_div shift]
    push_cast
    cases a.negative <;> cases b.negative <;> simp only [bne_self_eq_false, Bool.false_bne, Bool.true_bne,
      Bool.not_false, Bool.false_eq_true, if_true, if_false] <;> field_simp
  have hsign : |(if (a.negative != b.negative) = true then -1 else 1 : ℚ)| = 1 := by
    cases a.negative <;> cases b.negative <;> simp
  have hden : (0 : ℚ) < ((b.coefficient * 10 ^ (-shift).toNat : Nat) : ℚ) := by
    exact_mod_cast Nat.mul_pos (Nat.pos_of_ne_zero hb) (by positivity)
  rw [Near, hvalue, hquotient, ← mul_sub, ← sub_mul, abs_mul, abs_mul, abs_mul, abs_mul, hsign, one_mul, one_mul,
    ← mul_assoc]
  gcongr
  refine hc.trans ?_
  rw [abs_of_nonneg (by positivity), ulp, sub_eq_add_neg, tenPow_add, show tenPow 1 = 10 from zpow_one 10,
    mul_div_cancel_left₀ _ (by norm_num), tenPow_neg_natCast, inv_mul_eq_div, le_div_iff₀ (by positivity), one_mul,
    le_div_iff₀ hden]
  exact_mod_cast hlarge

section

variable {prec : Nat} (hprec : 1 ≤ prec)

include hprec

theorem div_near (a : Decimal) {b : Decimal} (hb : b.coefficient ≠ 0) :
    Near (ulp prec) (a.toRat / b.toRat) (div prec a b).toRat := by
  have hulp := ulp_pos prec
  have hone := ulp_le_one hprec
  refine ((quotient_near prec a hb).trans (roundTo_near hprec _) (by positivity)).mono ?_
  nlinarith

end

/-! ## Sums -/

theorem lt_tenPow_of_adjusted_lt {d : Decimal} {e : ℤ} (h : d.adjusted < e) : |d.toRat| < tenPow e :=
  (abs_toRat_lt d).trans_le (tenPow_le_tenPow.2 h)

/-- What replaces a far smaller term is of its sign, and both are below a hundredth of a unit. -/
theorem nearby_error (prec : Nat) (big small : Decimal) :
    |(nearby prec big small).toRat - small.toRat| ≤ ulp prec / 100 * |big.toRat| := by
  have hulp := ulp_pos prec
  unfold nearby
  simp only
  generalize he : big.exponent - 1 - ((if prec < big.digitCount then 0 else prec + 1 - big.digitCount : Nat) : ℤ) = e
  split
  · rw [sub_self, abs_zero]
    positivity
  rename_i hfar
  rw [Bool.or_eq_true, decide_eq_true_eq, not_or, not_le, Bool.not_eq_true] at hfar
  obtain ⟨hbig, hadjusted⟩ := hfar
  have hcoefficient : big.coefficient ≠ 0 := fun h => by
    rw [(isZero_iff big).2 h] at hbig
    cases hbig
  -- what takes the place of the small operand is below the last digit that counts
  have hunit : tenPow e ≤ ulp prec / 100 * |big.toRat| := by
    have hwidth : 0 < big.digitCount := width_pos _
    calc tenPow e ≤ tenPow (1 - prec + -2 + big.adjusted) := by
          rw [tenPow_le_tenPow, ← he]
          unfold adjusted
          split <;> omega
      _ = ulp prec / 100 * tenPow big.adjusted := by
          rw [tenPow_add, tenPow_add, ulp, show tenPow (-2) = 1 / 100 by norm_num [tenPow]]
          ring
      _ ≤ ulp prec / 100 * |big.toRat| := by
          gcongr
          exact tenPow_adjusted_le hcoefficient
  refine le_trans ?_ hunit
  by_cases hsmall : small.coefficient = 0
  · rw [if_pos ((isZero_iff small).2 hsmall), (toRat_eq_zero_iff small).2 hsmall, (toRat_eq_zero_iff _).2 rfl, sub_self,
      abs_zero]
    exact (tenPow_pos e).le
  · have hlt := lt_tenPow_of_adjusted_lt hadjusted
    have hpos : 0 ≤ (small.coefficient : ℚ) * tenPow small.exponent := mul_nonneg (Nat.cast_nonneg _) (tenPow_pos _).le
    rw [if_neg (by rwa [isZero_iff]), toRat_eq_sign, toRat_eq_sign small, ← mul_sub, abs_sign_mul, Nat.cast_one, one_mul]
    rw [abs_toRat] at hlt
    rw [abs_of_pos (sub_pos.2 hlt)]
    linarith

theorem nearSum_error (prec : Nat) (a b : Decimal) :
    |(nearSum prec a b).toRat - (a.toRat + b.toRat)| ≤ ulp prec / 100 * (|a.toRat| + |b.toRat|) := by
  have hulp := ulp_pos prec
  unfold nearSum
  split
  · rw [toRat_sum, add_sub_add_right_eq_sub]
    refine (nearby_error prec b a).trans ?_
    gcongr
    exact le_add_of_nonneg_left (abs_nonneg _)
  · rw [toRat_sum, add_sub_add_left_eq_sub]
    refine (nearby_error prec a b).trans ?_
    gcongr
    exact le_add_of_nonneg_right (abs_nonneg _)

section

variable {prec : Nat} (hprec : 1 ≤ prec)

include hprec

theorem add_near {a b : Decimal} (ha : 0 ≤ a.toRat) (hb : 0 ≤ b.toRat) :
    Near (ulp prec) (a.toRat + b.toRat) (add prec a b).toRat := by
  have hulp := ulp_pos prec
  have hone := ulp_le_one hprec
  have hsum : Near (ulp prec / 100) (a.toRat + b.toRat) (nearSum prec a b).toRat := by
    have := nearSum_error prec a b
    rw [abs_of_nonneg ha, abs_of_nonneg hb] at this
    rwa [Near, abs_of_nonneg (add_nonneg ha hb)]
  refine (hsum.trans (roundTo_near hprec _) (by positivity)).mono ?_
  nlinarith

/-- The two errors of a difference that is computed: that of the sum before rounding, and the rounding. -/
theorem sub_errors {a b : Decimal} (ha : 0 ≤ a.toRat) (hb : 0 ≤ b.toRat) :
    ∃ s, |s - (a.toRat - b.toRat)| ≤ ulp prec / 100 * (a.toRat + b.toRat) ∧
      |(sub prec a b).toRat - s| ≤ ulp prec / 2 * |s| := by
  have hsum := nearSum_error prec a b.neg
  rw [toRat_neg, abs_neg, abs_of_nonneg ha, abs_of_nonneg hb, ← sub_eq_add_neg] at hsum
  exact ⟨_, hsum, roundTo_near hprec _⟩

/-- A difference that is computed is as small as the true one, up to the two errors. -/
theorem sub_abs_le {a b : Decimal} (ha : 0 ≤ a.toRat) (hb : 0 ≤ b.toRat) :
    |(sub prec a b).toRat| ≤ 2 * (|a.toRat - b.toRat| + ulp prec * (a.toRat + b.toRat)) := by
  have hulp := ulp_pos prec
  have hone := ulp_le_one hprec
  obtain ⟨s, hsum, hround⟩ := sub_errors hprec ha hb
  have hs := (abs_sub_abs_le_abs_sub _ _).trans hsum
  have hr := (abs_sub_abs_le_abs_sub _ _).trans hround
  have hsmall : ulp prec / 2 * |s| ≤ 1 / 2 * |s| := by gcongr
  have hrest := mul_nonneg hulp.le (add_nonneg ha hb)
  linarith [abs_nonneg (a.toRat - b.toRat)]

/-- A difference that is computed is as large as the true one, up to the two errors. -/
theorem abs_sub_le {a b : Decimal} (ha : 0 ≤ a.toRat) (hb : 0 ≤ b.toRat) :
    |a.toRat - b.toRat| ≤ (1 + ulp prec) * |(sub prec a b).toRat| + ulp prec * (a.toRat + b.toRat) := by
  have hulp := ulp_pos prec
  have hone := ulp_le_one hprec
  obtain ⟨s, hsum, hround⟩ := sub_errors hprec ha hb
  generalize (sub prec a b).toRat = r at hround ⊢
  have hs : |s| ≤ (1 + ulp prec) * |r| := by
    have h : |s| ≤ |r| + ulp prec / 2 * |s| := by
      have := abs_sub_abs_le_abs_sub s r
      rw [abs_sub_comm] at this
      linarith
    have hfactor : 1 ≤ (1 + ulp prec) * (1 - ulp prec / 2) := by nlinarith
    nlinarith [abs_nonneg s, abs_nonneg r]
  have htotal : |a.toRat - b.toRat| ≤ |s| + ulp prec / 100 * (a.toRat + b.toRat) := by
    have := abs_sub_abs_le_abs_sub (a.toRat - b.toRat) s
    rw [abs_sub_comm _ s] at this
    linarith
  nlinarith [add_nonneg ha hb]

end

/-! ## Powers -/

/-- The bits below the highest one, read as a number that starts with it. -/
theorem foldl_lowerBits (n : Nat) (hn : n ≠ 0) :
    (lowerBits n).foldl (fun m bit => 2 * m + bit.toNat) 1 = n := by
  have hfold : ∀ k m, (((List.range k).reverse.map fun i => n.testBit i).foldl (fun m bit => 2 * m + bit.toNat) m) =
      m * 2 ^ k + n % 2 ^ k := by
    intro k
    induction k with
    | zero => intro m; simp [Nat.mod_one]
    | succ k ih =>
      intro m
      rw [List.range_succ, List.reverse_append, List.reverse_singleton, List.singleton_append, List.map_cons,
        List.foldl_cons, ih, Nat.toNat_testBit, Nat.mod_pow_succ]
      ring
  rw [lowerBits, hfold, Nat.one_mul]
  have hone : n / 2 ^ n.log2 = 1 :=
    Nat.div_eq_of_lt_le (by rw [Nat.one_mul]; exact Nat.log2_self_le hn)
      (by rw [Nat.add_mul, Nat.one_mul, ← Nat.two_mul, ← pow_succ']; exact Nat.lt_log2_self)
  have hdiv := Nat.div_add_mod n (2 ^ n.log2)
  rwa [hone, Nat.mul_one] at hdiv

/-- `r` is the power up to a factor for each multiplication. -/
def NearPow (ω : ℚ) (x : ℚ) (m : Nat) (r : ℚ) : Prop :=
  (1 - ω) ^ (m - 1) * x ^ m ≤ r ∧ r ≤ (1 + ω) ^ (m - 1) * x ^ m

theorem NearPow.mul {ω x r s t : ℚ} {m k : Nat} (hω : 0 ≤ ω) (hω' : ω ≤ 1) (hx : 0 ≤ x) (hm : 1 ≤ m) (hk : 1 ≤ k)
    (hr : NearPow ω x m r) (hs : NearPow ω x k s) (ht : Near ω (r * s) t) : NearPow ω x (m + k) t := by
  have hlow : 0 ≤ 1 - ω := by linarith
  have hr0 : 0 ≤ r := (by positivity : 0 ≤ (1 - ω) ^ (m - 1) * x ^ m).trans hr.1
  have hs0 : 0 ≤ s := (by positivity : 0 ≤ (1 - ω) ^ (k - 1) * x ^ k).trans hs.1
  obtain ⟨ht1, ht2⟩ := (near_iff (mul_nonneg hr0 hs0)).1 ht
  have hpow : ∀ c : ℚ, c ^ (m + k - 1) * x ^ (m + k) = c * ((c ^ (m - 1) * x ^ m) * (c ^ (k - 1) * x ^ k)) := by
    intro c
    rw [show m + k - 1 = 1 + ((m - 1) + (k - 1)) by omega, pow_add, pow_add, pow_one, pow_add]
    ring
  constructor
  · rw [hpow]
    refine le_trans ?_ ht1
    have := hr.1
    have := hs.1
    gcongr
  · rw [hpow]
    refine ht2.trans ?_
    have := hr.2
    have := hs.2
    gcongr

/-- The squarings and multiplications of a power. -/
theorem nearPow_foldl {wide : Nat} (hwide : 1 ≤ wide) {a : Decimal} (ha : 0 ≤ a.toRat) (bits : List Bool) :
    ∀ (m : Nat) (acc : Decimal), 1 ≤ m → NearPow (ulp wide / 2) a.toRat m acc.toRat →
      NearPow (ulp wide / 2) a.toRat (bits.foldl (fun m bit => 2 * m + bit.toNat) m)
        (bits.foldl (fun acc bit => let s := mul wide acc acc; if bit then mul wide s a else s) acc).toRat := by
  have hpos := ulp_pos wide
  have hone := ulp_le_one hwide
  have hbase : NearPow (ulp wide / 2) a.toRat 1 a.toRat := by simp [NearPow]
  induction bits with
  | nil => exact fun m acc _ h => h
  | cons bit bits ih =>
    intro m acc hm h
    rw [List.foldl_cons, List.foldl_cons]
    have hsquare : NearPow (ulp wide / 2) a.toRat (m + m) (mul wide acc acc).toRat :=
      h.mul (by linarith) (by linarith) ha hm hm h (mul_near hwide acc acc)
    refine ih _ _ (by omega) ?_
    cases bit with
    | false => simpa [two_mul] using hsquare
    | true =>
      have := hsquare.mul (by linarith) (by linarith) ha (by omega) le_rfl hbase (mul_near hwide (mul wide acc acc) a)
      simpa [two_mul] using this

theorem one_add_pow_mul_le_one {t : ℚ} (ht : 0 ≤ t) (ht' : t ≤ 1) (k : Nat) : (1 + t) ^ k * (1 - k * t) ≤ 1 := by
  have hbernoulli := one_add_mul_le_pow (show -2 ≤ -t by linarith) k
  calc (1 + t) ^ k * (1 - k * t) ≤ (1 + t) ^ k * (1 + -t) ^ k := by
        gcongr
        linarith
    _ = (1 - t ^ 2) ^ k := by rw [← mul_pow]; ring
    _ ≤ 1 := pow_le_one₀ (by nlinarith) (by nlinarith)

theorem one_sub_pow_mul_le_one {t : ℚ} (ht : 0 ≤ t) (ht' : t ≤ 1) (k : Nat) : (1 - t) ^ k * (1 + k * t) ≤ 1 := by
  have hbernoulli := one_add_mul_le_pow (show -2 ≤ t by linarith) k
  have hlow : 0 ≤ 1 - t := by linarith
  calc (1 - t) ^ k * (1 + k * t) ≤ (1 - t) ^ k * (1 + t) ^ k := by gcongr
    _ = (1 - t ^ 2) ^ k := by rw [← mul_pow]; ring
    _ ≤ 1 := pow_le_one₀ (by nlinarith) (by nlinarith)

/-- All the multiplications together lose little, if a power is computed with as many extra digits as
its exponent has and two more. -/
theorem near_of_nearPow {prec n : Nat} (hprec : 1 ≤ prec) {x r : ℚ} (hx : 0 ≤ x)
    (h : NearPow (ulp (prec + width n + 2) / 2) x n r) : Near (ulp prec / 100) (x ^ n) r := by
  have hone := ulp_le_one hprec
  have hpos := ulp_pos (prec + width n + 2)
  have hwide := ulp_le_one (show 1 ≤ prec + width n + 2 by omega)
  have hulp := ulp_pos prec
  -- the digits carried in addition make up for as many roundings as the exponent has
  have hdigits : (n : ℚ) * ulp (prec + width n + 2) ≤ ulp prec / 100 := by
    have hwidth : (n : ℚ) ≤ tenPow (width n) := by
      rw [tenPow_natCast]
      exact_mod_cast (lt_pow_width n).le
    calc (n : ℚ) * ulp (prec + width n + 2) ≤ tenPow (width n) * ulp (prec + width n + 2) := by gcongr
      _ = tenPow (1 - prec + -2) := by
        rw [ulp, ← tenPow_add]
        congr 1
        push_cast
        ring
      _ = ulp prec / 100 := by
        rw [tenPow_add, ulp, show tenPow (-2) = 1 / 100 by norm_num [tenPow]]
        ring
  generalize ulp (prec + width n + 2) = wide at *
  generalize ulp prec = u at *
  have hk : ((n - 1 : Nat) : ℚ) ≤ n := by exact_mod_cast Nat.sub_le n 1
  have hloss : ((n - 1 : Nat) : ℚ) * (wide / 2) ≤ u / 200 := by nlinarith
  have hx' : 0 ≤ x ^ n := by positivity
  refine (near_iff hx').2 ⟨le_trans ?_ h.1, h.2.trans ?_⟩
  · have hlow := one_add_mul_le_pow (show -2 ≤ -(wide / 2) by linarith) (n - 1)
    rw [← sub_eq_add_neg] at hlow
    refine mul_le_mul_of_nonneg_right ?_ hx'
    linarith
  · have hhigh := one_add_pow_mul_le_one (show 0 ≤ wide / 2 by linarith) (by linarith) (n - 1)
    refine mul_le_mul_of_nonneg_right ?_ hx'
    have hfactor : 1 ≤ (1 + u / 100) * (1 - ((n - 1 : Nat) : ℚ) * (wide / 2)) := by nlinarith
    have hpos' : 0 < 1 - ((n - 1 : Nat) : ℚ) * (wide / 2) := by linarith
    exact le_of_mul_le_mul_right (hhigh.trans hfactor) hpos'

theorem pow_near {prec : Nat} (hprec : 1 ≤ prec) {a : Decimal} (ha : 0 ≤ a.toRat) {n : Nat} (hn : 1 ≤ n) :
    Near (ulp prec) (a.toRat ^ n) (pow prec a n).toRat := by
  have hulp := ulp_pos prec
  have hone := ulp_le_one hprec
  have hfold := nearPow_foldl (show 1 ≤ prec + width n + 2 by omega) ha (lowerBits n) 1 a le_rfl (by simp [NearPow])
  rw [foldl_lowerBits n (by omega)] at hfold
  unfold pow
  rw [if_neg (by omega)]
  refine ((near_of_nearPow hprec ha hfold).trans (roundTo_near hprec _) (by positivity)).mono ?_
  nlinarith

end Reckon.Decimal.Significant
