/-
The spacing of the doubles around a value, their unit in the last place. What a decimal is rounded to
depends on its value only. Up to the largest double it is a finite one, at most half a unit away, and a
native number of either format is rounded to itself.
-/
import Mathlib.Data.Int.Log
import Reckon.Proofs.Binary.Range
import Reckon.Proofs.Binary.Rounding

namespace Reckon

/-! ## Native numbers -/

namespace FiniteBinary

variable {f : Format}

theorem minQuantum_le_quantum (x : FiniteBinary f) : f.minQuantum ≤ x.quantum := by
  unfold quantum
  split <;> omega

/-- A significand is full unless the number is subnormal. -/
theorem quantum_eq_or_unit_le (x : FiniteBinary f) : x.quantum = f.minQuantum ∨ f.unit ≤ x.significand := by
  unfold quantum significand
  split
  · exact .inl rfl
  · exact .inr (Nat.le_add_left _ _)

theorem magnitude_eq (x : FiniteBinary f) :
    x.magnitude = (x.quantum - f.minQuantum).toNat * f.unit + x.significand := by
  unfold quantum significand
  split
  · rw [sub_self, Int.toNat_zero, Nat.zero_mul, Nat.zero_add]
  · rename_i hlarge
    obtain ⟨k, hk⟩ : ∃ k, x.magnitude / f.unit = k + 1 :=
      Nat.exists_eq_add_one.2 (Nat.div_pos (not_lt.1 hlarge) (unit_pos f))
    rw [hk, Nat.add_sub_cancel, add_sub_cancel_left, Int.toNat_natCast, ← Nat.div_add_mod' x.magnitude f.unit, hk]
    rw [Nat.mul_add_mod_self_right, Nat.mod_mod]
    ring

/-- Of two numbers with equal values neither has the longer last place. -/
theorem quantum_le_of_absRat {x y : FiniteBinary f} (h : x.absRat = y.absRat) : y.quantum ≤ x.quantum := by
  refine Binary.unit_unique (v := y.absRat) x.minQuantum_le_quantum ?_ (y.quantum_eq_or_unit_le.imp_right fun hfull => ?_)
  · rw [← h, absRat_eq]
    gcongr
    exact_mod_cast x.significand_lt_unit
  · rw [absRat_eq]
    gcongr

/-- A number is given by its sign and its value. -/
theorem eq_of_absRat {x y : FiniteBinary f} (hsign : x.negative = y.negative) (h : x.absRat = y.absRat) : x = y := by
  have hquantum : x.quantum = y.quantum := le_antisymm (quantum_le_of_absRat h.symm) (quantum_le_of_absRat h)
  have hsignificand : x.significand = y.significand := by
    rw [absRat_eq, absRat_eq, hquantum] at h
    exact_mod_cast mul_right_cancel₀ (by positivity) h
  have hmagnitude : x.magnitude = y.magnitude := by rw [magnitude_eq, magnitude_eq y, hquantum, hsignificand]
  obtain ⟨s, m, hm⟩ := x
  obtain ⟨t, n, hn⟩ := y
  obtain rfl : s = t := hsign
  obtain rfl : m = n := hmagnitude
  rfl

theorem toRat_eq_sign (x : FiniteBinary f) : x.toRat = (if x.negative then -1 else 1) * x.absRat := by
  rw [toRat]
  split <;> ring

theorem absRat_le_largest (x : FiniteBinary f) : x.absRat ≤ (largest .double).toRat := by
  have hsignificand : x.significand ≤ 2 ^ 53 - 1 := by
    have hunit : 2 * f.unit ≤ 2 ^ 53 := by cases f <;> decide
    have := x.significand_lt_unit
    omega
  rw [toRat_largest, absRat_eq]
  gcongr
  · norm_num
  · exact x.quantum_bounds.2

end FiniteBinary

namespace Binary

open FiniteBinary

/-! ## The unit in the last place -/

/-- The spacing of the doubles around a value that is not subnormal. -/
def ulp (q : ℚ) : ℚ := 2 ^ (Int.log 2 |q| - 52)

theorem ulp_pos (q : ℚ) : 0 < ulp q := by
  unfold ulp
  positivity

theorem le_log {q : ℚ} {a : ℤ} (hq : 0 < |q|) : a ≤ Int.log 2 |q| ↔ (2 : ℚ) ^ a ≤ |q| := by
  rw [← Int.zpow_le_iff_le_log (by norm_num) hq]
  norm_num

/-- The spacing is known from the power of two below the value. -/
theorem ulp_eq {q : ℚ} {a : ℤ} (hlow : (2 : ℚ) ^ a ≤ |q|) (hhigh : |q| < 2 ^ (a + 1)) : ulp q = 2 ^ (a - 52) := by
  have hq : 0 < |q| := lt_of_lt_of_le (by positivity) hlow
  have habove : Int.log 2 |q| < a + 1 := by
    rw [← Int.lt_zpow_iff_log_lt (by norm_num) hq]
    exact_mod_cast hhigh
  have hbelow := (le_log hq).2 hlow
  rw [ulp, show Int.log 2 |q| = a by omega]

theorem tiny_le_ulp {q : ℚ} (hq : (2 : ℚ) ^ (-1022 : ℤ) ≤ |q|) : (2 : ℚ) ^ (-1074 : ℤ) ≤ ulp q := by
  have hlog := (le_log (lt_of_lt_of_le (by positivity) hq)).2 hq
  exact zpow_le_zpow_right₀ (by norm_num) (by omega)

namespace Rounds

variable {v q : ℚ} {m : Nat} {e : ℤ}

/-- Up to a value its unit is no more than the spacing around it. -/
theorem unit_le_ulp (h : Rounds .double v m e) (hv : v ≤ |q|) (hq : (2 : ℚ) ^ (-1022 : ℤ) ≤ |q|) :
    (2 : ℚ) ^ e ≤ ulp q := by
  rcases h.low with hmin | hlow
  · rw [hmin]
    exact tiny_le_ulp hq
  · rw [unit_mul_zpow] at hlow
    have hlog := (le_log (lt_of_lt_of_le (by positivity) hq)).2 (hlow.trans hv)
    rw [show ((Format.precision .double : Nat) : ℤ) = 53 from rfl] at hlog
    exact zpow_le_zpow_right₀ (by norm_num) (by omega)

end Rounds

/-! ## Rounding depends on the value only -/

theorem roundHalfEven_mul_right (num den : Nat) {k : Nat} (hk : 0 < k) :
    roundHalfEven (num * k) (den * k) = roundHalfEven num den := by
  have hlt : 2 * (num % den * k) < den * k ↔ 2 * (num % den) < den := by
    rw [← Nat.mul_assoc, Nat.mul_lt_mul_right hk]
  have heq : 2 * (num % den * k) = den * k ↔ 2 * (num % den) = den := by
    rw [← Nat.mul_assoc, Nat.mul_left_inj hk.ne']
  unfold roundHalfEven
  simp only [Nat.mul_div_mul_right _ _ hk, Nat.mul_mod_mul_right, hlt, beq_eq_decide, heq]

variable {f : Format}

theorem quantumOf_congr {num den num' den' : Nat} (hnum : 0 < num) (hden : 0 < den) (hnum' : 0 < num') (hden' : 0 < den')
    (h : (num : ℚ) / den = (num' : ℚ) / den') : quantumOf f num den = quantumOf f num' den' := by
  obtain ⟨hleast, hlow, hhigh⟩ := quantumOf_spec f hnum hden
  obtain ⟨hleast', hlow', hhigh'⟩ := quantumOf_spec f hnum' hden'
  rw [h] at hlow hhigh
  exact le_antisymm (unit_unique hleast' hhigh' hlow) (unit_unique hleast hhigh hlow')

theorem ofQuotient_mul_right (negative : Bool) {num den k : Nat} (hnum : 0 < num) (hden : 0 < den) (hk : 0 < k) :
    (ofQuotient negative (num * k) (den * k) : Binary f) = ofQuotient negative num den := by
  have hk' : (k : ℚ) ≠ 0 := by exact_mod_cast hk.ne'
  have hquantum : quantumOf f (num * k) (den * k) = quantumOf f num den :=
    quantumOf_congr (Nat.mul_pos hnum hk) (Nat.mul_pos hden hk) hnum hden (by push_cast; exact mul_div_mul_right _ _ hk')
  have hover : ∀ q, overQuantum (num * k) (den * k) q = ((overQuantum num den q).1 * k, (overQuantum num den q).2 * k) := by
    intro q
    unfold overQuantum
    split
    · rw [Nat.mul_right_comm]
    · rw [Nat.mul_right_comm]
  unfold ofQuotient
  rw [if_neg (Nat.mul_pos hnum hk).ne', if_neg hnum.ne', hquantum]
  simp only [hover, roundHalfEven_mul_right _ _ hk]

/-- Equal quotients are rounded alike. -/
theorem ofQuotient_congr (negative : Bool) {num den num' den' : Nat} (hnum : 0 < num) (hden : 0 < den) (hnum' : 0 < num')
    (hden' : 0 < den') (h : (num : ℚ) / den = (num' : ℚ) / den') :
    (ofQuotient negative num den : Binary f) = ofQuotient negative num' den' := by
  have hcross : num * den' = num' * den := by
    rw [div_eq_div_iff (by exact_mod_cast hden.ne') (by exact_mod_cast hden'.ne')] at h
    exact_mod_cast h
  rw [← ofQuotient_mul_right negative hnum hden hden', hcross, Nat.mul_comm den, ofQuotient_mul_right negative hnum' hden' hden]

/-- A quotient is rounded as its value is. -/
theorem ofQuotient_eq_ofRat {q : ℚ} {negative : Bool} {num den : Nat} (hnum : 0 < num) (hden : 0 < den)
    (h : q = (if negative then -1 else 1) * ((num : ℚ) / den)) (zeroSign : Bool) :
    (ofQuotient negative num den : Binary f) = ofRat q zeroSign := by
  have hpos : (0 : ℚ) < (num : ℚ) / den := by
    have : (0 : ℚ) < num := by exact_mod_cast hnum
    have : (0 : ℚ) < den := by exact_mod_cast hden
    positivity
  have habs : |q| = (num : ℚ) / den := by rw [h, Decimal.abs_sign_mul, abs_of_pos hpos]
  have hq : q ≠ 0 := abs_pos.1 (habs ▸ hpos)
  rw [ofRat_of_ne_zero hq, Decimal.decide_lt_zero_eq h hpos]
  exact ofQuotient_congr negative hnum hden (Int.natAbs_pos.2 (Rat.num_ne_zero.2 hq)) q.den_pos
    (habs.symm.trans (abs_eq_natAbs_div q))

/-! ## Rounding to finite doubles -/

open Roots (nearest)

/-- A value up to the largest double is rounded to a finite one. -/
theorem ofRat_of_le {v : ℚ} (hv : |v| ≤ (largest .double).toRat) (zeroSign : Bool) : ∃ x : FiniteBinary .double,
    ofRat v zeroSign = .finite x ∧ x.negative = (if v = 0 then zeroSign else decide (v < 0)) ∧ x.toRat = nearest v := by
  by_cases hzero : v = 0
  · subst hzero
    exact ⟨.zero zeroSign, rfl, rfl, (toRat_zero zeroSign).trans Roots.nearest_zero.symm⟩
  obtain ⟨m, e, hrounds, heq⟩ := ofQuotient_eq (f := .double) (decide (v < 0))
    (Int.natAbs_pos.2 (Rat.num_ne_zero.2 hzero)) v.den_pos
  rw [abs_eq_natAbs_div] at hv
  rw [dif_pos (hrounds.magnitude_lt hv)] at heq
  refine ⟨_, (ofRat_of_ne_zero hzero zeroSign).trans heq, (if_neg hzero).symm, (Roots.nearest_of_finite ?_).symm⟩
  rw [ofRat_of_ne_zero hzero, heq]

/-- The rounded value of one that is at most another is half a unit of the latter away. -/
theorem abs_nearest_sub_le {v q : ℚ} (hv : |v| ≤ |q|) (hlow : (2 : ℚ) ^ (-1022 : ℤ) ≤ |q|) :
    |nearest v - v| ≤ ulp q / 2 := by
  rcases Roots.nearest_cases v with heq | ⟨m, e, hrounds, heq⟩
  · rw [heq, sub_self, abs_zero]
    exact (half_pos (ulp_pos q)).le
  · conv_lhs => enter [1, 2]; rw [← Decimal.sign_mul_abs v]
    rw [heq, ← mul_sub, Decimal.abs_sign_mul]
    linarith [hrounds.near, hrounds.unit_le_ulp hv hlow]

/-- A native number is rounded to itself. -/
theorem nearest_toRat (x : FiniteBinary f) : nearest x.toRat = x.toRat := by
  rcases Roots.nearest_cases x.toRat with heq | ⟨m, e, hrounds, heq⟩
  · exact heq
  have hsmall : x.significand < 2 ^ 53 := lt_of_lt_of_le x.significand_lt_unit (by cases f <;> decide)
  rw [heq, hrounds.eq_of_units hsmall x.quantum_bounds.1 (x.abs_toRat.trans x.absRat_eq), Decimal.sign_mul_abs]

/-- The value of a native number is rounded to the significand and the unit of that number. -/
theorem Rounds.eq_of_absRat {x : FiniteBinary f} {m : Nat} {e : ℤ} (h : Rounds f x.absRat m e) :
    e = x.quantum ∧ m = x.significand := by
  have hhigh : x.absRat < 2 * f.unit * (2 : ℚ) ^ x.quantum := by
    rw [absRat_eq]
    gcongr
    exact_mod_cast x.significand_lt_unit
  have hlow : x.quantum = f.minQuantum ∨ (f.unit : ℚ) * 2 ^ x.quantum ≤ x.absRat := by
    refine x.quantum_eq_or_unit_le.imp_right fun hfull => ?_
    rw [absRat_eq]
    gcongr
  obtain rfl : e = x.quantum :=
    le_antisymm (unit_unique x.minQuantum_le_quantum hhigh h.low) (unit_unique h.least h.high hlow)
  exact ⟨rfl, le_antisymm (h.units_le x.absRat_eq.le) (h.le_of_units_le x.absRat_eq.ge)⟩

/-- A number that is converted to its own format stays what it is, also with the sign of a zero. -/
theorem convert_self (x : FiniteBinary f) : convert (.finite x) = (.finite x : Binary f) := by
  show ofRat x.toRat x.negative = .finite x
  by_cases hzero : x.toRat = 0
  · have habs : x.absRat = (FiniteBinary.zero x.negative : FiniteBinary f).absRat := by
      rw [← abs_toRat, hzero, abs_zero, absRat_of_magnitude le_rfl (Nat.zero_le _) (.inl rfl) (by simp [FiniteBinary.zero])]
      rw [Nat.cast_zero, zero_mul]
    have hx : x = .zero x.negative := eq_of_absRat rfl habs
    rw [hzero]
    exact congrArg Binary.finite hx.symm
  obtain ⟨m, e, hrounds, heq⟩ := ofQuotient_eq (f := f) (decide (x.toRat < 0))
    (Int.natAbs_pos.2 (Rat.num_ne_zero.2 hzero)) x.toRat.den_pos
  rw [← abs_eq_natAbs_div, abs_toRat] at hrounds
  obtain ⟨rfl, rfl⟩ := hrounds.eq_of_absRat
  rw [ofRat_of_ne_zero hzero, heq]
  simp only [← magnitude_eq, dif_pos x.magnitude_lt,
    Decimal.decide_lt_zero_eq x.toRat_eq_sign (x.abs_toRat ▸ abs_pos.2 hzero)]

/-! ## Decimals -/

/-- A value below half the least number is rounded to a zero of its sign. -/
theorem ofRat_of_tiny {q : ℚ} (hq : q ≠ 0) (htiny : |q| < 2 ^ (-1075 : ℤ)) (zeroSign : Bool) :
    (ofRat q zeroSign : Double) = .finite (.zero (q < 0)) := by
  obtain ⟨m, e, hrounds, heq⟩ := ofQuotient_eq (f := .double) (decide (q < 0))
    (Int.natAbs_pos.2 (Rat.num_ne_zero.2 hq)) q.den_pos
  rw [← abs_eq_natAbs_div] at hrounds
  have hmin : e = -1074 := hrounds.low.resolve_right fun hlow => by
    rw [unit_mul_zpow] at hlow
    have := (zpow_lt_zpow_iff_right₀ (by norm_num : (1 : ℚ) < 2)).1 (hlow.trans_lt htiny)
    have hleast : -1074 ≤ e := hrounds.least
    rw [show ((Format.precision .double : Nat) : ℤ) = 53 from rfl] at this
    omega
  subst hmin
  -- half a unit is the largest error, and one unit would be farther from a value below half a unit
  have hm : m = 0 := by
    have hnear := (abs_le.1 hrounds.near).2
    have hhalf : (2 : ℚ) ^ (-1075 : ℤ) = 2 ^ (-1074 : ℤ) / 2 := by
      rw [show (-1075 : ℤ) = -1074 - 1 by norm_num, zpow_sub_one₀ (by norm_num), div_eq_mul_inv]
    have hlt : (m : ℚ) * 2 ^ (-1074 : ℤ) < 1 * 2 ^ (-1074 : ℤ) := by linarith
    have := lt_of_mul_lt_mul_right hlt (by positivity)
    exact Nat.lt_one_iff.1 (by exact_mod_cast this)
  subst hm
  rw [ofRat_of_ne_zero hq, heq, dif_pos (by decide)]
  rfl

/-- A value beyond all doubles is rounded to an infinity of its sign. -/
theorem ofRat_of_huge {q : ℚ} (hhuge : (2 : ℚ) ^ (1024 : ℤ) ≤ |q|) (zeroSign : Bool) :
    (ofRat q zeroSign : Double) = .infinite (q < 0) := by
  have hq : q ≠ 0 := abs_pos.1 (lt_of_lt_of_le (by positivity) hhuge)
  obtain ⟨m, e, hrounds, heq⟩ := ofQuotient_eq (f := .double) (decide (q < 0))
    (Int.natAbs_pos.2 (Rat.num_ne_zero.2 hq)) q.den_pos
  rw [← abs_eq_natAbs_div] at hrounds
  have he : 972 ≤ e := by
    have := (zpow_lt_zpow_iff_right₀ (by norm_num : (1 : ℚ) < 2)).1
      (hhuge.trans_lt (hrounds.high.trans_eq (two_unit_mul_zpow .double e)))
    rw [show ((Format.precision .double : Nat) : ℤ) = 53 from rfl] at this
    omega
  have hmin : Format.minQuantum .double = -1074 := rfl
  have hfull := hrounds.full.resolve_left (by omega)
  have hunit : Format.unit .double = 2 ^ 52 := rfl
  have hlimit : Format.limit .double = 2047 * 2 ^ 52 := rfl
  have hsteps : 2046 ≤ (e - Format.minQuantum .double).toNat := by omega
  have := Nat.mul_le_mul_right (Format.unit .double) hsteps
  rw [ofRat_of_ne_zero hq, heq, dif_neg (by omega)]

/-- A decimal is rounded as its value is. -/
theorem ofDecimal_eq_ofRat (d : Decimal) : (ofDecimal d : Double) = ofRat d.toRat d.negative := by
  by_cases hzero : d.toRat = 0
  · unfold ofDecimal
    rw [if_pos ((Decimal.isZero_iff d).2 ((Decimal.toRat_eq_zero_iff d).1 hzero)), hzero]
    rfl
  have hsign := Decimal.decide_lt_zero_eq d.toRat_eq_sign_mul_abs (abs_pos.2 hzero)
  rcases ofDecimal_cases (f := .double) d with ⟨hsmall, heq⟩ | ⟨hlarge, heq⟩ | ⟨num, den, hnum, hden, hvalue, heq⟩
  · rw [heq, ofRat_of_tiny hzero ?_, hsign]
    exact hsmall.trans_le (tenPow_neg_le.trans (zpow_le_zpow_right₀ (by norm_num) (by norm_num)))
  · rw [heq, ofRat_of_huge (le_trans ?_ hlarge), hsign]
    calc (2 : ℚ) ^ (1024 : ℤ) ≤ 2 ^ (3 * 401 : ℤ) := zpow_le_zpow_right₀ (by norm_num) (by norm_num)
      _ = (2 ^ (3 : ℤ)) ^ (401 : ℤ) := zpow_mul _ _ _
      _ ≤ Decimal.tenPow 401 := zpow_le_zpow_left₀ (by norm_num) (by norm_num) (by norm_num)
  · rw [heq]
    exact ofQuotient_eq_ofRat hnum hden (hvalue ▸ d.toRat_eq_sign_mul_abs) _

end Binary

end Reckon
