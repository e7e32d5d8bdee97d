/-
Arithmetic with an approximation. The operands are their stored decimals, and the exact sum, difference,
product, quotient or remainder of these is cut once to the precision; what the cut leaves decides the kind of
the result. A sum, difference or product is formed with all its digits before the cut, so some decimal has to
hold it. A quotient is cut as a rational, and only what is left has to be a decimal. A remainder needs the
integer part of the quotient, which must not have more digits than a decimal can have.
-/
import Reckon.Proofs.Decimal.Rounding
import Reckon.Proofs.Real.Exact

namespace Reckon

open Reckon.Digits Reckon.Real

namespace Decimal

/-! ## Values that decimals hold -/

/-- The size of a decimal in units of a place that is not above its last one. -/
theorem abs_toRat_of_le {d : Decimal} {e : ℤ} (h : e ≤ d.exponent) : |d.toRat| = (d.coefficientAt e).natAbs * tenPow e := by
  rw [← coefficientAt_mul_tenPow h, abs_mul, abs_of_pos (tenPow_pos e), Nat.cast_natAbs, Int.cast_abs]

theorem representable_of_fits {d : Decimal} (h : d.Fits) : Representable d.toRat := by
  by_cases hzero : d.coefficient = 0
  · exact ⟨.zero, by with_unfolding_all decide, ((toRat_eq_zero_iff d).2 hzero).symm⟩
  obtain ⟨hmax, m, hm⟩ := h.resolve_left hzero
  generalize hk : (minExponent - d.exponent).toNat = k at hm
  have hvalue : toRat ⟨d.negative, m, d.exponent + k⟩ = d.toRat := toRat_congr <| by
    rw [hm, tenPow_add, tenPow_natCast]
    push_cast
    ring
  have hm0 : m ≠ 0 := fun h0 => hzero (by rw [hm, h0, Nat.mul_zero])
  refine ⟨_, (inRange_iff _).2 ⟨by simp only; omega, ?_⟩, hvalue⟩
  exact (adjusted_eq_of_abs_toRat hm0 (by rw [hvalue])).trans_le hmax

theorem fits_of_representable {d : Decimal} (h : Representable d.toRat) : d.Fits := by
  obtain ⟨c, hc, hvalue⟩ := h
  by_cases hzero : d.coefficient = 0
  · exact .inl hzero
  rw [inRange_iff] at hc
  have hsize : |d.toRat| = |c.toRat| := by rw [hvalue]
  have hadjusted := adjusted_eq_of_abs_toRat hzero hsize
  refine .inr ⟨by omega, ?_⟩
  rcases le_total minExponent d.exponent with hle | hle
  · rw [show (minExponent - d.exponent).toNat = 0 by omega]
    exact one_dvd _
  · -- the value is whole in units of the least exponent
    rw [abs_toRat, abs_toRat_of_le hc.1, tenPow_of_le hle, ← mul_assoc] at hsize
    have hunits := mul_right_cancel₀ (tenPow_ne_zero _) hsize
    exact Dvd.intro_left _ (by exact_mod_cast hunits.symm)

theorem inRange_of_fit {d r : Decimal} (h : d.fit = .ok r) : r.inRange = true := by
  have hbounds : minExponent ≤ maxExponent := by decide
  have hvalue := toRat_fit h
  unfold fit at h
  split at h
  · rename_i hd
    obtain rfl := Except.ok.inj h
    exact hd
  split at h
  · rename_i hzero
    obtain rfl := Except.ok.inj h
    refine (inRange_iff _).2 ⟨le_max_left _ _, ?_⟩
    rw [adjusted_of_zero (d := ⟨d.negative, d.coefficient, max minExponent (min maxExponent d.exponent)⟩)
      ((isZero_iff d).1 hzero)]
    exact max_le hbounds (min_le_left _ _)
  split at h
  · cases h
  rename_i hadjusted
  simp only at h
  split at h
  · obtain rfl := Except.ok.inj h
    refine (inRange_iff _).2 ⟨le_rfl, (adjusted_le_iff _ _).2 ⟨hbounds, ?_⟩⟩
    rw [hvalue]
    exact ((adjusted_le_iff d _).1 (Int.not_lt.1 hadjusted)).2
  · cases h

theorem givesValue_fit (d : Decimal) : GivesValue d.fit (Representable d.toRat) d.toRat := by
  constructor
  · intro h
    obtain ⟨r, hr⟩ := (exists_fit_iff d).2 (fits_of_representable h)
    exact ⟨r, hr, toRat_fit hr⟩
  · intro hnot
    cases hfit : d.fit with
    | ok r => exact absurd (representable_of_fits ((exists_fit_iff d).1 ⟨r, hfit⟩)) hnot
    | error e => exact ⟨e, rfl⟩

theorem givesValue_add (a b : Decimal) : GivesValue (add a b) (Representable (a.toRat + b.toRat)) (a.toRat + b.toRat) := by
  rw [← toRat_sum]
  exact givesValue_fit _

theorem givesValue_sub (a b : Decimal) : GivesValue (sub a b) (Representable (a.toRat - b.toRat)) (a.toRat - b.toRat) := by
  rw [sub_eq_add_neg, ← toRat_neg, ← toRat_sum]
  exact givesValue_fit _

theorem givesValue_mul (a b : Decimal) : GivesValue (mul a b) (Representable (a.toRat * b.toRat)) (a.toRat * b.toRat) := by
  rw [← toRat_product]
  exact givesValue_fit _

/-- What is left of a rational after the precision is a decimal unless it is too large. -/
theorem representable_cut_iff (q : ℚ) : Representable (cut precision q) ↔ WithinRange precision (cut precision q) := by
  have hmin : minExponent ≤ -precision := by decide
  have hmax : -precision ≤ maxExponent := by decide
  constructor
  · rintro ⟨d, hd, hvalue⟩
    exact ⟨hmax, hvalue ▸ ((inRange_iff_withinRange d).1 hd).2.2⟩
  · intro h
    obtain ⟨n, hn⟩ := (isCutMultiple_cut precision q).multiple
    have hvalue := (toRat_ofSigned n (-precision)).trans hn.symm
    exact ⟨_, (inRange_iff_withinRange _).2 ⟨hmin, by rw [hvalue, neg_neg]; exact h⟩, hvalue⟩

theorem givesValue_quotient (q : ℚ) :
    GivesValue (truncateRat q precision) (Representable (cut precision q)) (cut precision q) := by
  have h := givesValue_truncateRat q precision
  rwa [and_iff_right (by decide), ← representable_cut_iff] at h

/-! ## The remainder -/

/-- Cutting to an integer is cutting after no places. -/
theorem towardsZero_eq_cut (q : ℚ) : (towardsZero q : ℚ) = cut 0 q := by
  have hfloor : (⌊|q|⌋₊ : ℚ) = ⌊|q|⌋ := by exact_mod_cast Int.natCast_floor_eq_floor (abs_nonneg q)
  rw [cut, neg_zero, tenPow_zero, mul_one, mul_one, hfloor, towardsZero]
  split
  · rename_i hneg
    rw [abs_of_neg hneg, Int.floor_neg]
    push_cast
    ring
  · rename_i hpos
    rw [abs_of_nonneg (not_lt.1 hpos), one_mul]

theorem natAbs_towardsZero (q : ℚ) : (towardsZero q).natAbs = ⌊|q|⌋₊ := by
  have h : |(towardsZero q : ℚ)| = ⌊|q|⌋₊ := by
    rw [towardsZero_eq_cut, cut, abs_sign_mul, neg_zero, tenPow_zero, mul_one, mul_one, Nat.abs_cast]
  rw [← Int.cast_abs, Int.abs_eq_natAbs] at h
  exact_mod_cast h

theorem wholeQuotient_eq (a b : Decimal) : wholeQuotient a b = (towardsZero (a.toRat / b.toRat)).natAbs := by
  rw [natAbs_towardsZero, abs_div, abs_toRat_of_le (min_le_left a.exponent b.exponent),
    abs_toRat_of_le (min_le_right a.exponent b.exponent), mul_div_mul_right _ _ (tenPow_ne_zero _), Nat.floor_div_eq_div]
  rfl

/-- A dividend whose leading digit stands below that of the divisor is smaller. -/
theorem abs_toRat_lt_of_adjusted {a b : Decimal} (hb : b.coefficient ≠ 0) (h : a.adjusted < b.adjusted) :
    |a.toRat| < |b.toRat| := calc
  |a.toRat| < tenPow (a.adjusted + 1) := abs_toRat_lt a
  _ ≤ tenPow b.adjusted := tenPow_le_tenPow.2 (by omega)
  _ ≤ |b.toRat| := tenPow_adjusted_le hb

theorem coefficientAt_lt {a b : Decimal} (hb : b.coefficient ≠ 0) (h : a.isZero = true ∨ a.adjusted < b.adjusted) :
    (a.coefficientAt (min a.exponent b.exponent)).natAbs < (b.coefficientAt (min a.exponent b.exponent)).natAbs := by
  have hlt : |a.toRat| < |b.toRat| := by
    rcases h with hzero | hlow
    · rw [(toRat_eq_zero_iff a).2 ((isZero_iff a).1 hzero), abs_zero, abs_pos, Ne, toRat_eq_zero_iff]
      exact hb
    · exact abs_toRat_lt_of_adjusted hb hlow
  rw [abs_toRat_of_le (min_le_left a.exponent b.exponent), abs_toRat_of_le (min_le_right a.exponent b.exponent)] at hlt
  exact_mod_cast lt_of_mul_lt_mul_right hlt (tenPow_pos _).le

theorem remainder_eq (a : Decimal) {b : Decimal} (hb : b.coefficient ≠ 0) : remainder a b = ⟨a.negative,
    (a.coefficientAt (min a.exponent b.exponent)).natAbs % (b.coefficientAt (min a.exponent b.exponent)).natAbs,
    min a.exponent b.exponent⟩ := by
  unfold remainder
  simp only
  split
  · rename_i hlow
    rw [Bool.or_eq_true, decide_eq_true_eq] at hlow
    rw [Nat.mod_eq_of_lt (coefficientAt_lt hb hlow)]
  · rfl

/-- The integer part of a quotient has the sign that the signs of its operands give. -/
theorem mul_towardsZero {s t : Bool} {m n : Nat} {u : ℚ} (hu : u ≠ 0) :
    ((if t then -1 else 1) * (n * u)) * towardsZero (((if s then -1 else 1) * (m * u)) / ((if t then -1 else 1) * (n * u))) =
      (if s then -1 else 1) * (n * (m / n : Nat) * u) := by
  have hquotient : ((if s then -1 else 1) * (m * u)) / ((if t then -1 else 1) * (n * u)) =
      (if s != t then -1 else 1) * ((m : ℚ) / n) := by
    rw [mul_div_mul_comm, mul_div_mul_right _ _ hu]
    cases s <;> cases t <;> norm_num
  rw [hquotient, towardsZero_eq_cut, cut_sign_mul 0 _ (by positivity), tenPow_zero, mul_one, neg_zero, tenPow_zero, mul_one,
    Nat.floor_div_eq_div]
  cases s <;> cases t <;> simp <;> ring

/-- The remainder is what the integer part of the quotient leaves. -/
theorem toRat_remainder (a : Decimal) {b : Decimal} (hb : b.coefficient ≠ 0) :
    (remainder a b).toRat = a.toRat - b.toRat * towardsZero (a.toRat / b.toRat) := by
  have hsigned : ∀ {d : Decimal} {e : ℤ}, e ≤ d.exponent →
      d.toRat = (if d.negative then -1 else 1) * ((d.coefficientAt e).natAbs * tenPow e) := fun h => by
    rw [← abs_toRat_of_le h]
    exact toRat_eq_sign_mul_abs _
  rw [remainder_eq a hb, hsigned (min_le_left a.exponent b.exponent), hsigned (min_le_right a.exponent b.exponent),
    mul_towardsZero (tenPow_ne_zero _), toRat_eq_sign]
  simp only
  generalize (a.coefficientAt (min a.exponent b.exponent)).natAbs = m
  generalize (b.coefficientAt (min a.exponent b.exponent)).natAbs = n
  have hdivision : (m : ℚ) = (m % n : Nat) + n * (m / n : Nat) := by exact_mod_cast (Nat.mod_add_div m n).symm
  conv_rhs => enter [1]; rw [hdivision]
  ring

/-- The leading digits bound the digits of the integer part from below. -/
theorem lt_width_wholeQuotient {a b : Decimal} {digits : Nat} (ha : a.coefficient ≠ 0) (hb : b.coefficient ≠ 0)
    (h : (digits : ℤ) < a.adjusted - b.adjusted) : digits < width (wholeQuotient a b) := by
  have hlarge : tenPow digits ≤ |a.toRat / b.toRat| := by
    rw [abs_div, le_div_iff₀ (by rw [abs_pos, Ne, toRat_eq_zero_iff]; exact hb)]
    calc tenPow digits * |b.toRat| ≤ tenPow digits * tenPow (b.adjusted + 1) := by
          gcongr
          · exact (tenPow_pos _).le
          · exact (abs_toRat_lt b).le
      _ = tenPow (digits + (b.adjusted + 1)) := (tenPow_add _ _).symm
      _ ≤ tenPow a.adjusted := tenPow_le_tenPow.2 (by omega)
      _ ≤ |a.toRat| := tenPow_adjusted_le ha
  rw [wholeQuotient_eq, natAbs_towardsZero]
  rw [tenPow_natCast] at hlarge
  have hfloor := Nat.le_floor hlarge
  exact (Nat.pow_lt_pow_iff_right (show 1 < 10 by decide)).1 (hfloor.trans_lt (lt_pow_width _))

/-- A remainder exists where the integer part of the quotient has few enough digits. -/
theorem givesValue_remainderWithin {digits : Nat} (hdigits : 0 < digits) (a : Decimal) {b : Decimal} (hb : b.coefficient ≠ 0) :
    GivesValue (remainderWithin digits a b) (width (towardsZero (a.toRat / b.toRat)).natAbs ≤ digits)
      (a.toRat - b.toRat * towardsZero (a.toRat / b.toRat)) := by
  rw [← wholeQuotient_eq, ← toRat_remainder a hb]
  unfold remainderWithin
  split
  · rename_i hlow
    rw [Bool.or_eq_true, decide_eq_true_eq] at hlow
    have hzero : wholeQuotient a b = 0 := Nat.div_eq_of_lt (coefficientAt_lt hb hlow)
    have hwidth : width (wholeQuotient a b) = 1 := by rw [hzero, (width_eq_one_iff 0).2 (by decide)]
    exact ⟨fun _ => ⟨_, rfl, rfl⟩, fun hnot => absurd (hwidth.trans_le hdigits) hnot⟩
  rename_i hlow
  rw [Bool.or_eq_true, not_or, isZero_iff] at hlow
  split
  · rename_i hfar
    exact ⟨fun hle => absurd (lt_width_wholeQuotient hlow.1 hb hfar) (not_lt.2 hle), fun _ => ⟨_, rfl⟩⟩
  split
  · rename_i hlong
    exact ⟨fun hle => absurd hlong (not_lt.2 hle), fun _ => ⟨_, rfl⟩⟩
  · rename_i hfits
    exact ⟨fun _ => ⟨_, rfl, rfl⟩, fun hnot => absurd (not_lt.1 hfits) hnot⟩

end Decimal

namespace Real

/-! ## What the cut leaves -/

/-- The number is a rational cut to the precision, with no more places than are kept: an approximation if a
fraction is left, else a big number. -/
structure IsCut (x : Real) (q : ℚ) : Prop where
  value : ∃ d, x.decimal? = some d ∧ d.toRat = Decimal.cut precision q ∧ d.fractionDigits.length ≤ 137
  kind : x.kind = if (Decimal.cut precision q).den = 1 then .big else .irrational

theorem length_fractionDigits_le {d : Decimal} (h : -precision ≤ d.exponent) : d.fractionDigits.length ≤ 137 := by
  rw [precision] at h
  rw [Decimal.length_fractionDigits]
  omega

theorem exponent_of_truncate {d r : Decimal} {places : ℤ} (h : d.truncate places = .ok r) : -places ≤ r.exponent := by
  unfold Decimal.truncate at h
  split at h
  · rename_i hle
    rwa [← Except.ok.inj h]
  · obtain ⟨unit, hunit, hr⟩ := Outcome.bind_eq_ok.1 h
    obtain ⟨rfl, -⟩ := Decimal.make_eq_ok_iff.1 hunit
    rw [← Except.ok.inj hr]

theorem ofApproximation_isCut (d : Decimal) : ∃ x, ofApproximation d = .ok x ∧ IsCut x d.toRat := by
  obtain ⟨r, hr⟩ := exists_truncate d
  have hvalue := Decimal.toRat_truncate hr
  have hfraction := Decimal.hasFraction_iff r
  unfold ofApproximation
  rw [hr]
  by_cases hf : r.hasFraction = true
  · refine ⟨.irrational r, by simp only [Except.bind, bind, if_pos hf], ?_, ?_⟩
    · exact ⟨r, rfl, hvalue, length_fractionDigits_le (exponent_of_truncate hr)⟩
    · rw [← hvalue, if_neg (hfraction.1 hf)]
      rfl
  · refine ⟨.big r.strip, by simp only [Except.bind, bind, if_neg hf], ?_, ?_⟩
    · have hwhole : ¬ r.strip.exponent < 0 := by simpa [Decimal.hasFraction] using hf
      refine ⟨r.strip, rfl, (Decimal.toRat_strip r).trans hvalue, length_fractionDigits_le ?_⟩
      rw [precision]
      omega
    · rw [← hvalue, if_pos (not_not.1 (hfraction.not.1 hf))]
      rfl

/-- On the condition the result is the rational cut to the precision, else it is a failure. -/
structure GivesCut (result : Outcome Number) (p : Prop) (q : ℚ) : Prop where
  ok : p → ∃ x, result = .ok (.ofReal x) ∧ IsCut x q
  error : ¬ p → ∃ e, result = .error e

/-- Cutting what is cut already changes nothing, so it does not matter whether the decimal is the exact
result or what the cut leaves of it. -/
theorem givesCut_of_givesValue {stored : Outcome Decimal} {p : Prop} {v q : ℚ} (h : Decimal.GivesValue stored p v)
    (hcut : Decimal.cut precision v = Decimal.cut precision q) :
    GivesCut ((stored >>= ofApproximation).map .ofReal) p q := by
  constructor
  · intro hp
    obtain ⟨d, rfl, rfl⟩ := h.ok hp
    obtain ⟨x, hx, hvalue, hkind⟩ := ofApproximation_isCut d
    rw [hcut] at hvalue hkind
    exact ⟨x, Outcome.map_eq_ok.2 ⟨x, hx, rfl⟩, hvalue, hkind⟩
  · intro hnot
    obtain ⟨e, rfl⟩ := h.error hnot
    exact ⟨e, rfl⟩

/-! ## Approximate arithmetic -/

/-- An operation that combines finite numbers is approximate with an approximation. -/
theorem givesCut_of_combine {a b : Real} {c d : Decimal} (ha : a.decimal? = some c) (hb : b.decimal? = some d)
    (h : a.isIrrational = true ∨ b.isIrrational = true) {result : Outcome Number} {f : Outcome Real}
    {exact : ℚ → ℚ → ℚ} {stored : Decimal → Decimal → Outcome Decimal} {p : Prop} {v q : ℚ}
    (hresult : result = f.map .ofReal) (hf : f = combine exact stored a b) (hstored : Decimal.GivesValue (stored c d) p v)
    (hcut : Decimal.cut precision v = Decimal.cut precision q) : GivesCut result p q := by
  rw [hresult, hf, combine_of_isIrrational exact stored ha hb h]
  exact givesCut_of_givesValue hstored hcut

/-- The operations give the exact results cut to the precision. A sum, difference or product has to be a
decimal before the cut and a quotient after it; for a remainder the integer part of the quotient has to
have few enough digits. Else the operation fails. -/
structure ComputesCut (x y : Number) (p q : ℚ) : Prop where
  add : GivesCut (x.add y) (Representable (p + q)) (p + q)
  sub : GivesCut (x.sub y) (Representable (p - q)) (p - q)
  mul : GivesCut (x.mul y) (Representable (p * q)) (p * q)
  div : q ≠ 0 → GivesCut (x.div y) (Representable (Decimal.cut precision (p / q))) (p / q)
  mod : q ≠ 0 → GivesCut (x.mod y) (width (towardsZero (p / q)).natAbs ≤ Decimal.maxDigits)
    (p - q * towardsZero (p / q))

/-- Arithmetic on finite numbers, at least one of them an approximation, is the exact arithmetic on their
stored decimals cut once. A repeating operand counts by its stored digits. -/
theorem approximate_arithmetic {a b : Real} {c d : Decimal} (ha : a.decimal? = some c) (hb : b.decimal? = some d)
    (h : a.isIrrational = true ∨ b.isIrrational = true) :
    ComputesCut (.ofReal a) (.ofReal b) c.toRat d.toRat := by
  have hnan := isNaN_of_decimal? ha
  have hnan' := isNaN_of_decimal? hb
  have hfinite := isInfinite_of_decimal? ha
  have hfinite' := isInfinite_of_decimal? hb
  have hzero : d.toRat ≠ 0 → d.coefficient ≠ 0 ∧ b.isZero = false := fun hq => by
    have hne := (Decimal.toRat_eq_zero_iff d).not.1 hq
    exact ⟨hne, by rwa [isZero_of_decimal? hb, Bool.eq_false_iff, Ne, Decimal.isZero_iff]⟩
  constructor
  · exact givesCut_of_combine ha hb h (binary_ofReal _ _ _ hnan hnan') (add_of_not_infinite hfinite hfinite')
      (Decimal.givesValue_add c d) rfl
  · exact givesCut_of_combine ha hb h (binary_ofReal _ _ _ hnan hnan') (sub_of_not_infinite hfinite hfinite')
      (Decimal.givesValue_sub c d) rfl
  · exact givesCut_of_combine ha hb h (binary_ofReal _ _ _ hnan hnan') (mul_of_not_infinite hfinite hfinite')
      (Decimal.givesValue_mul c d) rfl
  · intro hq
    exact givesCut_of_combine ha hb h (binary_ofReal _ _ _ hnan hnan') (div_of_not_infinite hfinite hfinite' (hzero hq).2)
      (Decimal.givesValue_quotient _) (Decimal.cut_cut precision _)
  · intro hq
    exact givesCut_of_combine ha hb h (binary_ofReal _ _ _ hnan hnan') (mod_of_not_infinite hfinite hfinite' (hzero hq).2)
      (Decimal.givesValue_remainderWithin (by decide) c (hzero hq).1) rfl

/-- Twice minus seven and a half is whole and becomes a big number; the remainder by two keeps a fraction. -/
theorem approximate_arithmetic_minus_fifteen_halves :
    (∃ x, Number.mul (.ofReal (.irrational ⟨true, 75, -1⟩)) (.ofReal (.big ⟨false, 2, 0⟩)) = .ok (.ofReal x) ∧
      IsCut x (-15 / 2 * 2) ∧ x.kind = .big) ∧
    ∃ x, Number.mod (.ofReal (.irrational ⟨true, 75, -1⟩)) (.ofReal (.big ⟨false, 2, 0⟩)) = .ok (.ofReal x) ∧
      IsCut x (-15 / 2 - 2 * towardsZero (-15 / 2 / 2)) ∧ x.kind = .irrational := by
  have hp : Decimal.toRat ⟨true, 75, -1⟩ = -15 / 2 := by with_unfolding_all decide
  have hq : Decimal.toRat ⟨false, 2, 0⟩ = 2 := by with_unfolding_all decide
  have h := approximate_arithmetic (a := .irrational ⟨true, 75, -1⟩) (b := .big ⟨false, 2, 0⟩) rfl rfl (.inl rfl)
  rw [hp, hq] at h
  obtain ⟨x, hx, hxcut⟩ := h.mul.ok ⟨⟨true, 15, 0⟩, by with_unfolding_all decide, by with_unfolding_all decide⟩
  obtain ⟨y, hy, hycut⟩ := (h.mod (by norm_num)).ok (by with_unfolding_all decide)
  exact ⟨⟨x, hx, hxcut, hxcut.kind.trans (by with_unfolding_all decide)⟩, y, hy, hycut, hycut.kind.trans (by with_unfolding_all decide)⟩

/-- A product far below the precision is cut to zero, but no decimal holds all its digits; and a quotient
can have more digits than any decimal. -/
theorem approximate_arithmetic_leaves_range :
    Decimal.cut precision (Decimal.toRat ⟨false, 1, -1900000000000000000⟩ * Decimal.toRat ⟨false, 1, -1900000000000000000⟩) = 0 ∧
    Number.mul (.ofReal (.irrational ⟨false, 1, -1900000000000000000⟩))
      (.ofReal (.irrational ⟨false, 1, -1900000000000000000⟩)) = .error .decimalInexact ∧
    Number.mod (.ofReal (.irrational ⟨false, 1, 999999999999999999⟩)) (.ofReal (.irrational ⟨false, 3, -1000⟩)) =
      .error .decimalRange := by
  have hvalue : Decimal.toRat ⟨false, 1, -1900000000000000000⟩ = Decimal.tenPow (-1900000000000000000) := by
    rw [Decimal.toRat_eq_sign, if_neg Bool.false_ne_true, Nat.cast_one, one_mul, one_mul]
  refine ⟨?_, by with_unfolding_all decide, by with_unfolding_all decide⟩
  rw [hvalue, ← Decimal.tenPow_add, Decimal.cut_eq_zero_iff, abs_of_pos (Decimal.tenPow_pos _),
    Decimal.tenPow_lt_tenPow]
  decide

end Real

end Reckon
