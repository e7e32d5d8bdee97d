/-
Quotients whose operands are known up to a cut. A rational that repeats is stored with a bounded number of digits and
may be read back as another one, but never with less than twelve right digits. So dividing two approximations, or
two integers that they happen to be, loses little against the exact quotient.
-/
import Reckon.Proofs.Real.Cutting
import Reckon.Proofs.Real.Stored

namespace Reckon.Real

open Reckon.Digits Reckon.Expansion

/-! ## What is read back from few digits -/

section

variable {q : ℚ} {whole : Nat} {lead cycle : List Char}

/-- A rational whose stored digits are zeros but for the last twelve is read back right. -/
theorem recovers_of_few_digits (h : IsExpansion q whole lead cycle) (hq : ¬ Terminates q)
    (hlen : lead.length + cycle.length ≤ 10000)
    (hfew : |q| * 10 ^ (lead.length + Cycle.repeats * cycle.length) < 10 ^ 12) : Recovers q := by
  rw [recovers_iff_of_complete h hq hlen, h.append_cycles, ← Cycle.best_digitsAt_iff h.shortest_digitOf le_rfl,
    Cycle.digitsAt_eq_range]
  refine Cycle.best_of_constant_head (Cycle.isShortest_digitChar h.shortest_digitOf) le_rfl fun i hi =>
    congrArg digitChar (show _ = 0 from ?_)
  generalize lead.length + Cycle.repeats * cycle.length = n at hfew hi
  have hsmall : |q| * 10 ^ (i + 1) < 1 := by
    refine lt_of_mul_lt_mul_right ?_ (show (0 : ℚ) ≤ 10 ^ 12 by positivity)
    calc |q| * 10 ^ (i + 1) * 10 ^ 12 = |q| * 10 ^ (i + 1 + 12) := by rw [mul_assoc, ← pow_add]
      _ ≤ |q| * 10 ^ n := by
        gcongr
        · norm_num
        · omega
      _ < 1 * 10 ^ 12 := by rwa [one_mul]
  rw [← digitAt_eq, digitAt, Nat.floor_eq_zero.2 hsmall]

/-- The stored digits lack at most a unit of their last place of what the number stands for. -/
theorem exists_lack_of_recurring (d : Decimal) : ∃ t, 0 ≤ t ∧ t ≤ Decimal.tenPow d.exponent ∧
    (recurring d).toRat? = some ((if d.negative then -1 else 1) * (|d.toRat| + t)) := by
  cases hb : recurringRat? d with
  | some r =>
    obtain ⟨t, hnonneg, hle, rfl⟩ := exists_lack_of_recurringRat? hb
    exact ⟨t, hnonneg, hle, toRat?_of_exactRat? (x := recurring d) hb⟩
  | none =>
    refine ⟨0, le_rfl, (Decimal.tenPow_pos _).le, ?_⟩
    rw [toRat?_of_no_cycle hb, add_zero, ← Decimal.toRat_eq_sign_mul_abs]

/-- What is read back is within a unit of the last place that is stored. -/
theorem abs_sub_le_of_not_terminates (h : IsExpansion q whole lead cycle) (hq : ¬ Terminates q) : ∃ x r,
    ofRat q = .ok x ∧ x.toRat? = some r ∧
      |r - q| ≤ Decimal.tenPow (-(storedPlaces lead.length cycle.length 10000 : Nat)) := by
  have hstored := storedDigits_ofNat h hq 10000
  generalize storedPlaces lead.length cycle.length 10000 = n at hstored ⊢
  obtain ⟨t, hnonneg, hle, hr⟩ := exists_lack_of_recurring ⟨q < 0, ⌊|q| * (10 ^ n : Nat)⌋₊, -(n : ℤ)⟩
  refine ⟨_, _, (ofRat_of_not_terminates hq).trans (by rw [hstored]), hr, ?_⟩
  have hunit := Decimal.tenPow_pos (-(n : ℤ))
  have hscaled : |q| * (10 ^ n : Nat) * Decimal.tenPow (-(n : ℤ)) = |q| := by
    rw [← Decimal.tenPow_natCast, mul_assoc, ← Decimal.tenPow_add, add_neg_cancel, Decimal.tenPow_zero, mul_one]
  have hbelow := mul_le_mul_of_nonneg_right (Nat.floor_le (show 0 ≤ |q| * (10 ^ n : Nat) by positivity)) hunit.le
  have habove := mul_lt_mul_of_pos_right (Nat.lt_floor_add_one (|q| * (10 ^ n : Nat))) hunit
  rw [Decimal.abs_toRat]
  rw [hscaled] at hbelow habove
  simp only [decide_eq_true_eq] at hle ⊢
  conv_lhs => enter [1, 2]; rw [← Decimal.sign_mul_abs q]
  rw [← mul_sub, Decimal.abs_sign_mul, abs_le]
  constructor <;> linarith

end

/-- A rational that is not too small keeps twelve digits. -/
theorem abs_sub_le_of_ofRat {q : ℚ} {x : Real} (hx : ofRat q = .ok x) (hlow : Decimal.tenPow (-5000) ≤ |q|) :
    ∃ r, x.toRat? = some r ∧ |r - q| ≤ |q| / 10 ^ 12 := by
  have hexact : |q - q| ≤ |q| / 10 ^ 12 := by
    rw [sub_self, abs_zero]
    positivity
  by_cases hq : Terminates q
  · obtain ⟨d, rfl, hvalue⟩ := exists_decimal_of_ofRat hq hx
    exact ⟨q, congrArg some hvalue, hexact⟩
  obtain ⟨whole, lead, cycle, h⟩ := exists_isExpansion q
  -- with many digits stored what lacks is small, with few of them the cycle is found again
  by_cases hmany : 10 ^ 12 ≤ |q| * 10 ^ storedPlaces lead.length cycle.length 10000
  · obtain ⟨y, r, hy, hr, hnear⟩ := abs_sub_le_of_not_terminates h hq
    obtain rfl := Except.ok.inj (hx.symm.trans hy)
    refine ⟨r, hr, hnear.trans ?_⟩
    rw [Decimal.tenPow_neg_natCast, Nat.cast_pow, Nat.cast_ofNat, inv_eq_one_div,
      div_le_div_iff₀ (by positivity) (by positivity), one_mul]
    exact hmany
  · have hlen : lead.length + cycle.length ≤ 10000 := by
      by_contra hlong
      refine hmany ?_
      rw [storedPlaces, if_neg hlong]
      calc (10 : ℚ) ^ 12 ≤ Decimal.tenPow (-5000) * 10 ^ 10000 := by
            rw [show (10 : ℚ) ^ 10000 = Decimal.tenPow 10000 from rfl, ← Decimal.tenPow_add]
            exact pow_le_pow_right₀ (by norm_num) (show 12 ≤ 5000 by norm_num)
        _ ≤ |q| * 10 ^ 10000 := mul_le_mul_of_nonneg_right hlow (by positivity)
    rw [storedPlaces, if_pos hlen] at hmany
    obtain ⟨y, hy, hrecovered⟩ := recovers_of_few_digits h hq hlen (not_le.1 hmany)
    obtain rfl := Except.ok.inj (hx.symm.trans hy)
    exact ⟨q, toRat?_of_exactRat? hrecovered, hexact⟩

/-! ## Division -/

/-- A cut number is an approximation, or it is big and an integer. -/
theorem IsCut.cases {x : Real} {q : ℚ} (h : IsCut x q) : ∃ d : Decimal, d.toRat = Decimal.cut precision q ∧
    (x = .irrational d ∨ x = .big d ∧ (Decimal.cut precision q).den = 1) := by
  obtain ⟨⟨d, hd, hvalue, -⟩, hkind⟩ := h
  refine ⟨d, hvalue, ?_⟩
  cases x with
  | irrational b => exact .inl (congrArg Real.irrational (Option.some.inj hd))
  | big b =>
    refine .inr ⟨congrArg Real.big (Option.some.inj hd), ?_⟩
    by_contra hden
    rw [if_neg hden] at hkind
    cases hkind
  | small f b => split at hkind <;> cases hkind
  | recurring b => split at hkind <;> cases hkind
  | infinite s => cases hd
  | nan => cases hd

theorem IsCut.toRat? {x : Real} {q : ℚ} (h : IsCut x q) : x.toRat? = some (Decimal.cut precision q) := by
  obtain ⟨d, hd, rfl | ⟨rfl, -⟩⟩ := h.cases <;> exact congrArg some hd

section

variable {x y : Real} {p q a b : ℚ}

/-- A quotient of two integers that are not too large is stored. -/
theorem exists_ofRat_div (ha : a.den = 1) (hb : b.den = 1) (hane : a ≠ 0) (hbne : b ≠ 0) (hsize : |a| ≤ 10 ^ 22)
    (hsize' : |b| ≤ 10 ^ 22) : ∃ x, ofRat (a / b) = .ok x := by
  have hbits : ∀ v : ℚ, v.den = 1 → |v| ≤ 10 ^ 22 → v.num.natAbs < 2 ^ 100 := fun v hv hle => by
    rw [abs_eq_natAbs_div, hv, Nat.cast_one, div_one] at hle
    exact lt_of_le_of_lt (by exact_mod_cast hle) (by norm_num : 10 ^ 22 < 2 ^ 100)
  have hbnum := Rat.num_ne_zero.2 hbne
  have hanum := Rat.num_ne_zero.2 hane
  rw [← Rat.coe_int_num_of_den_eq_one ha, ← Rat.coe_int_num_of_den_eq_one hb, Rat.intCast_div_eq_divInt]
  refine exists_ofRat_of_lt (lt_of_le_of_lt ?_ (hbits a ha hsize)) (lt_of_le_of_lt ?_ (hbits b hb hsize'))
    (by norm_num : 100 < 10 ^ 18)
  · exact Nat.le_of_dvd (Int.natAbs_pos.2 hanum) (Int.natAbs_dvd_natAbs.2 (Rat.num_dvd _ hbnum))
  · exact Nat.le_of_dvd (Int.natAbs_pos.2 hbnum) (Int.natCast_dvd.1 (Rat.den_dvd _ _))

section

variable {c d : Decimal} (hc : c.toRat = a) (hd : d.toRat = b)

include hc hd

/-- An approximation is divided as a decimal, and the quotient is cut. -/
theorem div_near_of_isIrrational (hx : x.decimal? = some c) (hy : y.decimal? = some d)
    (hirrational : x.isIrrational = true ∨ y.isIrrational = true) (hlow : 1 ≤ |a|) (hhigh : |a| ≤ 10 ^ 22)
    (hlow' : 1 / 10 ^ 22 ≤ |b|) (hhigh' : |b| ≤ 10 ^ 22) :
    ∃ z r, x.div y = .ok z ∧ z.toRat? = some r ∧ |r - a / b| * |b| ≤ |a| / 10 ^ 12 := by
  have hbpos : 0 < |b| := lt_of_lt_of_le (by norm_num) hlow'
  have hzero : y.isZero = false := by
    rw [isZero_of_decimal? hy, Bool.eq_false_iff, Ne, Decimal.isZero_iff, ← Decimal.toRat_eq_zero_iff, hd]
    exact abs_pos.1 hbpos
  rw [div_of_not_infinite (isInfinite_of_decimal? hx) (isInfinite_of_decimal? hy) hzero,
    combine_of_isIrrational _ _ hx hy hirrational, hc, hd]
  have hrange : Representable (Decimal.cut precision (a / b)) := by
    refine (Decimal.representable_cut_iff _).2 ⟨by decide, ?_⟩
    calc |Decimal.cut precision (a / b)| ≤ |a / b| := (Decimal.isCutMultiple_cut precision _).le
      _ ≤ Decimal.tenPow 44 := by
        rw [abs_div, div_le_iff₀ hbpos]
        norm_num [Decimal.tenPow]
        linarith
      _ < Decimal.tenPow (Decimal.maxExponent + 1) := Decimal.tenPow_lt_tenPow.2 (by decide)
  obtain ⟨e, he, hvalue⟩ := (Decimal.givesValue_quotient (a / b)).ok hrange
  obtain ⟨z, hz, hcut⟩ := ofApproximation_isCut e
  refine ⟨z, _, (congrArg (· >>= ofApproximation) he).trans hz, hcut.toRat?, ?_⟩
  rw [hvalue, Decimal.cut_cut]
  calc |Decimal.cut precision (a / b) - a / b| * |b| ≤ Decimal.tenPow (-precision) * 10 ^ 22 :=
        mul_le_mul (Decimal.abs_cut_sub_lt _ _).le hhigh' (abs_nonneg _) (Decimal.tenPow_pos _).le
    _ ≤ 1 / 10 ^ 12 := by norm_num [Decimal.tenPow, precision]
    _ ≤ |a| / 10 ^ 12 := by gcongr

/-- Two integers are divided exactly. -/
theorem div_near_of_den_eq_one (ha : a.den = 1) (hb : b.den = 1) (hlow : 1 ≤ |a|) (hhigh : |a| ≤ 10 ^ 22)
    (hbne : b ≠ 0) (hhigh' : |b| ≤ 10 ^ 22) :
    ∃ z r, (big c).div (big d) = .ok z ∧ z.toRat? = some r ∧ |r - a / b| * |b| ≤ |a| / 10 ^ 12 := by
  have hbpos : 0 < |b| := abs_pos.2 hbne
  have hzero : (big d).isZero = false := by
    rwa [isZero_of_decimal? rfl, Bool.eq_false_iff, Ne, Decimal.isZero_iff, ← Decimal.toRat_eq_zero_iff, hd]
  rw [div_of_exactRat? (a := .big c) (b := .big d) (congrArg some hc) (congrArg some hd) hzero]
  obtain ⟨z, hz⟩ := exists_ofRat_div ha hb (abs_pos.1 (by linarith)) hbne hhigh hhigh'
  have hsize : Decimal.tenPow (-5000) ≤ |a / b| := by
    rw [abs_div, le_div_iff₀ hbpos]
    calc Decimal.tenPow (-5000) * |b| ≤ Decimal.tenPow (-22) * 10 ^ 22 :=
          mul_le_mul (Decimal.tenPow_le_tenPow.2 (by norm_num)) hhigh' hbpos.le (Decimal.tenPow_pos _).le
      _ ≤ 1 := by norm_num [Decimal.tenPow]
      _ ≤ |a| := hlow
  obtain ⟨r, hr, hnear⟩ := abs_sub_le_of_ofRat hz hsize
  refine ⟨z, r, hz, hr, ?_⟩
  calc |r - a / b| * |b| ≤ |a / b| / 10 ^ 12 * |b| := mul_le_mul_of_nonneg_right hnear hbpos.le
    _ = |a| / 10 ^ 12 := by
      rw [abs_div]
      field_simp

end

/-- The quotient of two cut numbers, to twelve digits of the exact one. -/
theorem div_near (hx : IsCut x p) (hy : IsCut y q) (ha : Decimal.cut precision p = a) (hb : Decimal.cut precision q = b)
    (hlow : 1 ≤ |a|) (hhigh : |a| ≤ 10 ^ 22) (hlow' : 1 / 10 ^ 22 ≤ |b|) (hhigh' : |b| ≤ 10 ^ 22) :
    ∃ z r, x.div y = .ok z ∧ z.toRat? = some r ∧ |r * b - a| ≤ |a| / 10 ^ 12 := by
  obtain ⟨c, hc, hxcases⟩ := hx.cases
  obtain ⟨d, hd, hycases⟩ := hy.cases
  rw [ha] at hc hxcases
  rw [hb] at hd hycases
  have hbne : b ≠ 0 := abs_pos.1 (lt_of_lt_of_le (by norm_num) hlow')
  obtain ⟨z, r, hz, hr, hnear⟩ : ∃ z r, x.div y = .ok z ∧ z.toRat? = some r ∧ |r - a / b| * |b| ≤ |a| / 10 ^ 12 := by
    by_cases hirrational : x.isIrrational = true ∨ y.isIrrational = true
    · have hxd : x.decimal? = some c := by rcases hxcases with rfl | ⟨rfl, -⟩ <;> rfl
      have hyd : y.decimal? = some d := by rcases hycases with rfl | ⟨rfl, -⟩ <;> rfl
      exact div_near_of_isIrrational hc hd hxd hyd hirrational hlow hhigh hlow' hhigh'
    · obtain ⟨hxrational, hyrational⟩ := not_or.1 hirrational
      obtain ⟨rfl, haden⟩ := hxcases.resolve_left fun h => hxrational (h ▸ rfl)
      obtain ⟨rfl, hbden⟩ := hycases.resolve_left fun h => hyrational (h ▸ rfl)
      exact div_near_of_den_eq_one hc hd haden hbden hlow hhigh hbne hhigh'
  refine ⟨z, r, hz, hr, ?_⟩
  rwa [← abs_mul, sub_mul, div_mul_cancel₀ _ hbne] at hnear

end

end Reckon.Real
