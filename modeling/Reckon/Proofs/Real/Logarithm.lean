/-
Logarithms and their quotients. A number with a double is evaluated there and any other one as a decimal, and the
quotient of two logarithms follows the first operand alone. Next to it a base without a double counts as zero or
infinite, so that the quotient vanishes. In all other cases it is the quotient of the two logarithms to twelve digits.
-/
import Reckon.Proofs.Binary.Logarithm
import Reckon.Proofs.Decimal.Logarithm
import Reckon.Proofs.Real.Quotient

namespace Reckon

open Decimal.Significant (Near)

/-! ## Positive decimals as doubles -/

namespace Binary

/-- The double of a positive decimal is positive, or it is zero or infinite. -/
theorem ofDecimal_of_pos {d : Decimal} (h : 0 < d.toRat) :
    (∃ p : FiniteBinary .double, 0 < p.toRat ∧ (ofDecimal d : Double) = .finite p) ∨
      (ofDecimal d : Double) = .finite (.zero false) ∨ (ofDecimal d : Double) = .infinite false := by
  obtain ⟨m, e, -, heq⟩ := ofQuotient_eq (f := .double) (decide (d.toRat < 0))
    (Int.natAbs_pos.2 (Rat.num_ne_zero.2 h.ne')) d.toRat.den_pos
  rw [ofDecimal_eq_ofRat, ofRat_of_ne_zero h.ne', heq, decide_eq_false h.not_gt]
  split
  · rename_i hlimit
    cases hzero : (⟨false, _, hlimit⟩ : FiniteBinary .double).isZero with
    | false => exact .inl ⟨_, FiniteBinary.toRat_pos rfl hzero, rfl⟩
    | true => exact .inr (.inl (congrArg Binary.finite (FiniteBinary.eq_zero_of_isZero hzero)))
  · exact .inr (.inr rfl)

/-- A decimal whose exponent is not too large has a double. -/
theorem exists_ofDecimal {d : Decimal} (h : 0 < d.toRat) (hnear : |d.adjusted| < 300) :
    ∃ p : FiniteBinary .double, 0 < p.toRat ∧ (ofDecimal d : Double) = .finite p := by
  have hcoefficient : d.coefficient ≠ 0 := (Decimal.toRat_eq_zero_iff d).not.1 h.ne'
  obtain ⟨hdown, hup⟩ := abs_lt.1 hnear
  have habs := abs_of_pos h
  have hlow : (2 : ℚ) ^ (-1000 : ℤ) ≤ d.toRat := calc
    (2 : ℚ) ^ (-1000 : ℤ) = 1 / 2 ^ (1000 : ℤ) := by rw [zpow_neg, one_div]
    _ ≤ 1 / Decimal.tenPow 299 :=
      one_div_le_one_div_of_le (Decimal.tenPow_pos _) (Decimal.tenPow_le_two_zpow (by norm_num) (by norm_num))
    _ = Decimal.tenPow (-299) := by rw [← Decimal.tenPow_zero, ← Decimal.tenPow_sub, zero_sub]
    _ ≤ Decimal.tenPow d.adjusted := Decimal.tenPow_le_tenPow.2 (by omega)
    _ ≤ d.toRat := habs ▸ Decimal.tenPow_adjusted_le hcoefficient
  have hhigh : d.toRat ≤ 2 ^ (1000 : ℤ) := calc
    d.toRat ≤ Decimal.tenPow (d.adjusted + 1) := habs ▸ (Decimal.abs_toRat_lt d).le
    _ ≤ Decimal.tenPow 300 := Decimal.tenPow_le_tenPow.2 (by omega)
    _ ≤ 2 ^ (1000 : ℤ) := Decimal.tenPow_le_two_zpow (by norm_num) (by norm_num)
  obtain ⟨p, hp, -, hvalue⟩ := ofRat_of_le
    (habs ▸ hhigh.trans (FiniteBinary.two_zpow_le_largest (by norm_num))) d.negative
  refine ⟨p, ?_, (ofDecimal_eq_ofRat d).trans hp⟩
  rw [hvalue]
  exact lt_of_lt_of_le (by positivity) (Roots.two_zpow_le_nearest le_rfl hlow)

end Binary

namespace Real

/-! ## Which way a number is evaluated -/

/-- The projection says something about the number, so that functions are evaluated there. -/
def InDoubleRange (x : Real) : Prop := ∃ p, x.project = .ok p ∧ x.isFaithful p = true

variable {d : Decimal}

theorem isNegative_of_pos (h : 0 < d.toRat) : (big d).isNegative = false := Decimal.negative_eq_false_of_pos h

theorem isZero_of_pos (h : 0 < d.toRat) : (big d).isZero = false := by
  rw [isZero_of_decimal? (x := big d) rfl, Bool.eq_false_iff, Ne, Decimal.isZero_iff, ← Decimal.toRat_eq_zero_iff]
  exact h.ne'

theorem inDoubleRange_iff (h : 0 < d.toRat) : (big d).InDoubleRange ↔
    ∃ p : FiniteBinary .double, 0 < p.toRat ∧ (Binary.ofDecimal d : Double) = .finite p := by
  have hzero := isZero_of_pos h
  constructor
  · rintro ⟨p, hp, hfaithful⟩
    obtain rfl := Except.ok.inj (show Except.ok (Binary.ofDecimal d) = Except.ok p from hp)
    refine (Binary.ofDecimal_of_pos h).resolve_right ?_
    rintro (hp | hp) <;> rw [hp, isFaithful, hzero] at hfaithful <;> cases hfaithful
  · rintro ⟨p, hp, heq⟩
    refine ⟨.finite p, congrArg Except.ok heq, ?_⟩
    rw [isFaithful, Binary.isZero, FiniteBinary.isZero_eq_false hp.ne']
    rfl

/-- Without a double a positive decimal is beyond all of them, or below all but zero. -/
theorem not_inDoubleRange (h : 0 < d.toRat) (hd : ¬ (big d).InDoubleRange) : 300 ≤ |d.adjusted| ∧
    ((Binary.ofDecimal d : Double) = .finite (.zero false) ∨ (Binary.ofDecimal d : Double) = .infinite false) := by
  rw [inDoubleRange_iff h] at hd
  exact ⟨not_lt.1 fun hnear => hd (Binary.exists_ofDecimal h hnear), (Binary.ofDecimal_of_pos h).resolve_left hd⟩

/-! ## Results of doubles -/

/-- A double that is zero or not too small keeps its value up to the last bits. -/
theorem embed_near {y : FiniteBinary .double} (hy : (∃ s, y = .zero s) ∨ 1 / 2 ^ 70 ≤ |y.toRat|) (name : String) :
    ∃ x, embed (.finite y) name = .ok x ∧ IsCut x y.toDecimal.toRat ∧
      Near (1 / 2 ^ 51) y.toRat (Decimal.cut precision y.toDecimal.toRat) := by
  obtain ⟨x, hx, hcut⟩ := ofApproximation_isCut y.toDecimal
  refine ⟨x, hx, hcut, ?_⟩
  rcases hy with ⟨s, rfl⟩ | hlarge
  · have hzero : (FiniteBinary.zero s : FiniteBinary .double).toDecimal.toRat = 0 := by cases s <;> decide +kernel
    rw [hzero, Binary.toRat_zero, (Decimal.cut_eq_zero_iff _ _).2 (by rw [abs_zero]; exact Decimal.tenPow_pos _)]
    exact Decimal.Significant.near_self (by positivity) 0
  · have hnormal : (2 : ℚ) ^ (-1022 : ℤ) ≤ |y.toRat| :=
      le_trans (zpow_le_zpow_right₀ (by norm_num) (by norm_num : (-1022 : ℤ) ≤ -70)) (le_trans (by norm_num) hlarge)
    have hdecimal := y.toDecimal_near hnormal
    have hlost := Decimal.abs_cut_sub_lt precision y.toDecimal.toRat
    have hunit : Decimal.tenPow (-precision) ≤ 1 / 2 ^ 53 * (1 / 2 ^ 70) := by norm_num [Decimal.tenPow, precision]
    have htri := abs_sub_le (Decimal.cut precision y.toDecimal.toRat) y.toDecimal.toRat y.toRat
    unfold Near at hdecimal ⊢
    linarith

/-! ## Logarithms -/

theorem ln_big (h : 0 < d.toRat) : (big d).ln =
    if (big d).isFaithful (Binary.ofDecimal d) then embed (Binary.ln (Binary.ofDecimal d)) "ln"
    else ofApproximation (Decimal.Significant.ln (evaluationDigits d) d) := by
  unfold ln logarithm
  rw [isZero_of_pos h, isNegative_of_pos h]
  rfl

theorem isFaithful_iff (d : Decimal) : (big d).isFaithful (Binary.ofDecimal d) = true ↔ (big d).InDoubleRange := by
  constructor
  · exact fun h => ⟨_, rfl, h⟩
  · rintro ⟨p, hp, h⟩
    obtain rfl := Except.ok.inj (show Except.ok (Binary.ofDecimal d) = Except.ok p from hp)
    exact h

/-- The logarithm of a number with a double is that of the double. -/
theorem exists_ln_of_double {p : FiniteBinary .double} (h : 0 < d.toRat) (hp : 0 < p.toRat)
    (heq : (Binary.ofDecimal d : Double) = .finite p) : ∃ y l, Binary.ln (.finite p) = .finite y ∧
      (p.toRat = 1 ∧ y = .zero false ∨ p.toRat ≠ 1 ∧ Binary.IsLogarithm y) ∧ (big d).ln = .ok l ∧
      IsCut l y.toDecimal.toRat ∧ Near (1 / 2 ^ 51) y.toRat (Decimal.cut precision y.toDecimal.toRat) := by
  obtain ⟨y, hy, hcases⟩ := Binary.exists_ln hp
  have hsize : (∃ s, y = .zero s) ∨ 1 / 2 ^ 70 ≤ |y.toRat| :=
    hcases.imp (fun h => ⟨_, h.2⟩) fun h => le_trans (by norm_num) h.2.1
  obtain ⟨l, hl, hcut, hnear⟩ := embed_near hsize "ln"
  refine ⟨y, l, hy, hcases, ?_, hcut, hnear⟩
  rw [ln_big h, if_pos ((isFaithful_iff d).2 ((inDoubleRange_iff h).2 ⟨p, hp, heq⟩)), heq, hy, hl]

/-- A positive number with no more digits to evaluate than a decimal can have. -/
structure Evaluable (d : Decimal) : Prop where
  pos : 0 < d.toRat
  inRange : d.inRange = true
  digits : evaluationDigits d ≤ Decimal.maxDigits

theorem Evaluable.abs_adjusted_le (h : Evaluable d) : |d.adjusted| ≤ 2 * 10 ^ 18 := by
  have hexponent := d.exponent_le_adjusted
  have hrange := h.inRange
  have hdigits := h.digits
  rw [Decimal.inRange_iff, Decimal.minExponent] at hrange
  rw [evaluationDigits, precision, Decimal.maxDigits] at hdigits
  exact abs_le.2 ⟨by omega, by omega⟩

/-- The logarithm of a number without a double is far from zero. -/
theorem exists_ln_of_outside (h : Evaluable d) (hd : ¬ (big d).InDoubleRange) :
    ∃ l v, (big d).ln = .ok l ∧ IsCut l v ∧ 100 ≤ |Decimal.cut precision v| ∧ |Decimal.cut precision v| ≤ 10 ^ 22 := by
  obtain ⟨l, hl, hcut⟩ := ofApproximation_isCut (Decimal.Significant.ln (evaluationDigits d) d)
  refine ⟨l, _, by rw [ln_big h.pos, if_neg ((isFaithful_iff d).not.2 hd), hl], hcut, ?_⟩
  have hfar := (not_inDoubleRange h.pos hd).1
  have hprec : 2 ≤ evaluationDigits d := by
    unfold evaluationDigits precision
    omega
  obtain ⟨hlow, hhigh⟩ := Decimal.Significant.abs_ln_bounds hprec ((Decimal.toRat_eq_zero_iff d).not.1 h.pos.ne') hfar
  generalize (Decimal.Significant.ln (evaluationDigits d) d).toRat = v at hlow hhigh ⊢
  have hfar' : (300 : ℚ) ≤ |(d.adjusted : ℚ)| := by exact_mod_cast hfar
  have hlimit' : |(d.adjusted : ℚ)| ≤ 2 * 10 ^ 18 := by exact_mod_cast h.abs_adjusted_le
  have hlost := Decimal.abs_cut_sub_lt precision v
  have hunit : Decimal.tenPow (-precision) ≤ 1 := Decimal.tenPow_le_tenPow.2 (by decide : -precision ≤ 0)
  have hdown := abs_sub_abs_le_abs_sub v (Decimal.cut precision v)
  have hup := abs_sub_abs_le_abs_sub (Decimal.cut precision v) v
  rw [abs_sub_comm] at hdown
  constructor <;> linarith

/-- A logarithm other than that of one has a moderate size. -/
theorem exists_ln_of_ne_one (h : Evaluable d)
    (hone : ∀ p : FiniteBinary .double, (Binary.ofDecimal d : Double) = .finite p → p.toRat ≠ 1) :
    ∃ l v, (big d).ln = .ok l ∧ IsCut l v ∧ 1 / 10 ^ 22 ≤ |Decimal.cut precision v| ∧
      |Decimal.cut precision v| ≤ 10 ^ 22 := by
  by_cases hd : (big d).InDoubleRange
  · obtain ⟨p, hp, heq⟩ := (inDoubleRange_iff h.pos).1 hd
    obtain ⟨y, l, -, hy, hl, hcut, hnear⟩ := exists_ln_of_double h.pos hp heq
    obtain ⟨-, hlow, hhigh⟩ := hy.resolve_left fun hy => hone p heq hy.1
    refine ⟨l, _, hl, hcut, ?_⟩
    obtain ⟨hdown, hup⟩ := hnear.abs_bounds
    constructor <;> linarith
  · obtain ⟨l, v, hl, hcut, hlow, hhigh⟩ := exists_ln_of_outside h hd
    exact ⟨l, v, hl, hcut, le_trans (by norm_num) hlow, hhigh⟩

/-! ## Quotients of logarithms -/

/-- The outcome is a number that stands for the rational. -/
def Gives (result : Outcome Real) (q : ℚ) : Prop := ∃ x, result = .ok x ∧ x.toRat? = some q

section

variable {a b : Decimal}

theorem log_big (ha : 0 < a.toRat) (hb : 0 < b.toRat) (hone : b.isOne = false) : (big a).log (big b) =
    if (big a).isFaithful (Binary.ofDecimal a) then
      embed (Binary.div (Binary.ln (Binary.ofDecimal a)) (Binary.ln (Binary.ofDecimal b))) "log"
    else (big a).ln >>= fun l => (big b).ln >>= l.div := by
  have hany : (big b).decimal?.any Decimal.isOne = false := hone
  unfold log
  simp only [List.any_cons, List.any_nil, isZero_of_pos ha, isZero_of_pos hb, isNegative_of_pos ha, isNegative_of_pos hb]
  rw [hany]
  rfl

/-- Errors of a few last bits of doubles are far below twelve digits. -/
theorem abs_mul_sub_le_of_near {l m z p q r : ℚ} (hm : m ≠ 0) (hz : Near (1 / 2 ^ 52) (l / m) z)
    (hr : Near (1 / 2 ^ 51) z r) (hp : Near (1 / 2 ^ 51) l p) (hq : Near (1 / 2 ^ 51) m q) :
    |r * q - p| ≤ |p| / 10 ^ 12 := by
  have hproduct := ((hz.trans hr (by norm_num)).mul hq).mono (show _ ≤ (1 : ℚ) / 2 ^ 48 by norm_num)
  rw [div_mul_cancel₀ _ hm] at hproduct
  have htri := abs_sub_le (r * q) l p
  have hdown := hp.abs_bounds.1
  unfold Near at hproduct hp
  rw [abs_sub_comm l p] at htri
  linarith [abs_nonneg l]

/-- Two numbers with doubles. -/
theorem log_of_doubles (ha : 0 < a.toRat) (hb : 0 < b.toRat) (hone : b.isOne = false) {p q : FiniteBinary .double}
    (hp : 0 < p.toRat) (hpa : (Binary.ofDecimal a : Double) = .finite p) (hq : 0 < q.toRat)
    (hqb : (Binary.ofDecimal b : Double) = .finite q) (hqone : q.toRat ≠ 1) : ∃ u v w, Gives ((big a).log (big b)) u ∧
      Gives (big a).ln v ∧ Gives (big b).ln w ∧ |u * w - v| ≤ |v| / 10 ^ 12 := by
  obtain ⟨y, l, hy, hycases, hl, hlcut, hlnear⟩ := exists_ln_of_double ha hp hpa
  obtain ⟨z, m, hz, hzcases, hm, hmcut, hmnear⟩ := exists_ln_of_double hb hq hqb
  have hzlog := (hzcases.resolve_left fun h => hqone h.1).2
  have hlog : (big a).log (big b) = embed (Binary.div (.finite y) (.finite z)) "log" := by
    rw [log_big ha hb hone, if_pos ((isFaithful_iff a).2 ((inDoubleRange_iff ha).2 ⟨p, hp, hpa⟩)), hpa, hqb, hy, hz]
  have hquotient : ∃ t : FiniteBinary .double, Binary.div (.finite y) (.finite z) = .finite t ∧
      Near (1 / 2 ^ 52) (y.toRat / z.toRat) t.toRat ∧ ((∃ s, t = .zero s) ∨ 1 / 2 ^ 70 ≤ |t.toRat|) := by
    rcases hycases with ⟨-, rfl⟩ | ⟨-, hylog⟩
    · rw [Binary.div_finite hzlog.ne_zero, Binary.toRat_zero, zero_div]
      refine ⟨_, rfl, ?_, .inl ⟨_, rfl⟩⟩
      rw [Binary.toRat_zero]
      exact Decimal.Significant.near_self (by norm_num) 0
    · obtain ⟨t, ht, hnear, hsize⟩ := Binary.exists_div_near hylog hzlog
      exact ⟨t, ht, hnear, .inr hsize⟩
  obtain ⟨t, ht, htnear, htsize⟩ := hquotient
  obtain ⟨x, hx, hxcut, hxnear⟩ := embed_near htsize "log"
  exact ⟨_, _, _, ⟨x, by rw [hlog, ht, hx], hxcut.toRat?⟩, ⟨l, hl, hlcut.toRat?⟩, ⟨m, hm, hmcut.toRat?⟩,
    abs_mul_sub_le_of_near hzlog.ne_zero htnear hxnear hlnear hmnear⟩

/-- A number without a double. -/
theorem log_of_outside (ha : Evaluable a) (hb : Evaluable b) (hone : b.isOne = false) (haout : ¬ (big a).InDoubleRange)
    (hbone : ∀ q : FiniteBinary .double, (Binary.ofDecimal b : Double) = .finite q → q.toRat ≠ 1) :
    ∃ u v w, Gives ((big a).log (big b)) u ∧ Gives (big a).ln v ∧ Gives (big b).ln w ∧ |u * w - v| ≤ |v| / 10 ^ 12 := by
  obtain ⟨l, v, hl, hlcut, hlow, hhigh⟩ := exists_ln_of_outside ha haout
  obtain ⟨m, w, hm, hmcut, hlow', hhigh'⟩ := exists_ln_of_ne_one hb hbone
  obtain ⟨x, u, hx, hu, hnear⟩ := div_near hlcut hmcut rfl rfl (le_trans (by norm_num) hlow) hhigh hlow' hhigh'
  refine ⟨u, _, _, ⟨x, ?_, hu⟩, ⟨l, hl, hlcut.toRat?⟩, ⟨m, hm, hmcut.toRat?⟩, hnear⟩
  rw [log_big ha.pos hb.pos hone, if_neg ((isFaithful_iff a).not.2 haout), hl, hm]
  exact hx

/-- A number with a double to a base without one. -/
theorem log_of_base_outside (ha : 0 < a.toRat) (hb : Evaluable b) (hone : b.isOne = false)
    (hain : (big a).InDoubleRange) (hbout : ¬ (big b).InDoubleRange) :
    ∃ v w, Gives ((big a).log (big b)) 0 ∧ Gives (big a).ln v ∧ Gives (big b).ln w := by
  obtain ⟨p, hp, hpa⟩ := (inDoubleRange_iff ha).1 hain
  obtain ⟨y, l, hy, -, hl, hlcut, -⟩ := exists_ln_of_double ha hp hpa
  obtain ⟨m, w, hm, hmcut, -⟩ := exists_ln_of_outside hb hbout
  obtain ⟨s, hs⟩ : ∃ s, Binary.ln (Binary.ofDecimal b) = .infinite s := by
    rcases (not_inDoubleRange hb.pos hbout).2 with heq | heq <;> rw [heq] <;> exact ⟨_, rfl⟩
  have hlog : (big a).log (big b) = embed (.finite (.zero (y.negative != s)) : Double) "log" := by
    rw [log_big ha hb.pos hone, if_pos ((isFaithful_iff a).2 hain), hpa, hy, hs]
    rfl
  obtain ⟨x, hx, hxcut, hxnear⟩ := embed_near (y := .zero (y.negative != s)) (.inl ⟨_, rfl⟩) "log"
  rw [Near, Binary.toRat_zero, abs_zero, mul_zero, sub_zero, abs_nonpos_iff] at hxnear
  refine ⟨_, _, ⟨x, hlog.trans hx, ?_⟩, ⟨l, hl, hlcut.toRat?⟩, ⟨m, hm, hmcut.toRat?⟩⟩
  rw [hxcut.toRat?, hxnear]

end

end Real

end Reckon
