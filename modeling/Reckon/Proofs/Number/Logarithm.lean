/-
The logarithm to a base against the quotient of the natural logarithms. Which of the two evaluations is taken depends
on the number and not on the base. So a base without a double is lost next to a number with one: it counts as zero or
infinite, and the logarithm is zero.
-/
import Reckon.Proofs.Number.Parts
import Reckon.Proofs.Real.Logarithm

namespace Reckon.Number

open Reckon.Real

/-- The logarithm to the base and both natural logarithms are there, and these are their values. -/
structure HasLogarithms (x base : Number) (u v w : ℚ) : Prop where
  toBase : ∃ y, x.log base = .ok (.ofReal y) ∧ y.toRat? = some u
  natural : ∃ y, x.ln = .ok (.ofReal y) ∧ y.toRat? = some v
  ofBase : ∃ y, base.ln = .ok (.ofReal y) ∧ y.toRat? = some w

theorem hasLogarithms_of_gives {x base : Real} {u v w : ℚ} (hx : x.isNaN = false) (hbase : base.isNaN = false)
    (hlog : Gives (x.log base) u) (hln : Gives x.ln v) (hlnBase : Gives base.ln w) :
    HasLogarithms (.ofReal x) (.ofReal base) u v w := by
  have hnatural : ∀ z : Real, z.isNaN = false → Number.ln (.ofReal z) = z.ln.map .ofReal := fun z hz => by
    show (Scalar.unary Real.ln Scalar.lnParts (.real z)).map scalar = _
    rw [Scalar.unary_real _ _ hz]
    cases z.ln <;> rfl
  have htoBase : Number.log (.ofReal x) (.ofReal base) = (x.log base).map .ofReal := by
    show (Scalar.binary Real.log Scalar.logParts (.real x) (.real base)).map scalar = _
    rw [Scalar.binary_real hx hbase]
    cases x.log base <;> rfl
  obtain ⟨y, hy, hu⟩ := hlog
  obtain ⟨l, hl, hv⟩ := hln
  obtain ⟨m, hm, hw⟩ := hlnBase
  exact ⟨⟨y, by rw [htoBase, hy]; rfl, hu⟩, ⟨l, by rw [hnatural x hx, hl]; rfl, hv⟩,
    ⟨m, by rw [hnatural base hbase, hm]; rfl, hw⟩⟩

variable {a b : Decimal}

/-- A base whose double is not one is not one itself. -/
theorem isOne_of_project (hb : 0 < b.toRat) (h : (Real.big b).project ≠ .ok (Binary.ofRat 1)) : b.isOne = false := by
  refine Bool.eq_false_iff.2 fun hone => h (congrArg Except.ok ?_)
  rw [Binary.ofDecimal_eq_ofRat, Decimal.toRat_of_isOne hone, Decimal.negative_eq_false_of_pos hb]

theorem toRat_ne_one_of_project (h : (Real.big b).project ≠ .ok (Binary.ofRat 1)) {q : FiniteBinary .double}
    (hq : (Binary.ofDecimal b : Double) = .finite q) : q.toRat ≠ 1 := by
  intro hone
  refine h (congrArg Except.ok ?_)
  have hself : Binary.ofRat q.toRat q.negative = .finite q := Binary.convert_self q
  rw [hq, ← hself, hone, q.negative_eq_false_of_pos (by rw [hone]; exact one_pos)]

/-- Without a value nothing but a tiny logarithm is within twelve digits. -/
theorem abs_zero_mul_sub_le_iff (v w : ℚ) : |0 * w - v| ≤ 1 / 10 ^ 12 * max 1 |v| ↔ |v| ≤ 1 / 10 ^ 12 := by
  rw [zero_mul, zero_sub, abs_neg]
  constructor
  · intro h
    rcases max_cases 1 |v| with ⟨heq, -⟩ | ⟨heq, hlt⟩
    · rwa [heq, mul_one] at h
    · rw [heq] at h
      linarith
  · intro h
    exact h.trans (le_mul_of_one_le_right (by norm_num) (le_max_left _ _))

/-- The logarithm to a base is the quotient of the natural logarithms to twelve digits, as long as a number with a
double is not combined with a base without one. Then it is zero, and it agrees only where the logarithm of the number
is that small itself. -/
theorem log_agrees_iff (ha : Evaluable a) (hb : Evaluable b) (hone : (Real.big b).project ≠ .ok (Binary.ofRat 1)) :
    ∃ u v w, HasLogarithms (.ofReal (.big a)) (.ofReal (.big b)) u v w ∧
      (|u * w - v| ≤ 1 / 10 ^ 12 * max 1 |v| ↔
        ¬ (Real.big a).InDoubleRange ∨ (Real.big b).InDoubleRange ∨ |v| ≤ 1 / 10 ^ 12) := by
  have hbone := isOne_of_project hb.pos hone
  have hclose : ∀ {u v w : ℚ}, |u * w - v| ≤ |v| / 10 ^ 12 → |u * w - v| ≤ 1 / 10 ^ 12 * max 1 |v| := fun {u v w} h =>
    h.trans (by rw [div_eq_mul_one_div, mul_comm]; exact mul_le_mul_of_nonneg_left (le_max_right _ _) (by norm_num))
  by_cases hain : (Real.big a).InDoubleRange
  · by_cases hbin : (Real.big b).InDoubleRange
    · obtain ⟨p, hp, hpa⟩ := (inDoubleRange_iff ha.pos).1 hain
      obtain ⟨q, hq, hqb⟩ := (inDoubleRange_iff hb.pos).1 hbin
      obtain ⟨u, v, w, hu, hv, hw, hnear⟩ :=
        log_of_doubles ha.pos hb.pos hbone hp hpa hq hqb (toRat_ne_one_of_project hone hqb)
      exact ⟨u, v, w, hasLogarithms_of_gives rfl rfl hu hv hw, iff_of_true (hclose hnear) (.inr (.inl hbin))⟩
    · obtain ⟨v, w, hu, hv, hw⟩ := log_of_base_outside ha.pos hb hbone hain hbin
      refine ⟨0, v, w, hasLogarithms_of_gives rfl rfl hu hv hw, ?_⟩
      rw [abs_zero_mul_sub_le_iff, or_iff_right (not_not.2 hain), or_iff_right hbin]
  · obtain ⟨u, v, w, hu, hv, hw, hnear⟩ :=
      log_of_outside ha hb hbone hain fun q => toRat_ne_one_of_project hone
    exact ⟨u, v, w, hasLogarithms_of_gives rfl rfl hu hv hw, iff_of_true (hclose hnear) (.inl hain)⟩

/-- A number without a double to a base with one. -/
theorem log_agrees_large_power : Evaluable ⟨false, 1, 400⟩ ∧ Evaluable ⟨false, 2, 0⟩ ∧
    (Real.big ⟨false, 2, 0⟩).project ≠ .ok (Binary.ofRat 1) ∧
    ∃ u v w, HasLogarithms (.ofReal (.big ⟨false, 1, 400⟩)) (.ofReal (.big ⟨false, 2, 0⟩)) u v w ∧
      |u * w - v| ≤ 1 / 10 ^ 12 * max 1 |v| := by
  have hx : Evaluable ⟨false, 1, 400⟩ := ⟨by decide +kernel, by decide +kernel, by decide +kernel⟩
  have hbase : Evaluable ⟨false, 2, 0⟩ := ⟨by decide +kernel, by decide +kernel, by decide +kernel⟩
  have hone : (Real.big ⟨false, 2, 0⟩).project ≠ .ok (Binary.ofRat 1) := by decide +kernel
  have hout : ¬ (Real.big ⟨false, 1, 400⟩).InDoubleRange := (isFaithful_iff _).not.1 (by decide +kernel)
  obtain ⟨u, v, w, hvalues, hagrees⟩ := log_agrees_iff hx hbase hone
  exact ⟨hx, hbase, hone, u, v, w, hvalues, hagrees.2 (.inl hout)⟩

/-- The same two numbers the other way round: the logarithm is zero. -/
theorem log_loses_large_base : ¬ ∀ a b : Decimal, Evaluable a → Evaluable b →
    (Real.big b).project ≠ .ok (Binary.ofRat 1) →
    ∃ u v w, HasLogarithms (.ofReal (.big a)) (.ofReal (.big b)) u v w ∧ |u * w - v| ≤ 1 / 10 ^ 12 * max 1 |v| := by
  intro hclaim
  have hlog : Number.log (.ofReal (.big ⟨false, 2, 0⟩)) (.ofReal (.big ⟨false, 1, 400⟩)) = .ok (.ofReal .zero) := by
    decide +kernel
  have hln : Number.ln (.ofReal (.big ⟨false, 2, 0⟩)) = .ok (.ofReal (.irrational ⟨false, 6931471805599453, -16⟩)) := by
    decide +kernel
  obtain ⟨u, v, w, ⟨⟨y, hy, hu⟩, ⟨l, hl, hv⟩, -⟩, hagrees⟩ := hclaim ⟨false, 2, 0⟩ ⟨false, 1, 400⟩
    ⟨by decide +kernel, by decide +kernel, by decide +kernel⟩ ⟨by decide +kernel, by decide +kernel, by decide +kernel⟩
    (by decide +kernel)
  obtain rfl := ofReal_injective (Except.ok.inj (hlog.symm.trans hy))
  obtain rfl := ofReal_injective (Except.ok.inj (hln.symm.trans hl))
  obtain rfl : 0 = u := Option.some.inj ((by decide +kernel : Real.zero.toRat? = some 0).symm.trans hu)
  obtain rfl : 6931471805599453 / 10 ^ 16 = v :=
    Option.some.inj ((by decide +kernel : (Real.irrational ⟨false, 6931471805599453, -16⟩).toRat? = _).symm.trans hv)
  rw [abs_zero_mul_sub_le_iff] at hagrees
  norm_num at hagrees

end Reckon.Number
