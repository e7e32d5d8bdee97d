/-
How arithmetic on finite numbers is evaluated. Each operation combines the rationals behind its operands
where both have one, and their stored decimals otherwise; with an approximation there is no rational, and
the combined decimals are cut to the precision.
-/
import Reckon.Proofs.Outcome
import Reckon.Real.Arithmetic

namespace Reckon.Real

/-! ## Finite numbers -/

section

variable {x : Real} {d : Decimal}

theorem isNaN_of_decimal? (h : x.decimal? = some d) : x.isNaN = false := by
  cases x <;> first | rfl | cases h

theorem isInfinite_of_decimal? (h : x.decimal? = some d) : x.isInfinite = false := by
  cases x <;> first | rfl | cases h

theorem decimal_of_decimal? (h : x.decimal? = some d) : x.decimal = .ok d := by
  rw [decimal, h]

theorem isZero_of_decimal? (h : x.decimal? = some d) : x.isZero = d.isZero := by
  rw [isZero, h]
  rfl

/-- What has a rational behind it is finite. -/
theorem isInfinite_of_exactRat? {q : ℚ} (h : x.exactRat? = some q) : x.isInfinite = false := by
  cases x <;> first | rfl | cases h

theorem exactRat?_of_isIrrational (h : x.isIrrational = true) : x.exactRat? = none := by
  cases x <;> first | rfl | cases h

end

/-! ## Operations -/

section

variable {a b : Real} (ha : a.isInfinite = false) (hb : b.isInfinite = false)

include ha hb

theorem add_of_not_infinite : a.add b = combine (· + ·) Decimal.add a b := by
  cases a <;> cases b <;> first | rfl | cases ha; done | cases hb

theorem sub_of_not_infinite : a.sub b = combine (· - ·) Decimal.sub a b := by
  unfold sub
  rw [ha, hb]
  rfl

theorem mul_of_not_infinite : a.mul b = combine (· * ·) Decimal.mul a b := by
  unfold mul
  rw [ha, hb]
  rfl

theorem div_of_not_infinite (hzero : b.isZero = false) :
    a.div b = combine (· / ·) (fun c d => Decimal.truncateRat (c.toRat / d.toRat) precision) a b := by
  unfold div
  rw [hzero]
  cases a <;> cases b <;> first | rfl | cases ha; done | cases hb

theorem mod_of_not_infinite (hzero : b.isZero = false) : a.mod b =
    combine (fun p q => p - q * (truncateToInt (p / q) : ℤ)) (Decimal.remainderWithin Decimal.maxDigits) a b := by
  unfold mod
  rw [hzero]
  cases a <;> cases b <;> first | rfl | cases ha; done | cases hb

end

/-! ## Operands -/

section

variable {a b : Real} (exact : ℚ → ℚ → ℚ) (stored : Decimal → Decimal → Outcome Decimal)

theorem combine_of_exactRat? {p q : ℚ} (ha : a.exactRat? = some p) (hb : b.exactRat? = some q) :
    combine exact stored a b = ofRat (exact p q) := by
  unfold combine
  rw [ha, hb]

theorem combine_of_isIrrational {c d : Decimal} (ha : a.decimal? = some c) (hb : b.decimal? = some d)
    (h : a.isIrrational = true ∨ b.isIrrational = true) : combine exact stored a b = stored c d >>= ofApproximation := by
  unfold combine
  rw [decimal_of_decimal? ha, decimal_of_decimal? hb, Bool.or_eq_true_iff.2 h]
  rcases h with h | h
  · rw [exactRat?_of_isIrrational h]
    rfl
  · rw [exactRat?_of_isIrrational h]
    cases a.exactRat? <;> rfl

end

end Reckon.Real
