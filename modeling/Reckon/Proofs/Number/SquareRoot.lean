/-
Signs and square roots. The sign that a number stores is that of its value, whatever its kind, but zero
has two signs. A square root is refused for the stored sign, so it is refused for negative values and, next
to them, for the zero with a minus sign.
-/
import Reckon.Proofs.Notation.Failures
import Reckon.Proofs.Number.Equality
import Reckon.Proofs.Number.Parts
import Reckon.Proofs.Real.Refusal

namespace Reckon

open Outcome

namespace Real

variable {x : Real} {q : ℚ}

/-! ## Stored signs -/

/-- The zero with a minus sign, in any of the finite kinds. -/
def IsNegativeZero (x : Real) : Prop := x.isZero = true ∧ x.isNegative = true

instance (x : Real) : Decidable x.IsNegativeZero := inferInstanceAs (Decidable (_ ∧ _))

/-- A value has the stored sign; digits that come behind the stored ones do not change it. -/
theorem eq_sign_mul_abs (h : x.toRat? = some q) : q = (if x.isNegative then -1 else 1) * |q| := by
  have hstored : ∀ d : Decimal, d.toRat = q → q = (if d.negative then -1 else 1) * |q| := by
    rintro d rfl
    exact d.toRat_eq_sign_mul_abs
  cases x with
  | infinite s => cases h
  | nan => cases h
  | small f b => exact hstored b.toDecimal (Option.some.inj h)
  | big d => exact hstored d (Option.some.inj h)
  | irrational d => exact hstored d (Option.some.inj h)
  | recurring d =>
    unfold toRat? at h
    cases hrat : (recurring d).exactRat? with
    | none =>
      rw [hrat] at h
      exact hstored d (Option.some.inj h)
    | some r =>
      rw [hrat] at h
      obtain rfl := Option.some.inj h
      obtain ⟨t, ht, -, hvalue⟩ := exists_lack_of_recurringRat? hrat
      rw [hvalue, Decimal.abs_sign_mul, abs_of_nonneg (add_nonneg (abs_nonneg _) ht)]
      rfl

theorem isFinite_of_toRat? (h : x.toRat? = some q) : x.isFinite = true := by
  cases x <;> first | rfl | cases h

theorem isNaN_of_toRat? (h : x.toRat? = some q) : x.isNaN = false := ((isFinite_iff x).1 (isFinite_of_toRat? h)).1

theorem isZero_iff_eq_zero (h : x.toRat? = some q) : x.isZero = true ↔ q = 0 := by
  rw [isZero_iff_place? (isNaN_of_toRat? h), place?_of_toRat? h, Option.some_inj, ExtendedRat.finite_inj]

/-- A minus sign is stored with the negative values and with one of the zeros. -/
theorem isNegative_iff (h : x.toRat? = some q) : x.isNegative = true ↔ q < 0 ∨ x.IsNegativeZero := by
  unfold IsNegativeZero
  rw [isZero_iff_eq_zero h]
  by_cases hq : q = 0
  · rw [hq, or_iff_right (lt_irrefl 0), and_iff_right rfl]
  · rw [← Decimal.decide_lt_zero_eq (eq_sign_mul_abs h) (abs_pos.2 hq), decide_eq_true_iff,
      or_iff_left fun hzero => hq hzero.1]

/-! ## Square roots -/

theorem sqrt_of_isNegative (hnan : x.isNaN = false) (h : x.isNegative = true) : x.sqrt = fail .negativeSquareRoot := by
  unfold sqrt
  rw [hnan, h]
  rfl

/-- The root of a number without a minus sign is there, unless a decimal leaves its range. -/
theorem sqrt_range (h : x.toRat? = some q) (hsign : x.isNegative = false) : InRange x.sqrt := by
  obtain ⟨d, hd⟩ := exists_decimal (isFinite_of_toRat? h)
  have hdecimal : InRange x.decimal := hd ▸ .ok d
  have hproject : InRange x.project := by
    unfold project
    split
    · exact .ok _
    · exact .ok _
    · exact .map hdecimal
  have hdigits : InRange x.rootDigits := by
    refine .bind hdecimal fun d _ => .bind hproject fun y _ => ?_
    split
    · exact .ite (fun _ => Decimal.truncate_range _ _) fun _ => Decimal.truncate_range _ _
    · exact Decimal.truncate_range _ _
  unfold sqrt
  rw [isNaN_of_toRat? h, hsign, isInfinite_of_toRat? h]
  exact .bind hdecimal fun d _ => .ite (fun _ => .ok _) fun _ => .bind hdigits fun root _ =>
    .ite (fun _ => .ok _) fun _ => ofApproximation_range _

end Real

namespace Number

open Reckon.Real

variable {x : Real} {q : ℚ}

theorem sqrt_ofReal (h : x.isNaN = false) : sqrt (.ofReal x) = x.sqrt.map .ofReal := by
  show (Scalar.unary Real.sqrt Scalar.sqrtParts (.real x)).map scalar = _
  rw [Scalar.unary_real _ _ h]
  cases x.sqrt <;> rfl

end Number

end Reckon
