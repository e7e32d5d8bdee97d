/-
Sums and products of real numbers commute, in their results and in how they fail, and a difference is the
sum with the negated second operand. If a zero is subtracted and the same zero is added, the two can differ,
but only in the sign of a zero.
-/
import Reckon.Proofs.Binary.Range
import Reckon.Proofs.Real.Refusal

namespace Reckon

open Outcome

/-! ## Decimals -/

namespace Decimal

theorem sum_comm (a b : Decimal) : sum a b = sum b a := by
  have hexponent : min a.exponent b.exponent = min b.exponent a.exponent := min_comm _ _
  have hsum : ∀ e, a.coefficientAt e + b.coefficientAt e = b.coefficientAt e + a.coefficientAt e :=
    fun _ => Int.add_comm _ _
  unfold sum
  simp only [hexponent, hsum, Bool.and_comm a.negative]

protected theorem sub_eq_add_neg (a b : Decimal) : sub a b = add a b.neg := rfl

theorem product_comm (a b : Decimal) : product a b = product b a := by
  unfold product
  rw [bne_comm, Nat.mul_comm, Int.add_comm]

/-- The sign of a zero term shows only in a sum that is zero. -/
theorem sum_signedZero (d : Decimal) (s t : Bool) : sum d (signedZero s) = sum d (signedZero t) ∨
    ∃ u v e, sum d (signedZero s) = ⟨u, 0, e⟩ ∧ sum d (signedZero t) = ⟨v, 0, e⟩ := by
  have hzero : ∀ u e, (signedZero u).coefficientAt e = 0 := fun _ _ => rfl
  unfold sum
  simp only [hzero, Int.add_zero, show ∀ u, (signedZero u).exponent = 0 from fun _ => rfl]
  generalize d.coefficientAt (min d.exponent 0) = n
  by_cases hn : n = 0
  · rw [hn]
    exact .inr ⟨_, _, _, rfl, rfl⟩
  · exact .inl (by simp only [if_neg hn])

theorem fit_zero (e : ℤ) : ∃ e', ∀ s, fit ⟨s, 0, e⟩ = .ok ⟨s, 0, e'⟩ := by
  by_cases h : inRange ⟨false, 0, e⟩ = true
  · exact ⟨e, fun s => if_pos h⟩
  · refine ⟨max minExponent (min maxExponent e), fun s => ?_⟩
    have hrange : ¬ inRange ⟨s, 0, e⟩ = true := h
    unfold fit
    rw [if_neg hrange]
    rfl

theorem truncate_zero (e : ℤ) : ∃ e', ∀ s, truncate ⟨s, 0, e⟩ Real.precision = .ok ⟨s, 0, e'⟩ := by
  unfold truncate
  by_cases h : -Real.precision ≤ e
  · exact ⟨e, fun s => if_pos h⟩
  · refine ⟨-Real.precision, fun s => ?_⟩
    rw [if_neg h, show make false 1 (-Real.precision) = .ok ⟨false, 1, -Real.precision⟩ by decide +kernel, ok_bind, shiftDown_eq,
      Nat.zero_div]

end Decimal

namespace Real

/-! ## The other sign -/

theorem recurringRat?_neg (d : Decimal) : recurringRat? d.neg = (recurringRat? d).map (-·) := by
  unfold recurringRat? Cycle.split
  rw [show d.neg.fractionDigits = d.fractionDigits from rfl, Option.map_map, Option.map_map, Option.map_map]
  congr 1
  funext s
  unfold Function.comp spelledRat Expansion.value Expansion.rational
  cases hsign : d.negative <;> simp [Decimal.neg, hsign, Decimal.integerDigits, Decimal.wholePart, Decimal.isZero]

theorem exactRat?_neg (x : Real) : x.neg.exactRat? = x.exactRat?.map (-·) := by
  cases x with
  | small f x => exact congrArg some (by rw [FiniteBinary.toDecimal_neg, Decimal.toRat_neg])
  | big d => exact congrArg some d.toRat_neg
  | recurring d => exact recurringRat?_neg d
  | _ => rfl

theorem decimal_neg {x : Real} (h : x.isInfinite = false) : x.neg.decimal = x.decimal.map Decimal.neg := by
  cases x with
  | small f x => exact congrArg Except.ok x.toDecimal_neg
  | infinite => cases h
  | _ => rfl

theorem isIrrational_neg (x : Real) : x.neg.isIrrational = x.isIrrational := by cases x <;> rfl

/-! ## Sums and products -/

section

variable {a b : Real}

theorem decimal_of_not_infinite (h : a.isInfinite = false) :
    (∃ d, a.decimal = .ok d) ∨ a.decimal = fail (.noDecimal .nan) := by
  cases a <;> first | exact .inl ⟨_, rfl⟩ | exact .inr rfl | cases h

theorem combine_comm {exact : ℚ → ℚ → ℚ} {stored : Decimal → Decimal → Outcome Decimal}
    (hexact : ∀ p q, exact p q = exact q p) (hstored : ∀ c d, stored c d = stored d c) (ha : a.isInfinite = false)
    (hb : b.isInfinite = false) : combine exact stored a b = combine exact stored b a := by
  have hdecimals : (do ofInexact (← stored (← a.decimal) (← b.decimal)) (a.isIrrational || b.isIrrational)) =
      (do ofInexact (← stored (← b.decimal) (← a.decimal)) (b.isIrrational || a.isIrrational) : Outcome Real) := by
    rw [Bool.or_comm]
    rcases decimal_of_not_infinite ha with ⟨c, hc⟩ | hc <;> rcases decimal_of_not_infinite hb with ⟨d, hd⟩ | hd <;>
      rw [hc, hd]
    · simp only [ok_bind, hstored c d]
    · rfl
    · rfl
  unfold combine
  cases a.exactRat? <;> cases b.exactRat? <;> simp only [hexact, hdecimals]

protected theorem add_comm (a b : Real) : a.add b = b.add a := by
  cases ha : a.isInfinite with
  | true =>
    obtain ⟨s, rfl⟩ : ∃ s, a = infinite s := by cases a <;> first | exact ⟨_, rfl⟩ | cases ha
    cases b with
    | infinite t => cases s <;> cases t <;> rfl
    | _ => rfl
  | false =>
    cases hb : b.isInfinite with
    | true =>
      obtain ⟨t, rfl⟩ : ∃ t, b = infinite t := by cases b <;> first | exact ⟨_, rfl⟩ | cases hb
      cases a <;> first | rfl | cases ha
    | false =>
      rw [add_of_not_infinite ha hb, add_of_not_infinite hb ha]
      refine combine_comm add_comm (fun c d => ?_) ha hb
      rw [Decimal.add, Decimal.add, Decimal.sum_comm]

protected theorem mul_comm (a b : Real) : a.mul b = b.mul a := by
  by_cases h : a.isInfinite = true ∨ b.isInfinite = true
  · rw [mul_of_infinite h, mul_of_infinite h.symm, bne_comm]
  · rw [not_or, Bool.not_eq_true, Bool.not_eq_true] at h
    rw [mul_of_not_infinite h.1 h.2, mul_of_not_infinite h.2 h.1]
    refine combine_comm mul_comm (fun c d => ?_) h.1 h.2
    rw [Decimal.mul, Decimal.mul, Decimal.product_comm]

protected theorem sub_eq_add_neg (a b : Real) : a.sub b = a.add b.neg := by
  by_cases h : a.isInfinite = true ∨ b.isInfinite = true
  · exact sub_of_infinite h
  · rw [not_or, Bool.not_eq_true, Bool.not_eq_true] at h
    rw [sub_of_not_infinite h.1 h.2, add_of_not_infinite h.1 ((isInfinite_neg b).trans h.2)]
    have hdecimals : (do ofInexact (← Decimal.sub (← a.decimal) (← b.decimal)) (a.isIrrational || b.isIrrational)) =
        (do ofInexact (← Decimal.add (← a.decimal) (← b.decimal.map Decimal.neg)) (a.isIrrational || b.isIrrational)) := by
      cases a.decimal <;> cases b.decimal <;>
        simp only [ok_bind, error_bind, Except.map, Decimal.sub_eq_add_neg]
    unfold combine
    rw [exactRat?_neg, decimal_neg h.2, isIrrational_neg]
    cases a.exactRat? with
    | none => exact hdecimals
    | some p =>
      cases b.exactRat? with
      | none => exact hdecimals
      | some q => exact congrArg ofRat (sub_eq_add_neg p q)

end

/-! ## The sign of a zero -/

/-- Equal outcomes, or zeros that differ in their sign. -/
def SameUpToZeroSign (x y : Outcome Real) : Prop :=
  x = y ∨ ∃ a b, x = .ok a ∧ y = .ok b ∧ a.isZero = true ∧ b.isZero = true ∧ a.abs = b.abs

theorem ofInexact_zero (e : ℤ) (isIrrational : Bool) : ∃ z : Bool → Real, ∀ s,
    ofInexact ⟨s, 0, e⟩ isIrrational = .ok (z s) ∧ (z s).isZero = true ∧ (z s).abs = (z false).abs := by
  cases isIrrational with
  | false => exact ⟨fun s => .recurring ⟨s, 0, e⟩, fun s => ⟨rfl, rfl, by cases s <;> rfl⟩⟩
  | true =>
    obtain ⟨e', he⟩ := Decimal.truncate_zero e
    refine ⟨signedZero, fun s => ⟨?_, rfl, by cases s <;> rfl⟩⟩
    rw [ofInexact, if_pos rfl, ofApproximation, he, ok_bind]
    rfl

/-- A zero that is subtracted is a zero that is added, up to the sign of a zero. -/
theorem sub_zero_same (x : Real) : SameUpToZeroSign (x.sub zero) (x.add zero) := by
  cases hx : x.isInfinite with
  | true =>
    obtain ⟨s, rfl⟩ : ∃ s, x = infinite s := by cases x <;> first | exact ⟨_, rfl⟩ | cases hx
    exact .inl rfl
  | false =>
    rw [sub_of_not_infinite hx rfl, add_of_not_infinite hx rfl]
    unfold combine
    rw [show zero.exactRat? = some 0 from rfl, show zero.decimal = .ok .zero from rfl]
    cases x.exactRat? with
    | some p => exact .inl (congrArg ofRat ((sub_zero p).trans (add_zero p).symm))
    | none =>
      cases x.decimal with
      | error e => exact .inl (by rw [error_bind, error_bind])
      | ok d =>
        simp only [ok_bind, Decimal.sub, Decimal.add]
        generalize (x.isIrrational || zero.isIrrational) = i
        rw [show Decimal.zero.neg = .signedZero true from rfl, show Decimal.zero = .signedZero false from rfl]
        rcases d.sum_signedZero true false with hsum | ⟨s, t, e, hs, ht⟩
        · rw [hsum]
          exact .inl rfl
        · obtain ⟨e', he⟩ := Decimal.fit_zero e
          obtain ⟨z, hz⟩ := ofInexact_zero e' i
          refine .inr ⟨z s, z t, ?_, ?_, (hz s).2.1, (hz t).2.1, (hz s).2.2.trans (hz t).2.2.symm⟩
          · rw [hs, he, ok_bind, (hz s).1]
          · rw [ht, he, ok_bind, (hz t).1]

end Real

end Reckon
