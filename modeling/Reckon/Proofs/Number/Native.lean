/-
Native numbers that are asked for in their own format. The range is tested on the shortest decimal, which
may lie above the value by half a unit. Up to the last but one number of a format that stays in the range.
The decimal of the largest double is below it and that of the largest single is above, so this is the one
native number that does not come back.
-/
import Reckon.Number.Conversion
import Reckon.Proofs.Binary.Shortest
import Reckon.Proofs.Binary.Spacing
import Reckon.Proofs.Failure

namespace Reckon

open Outcome

/-! ## The end of a format -/

namespace FiniteBinary

variable {f : Format} {x y : FiniteBinary f}

/-- A number of the greatest magnitude of its format. -/
def IsLast (x : FiniteBinary f) : Prop := x.magnitude + 1 = f.limit

instance (x : FiniteBinary f) : Decidable x.IsLast := inferInstanceAs (Decidable (_ = _))

theorem quantum_le_of_magnitude_le (h : x.magnitude ≤ y.magnitude) : x.quantum ≤ y.quantum := by
  have hdiv := Nat.div_le_div_right (c := f.unit) h
  unfold quantum
  split <;> split <;> omega

theorem significand_largest (f : Format) : (largest f).significand = 2 * f.unit - 1 := by cases f <;> decide

/-- No number exceeds the largest one of its format. -/
theorem absRat_le (x : FiniteBinary f) : x.absRat ≤ (largest f).toRat := by
  have hmagnitude : x.magnitude ≤ (largest f).magnitude := Nat.le_sub_one_of_lt x.magnitude_lt
  have hquantum := quantum_le_of_magnitude_le hmagnitude
  have hsignificand : x.significand ≤ (largest f).significand := by
    rw [significand_largest]
    exact Nat.le_sub_one_of_lt x.significand_lt_unit
  rw [toRat, if_neg (show ¬ (largest f).negative = true from Bool.false_ne_true), absRat_eq, absRat_eq]
  gcongr
  norm_num

/-- Before the last number there is room for one more unit. -/
theorem absRat_add_unit_le (h : ¬ x.IsLast) : x.absRat + 2 ^ x.quantum ≤ (largest f).toRat := by
  have hnext : x.magnitude + 1 < f.limit := lt_of_le_of_ne x.magnitude_lt h
  have hvalue : (⟨false, x.magnitude + 1, hnext⟩ : FiniteBinary f).absRat = (x.significand + 1 : Nat) * 2 ^ x.quantum :=
    absRat_of_magnitude x.minQuantum_le_quantum x.significand_lt_unit (x.quantum_eq_or_unit_le.imp_right Nat.le_succ_of_le)
      (congrArg (· + 1) x.magnitude_eq)
  calc x.absRat + 2 ^ x.quantum = (x.significand + 1 : Nat) * (2 : ℚ) ^ x.quantum := by
        rw [absRat_eq]
        push_cast
        ring
    _ ≤ (largest f).toRat := hvalue ▸ absRat_le _

/-- A number of the greatest magnitude is the largest one or its negative. -/
theorem IsLast.eq (h : x.IsLast) : x = largest f ∨ x = (largest f).neg := by
  obtain ⟨s, m, hm⟩ := x
  obtain rfl : m = f.limit - 1 := Nat.eq_sub_of_add_eq h
  cases s
  · exact .inl rfl
  · exact .inr rfl

theorem abs_toDecimal_neg (x : FiniteBinary f) : |x.neg.toDecimal.toRat| = |x.toDecimal.toRat| := by
  rw [toDecimal_neg, Decimal.toRat_neg, abs_neg]

theorem IsLast.abs_toDecimal (h : x.IsLast) : |x.toDecimal.toRat| = |(largest f).toDecimal.toRat| := by
  rcases h.eq with rfl | rfl
  · rfl
  · exact abs_toDecimal_neg _

/-- The shortest decimal leaves the range only for the largest single. -/
theorem largest_lt_toDecimal_iff (x : FiniteBinary f) :
    (largest f).toRat < |x.toDecimal.toRat| ↔ f = .single ∧ x.IsLast := by
  by_cases hlast : x.IsLast
  · rw [hlast.abs_toDecimal, and_iff_left hlast]
    cases f
    · exact iff_of_true (by decide +kernel) rfl
    · exact iff_of_false (by decide +kernel) nofun
  · refine iff_of_false (not_lt.2 ?_) fun h => hlast h.2
    have hroom := absRat_add_unit_le hlast
    have hnear := abs_sub_abs_le_abs_sub x.toDecimal.toRat x.toRat
    have hunit : (0 : ℚ) < 2 ^ x.quantum := by positivity
    rw [abs_toRat] at hnear
    linarith [x.toDecimal_error]

end FiniteBinary

/-! ## Conversion -/

namespace Format

/-- The short name of a format. -/
def shortName : Format → String
  | single => "f32"
  | double => "f64"

theorem formatNamed_shortName (f : Format) : Number.formatNamed f.shortName = .ok (f, f.shortName) := by
  cases f <;> decide +kernel

end Format

namespace Number

open FiniteBinary

variable {f : Format}

/-- A native number that is asked for in its own format comes back unchanged, all but the largest single
and its negative, which are refused as too large. -/
theorem toNative_small (x : FiniteBinary f) : formatNamed f.shortName = .ok (f, f.shortName) ∧
    (ofReal (.small f x)).toNative f f.shortName =
      if f = .single ∧ x.IsLast then fail (.outsideFormat f.shortName) else .ok (.finite x) := by
  refine ⟨f.formatNamed_shortName, ?_⟩
  show (do
    let q ← (Real.small f x).toRat
    let limit := (largest f).toRat
    if limit < q || q < -limit then fail (.outsideFormat f.shortName)
    else .ok (Binary.convert (.finite x))) = _
  have hrange : (decide ((largest f).toRat < x.toDecimal.toRat) || decide (x.toDecimal.toRat < -(largest f).toRat)) =
      decide (f = .single ∧ x.IsLast) := by
    rw [← Bool.decide_or, decide_eq_decide, ← largest_lt_toDecimal_iff, lt_abs, lt_neg]
  rw [show (Real.small f x).toRat = .ok x.toDecimal.toRat from rfl, ok_bind]
  simp only [hrange, Binary.convert_self, decide_eq_true_iff]

/-- The largest single is refused in its own format. -/
theorem toNative_largest_single : ¬ ∀ (f : Format) (x : FiniteBinary f),
    (ofReal (.small f x)).toNative f f.shortName = .ok (.finite x) := by
  intro hclaim
  have hrefused : (ofReal (.small .single (largest .single))).toNative .single "f32" =
      .error (.numeric (.outsideFormat "f32")) := by decide +kernel
  exact nomatch (hclaim .single (largest .single)).symm.trans hrefused

end Number

end Reckon
