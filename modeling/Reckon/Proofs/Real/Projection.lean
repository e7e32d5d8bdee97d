/-
How near the double of a real number is to the rational that the number stands for. A native number is
converted as it is and any other one by its stored decimal, and both are rounded correctly. But the
number is compared as another rational: a native one as its shortest decimal, and a repeating one as the
rational that its digits only begin. The first is harmless in the 64-bit format and the second where
enough digits are stored.
-/
import Reckon.Number.Conversion
import Reckon.Proofs.Binary.Shortest
import Reckon.Proofs.Binary.Spacing
import Reckon.Proofs.Failure
import Reckon.Proofs.Real.Recurring
import Reckon.Real.Functions

namespace Reckon.Real

open Binary (ulp)
open Roots (nearest)
open Outcome

/-! ## What is rounded -/

/-- The value that is rounded to a double: a native number itself, else the stored decimal. -/
def rounded? : Real → Option ℚ
  | small _ b => some b.toRat
  | x => x.decimal?.map Decimal.toRat

/-- The projection is the double nearest to what is rounded, with the sign of a zero. -/
theorem exists_project_eq {x : Real} {q : ℚ} (hx : x.toRat? = some q) :
    ∃ v s, x.rounded? = some v ∧ x.project = .ok (Binary.ofRat v s) := by
  cases x with
  | small f b => exact ⟨_, b.negative, rfl, rfl⟩
  | big d => exact ⟨_, d.negative, rfl, congrArg Except.ok (Binary.ofDecimal_eq_ofRat d)⟩
  | irrational d => exact ⟨_, d.negative, rfl, congrArg Except.ok (Binary.ofDecimal_eq_ofRat d)⟩
  | recurring d => exact ⟨_, d.negative, rfl, congrArg Except.ok (Binary.ofDecimal_eq_ofRat d)⟩
  | infinite s => cases hx
  | nan => cases hx

/-- Up to the largest double a conversion to doubles is the projection. -/
theorem toDouble_eq_project {x : Real} {q : ℚ} (hx : x.toRat? = some q) (hq : |q| ≤ (FiniteBinary.largest .double).toRat)
    {y : FiniteBinary .double} (hy : x.project = .ok (.finite y)) : (Number.ofReal x).toDouble = .ok (.finite y) := by
  obtain ⟨hlow, hhigh⟩ := abs_le.1 hq
  have hrange : ∀ body : Outcome Double, (do
      let q ← x.toRat
      let limit := (FiniteBinary.largest .double).toRat
      if limit < q || q < -limit then fail (.outsideFormat "f64") else body) = body := by
    intro body
    rw [toRat_eq_ok_iff.2 hx]
    refine (ok_bind _ _).trans (if_neg ?_)
    rw [decide_eq_false (not_lt.2 hhigh), decide_eq_false (not_lt.2 hlow)]
    exact Bool.false_ne_true
  have hdecimal : ∀ d : Decimal, (.ok (Binary.ofDecimal d) : Outcome Double) = .ok (.finite y) →
      (.ok (Binary.convert (Binary.ofDecimal d : Double)) : Outcome Double) = .ok (.finite y) := by
    intro d hd
    rw [Except.ok.inj hd, Binary.convert_self]
  cases x with
  | small f b => exact (hrange _).trans hy
  | big d => exact (hrange _).trans (hdecimal d hy)
  | irrational d => exact (hrange _).trans (hdecimal d hy)
  | recurring d => exact (hrange _).trans (hdecimal d hy)
  | infinite s => cases hx
  | nan => cases hx

/-! ## How near it is to the value -/

/-- The stored digits of a repeating value are no more than what it stands for. -/
theorem abs_toRat_le_of_recurring {d : Decimal} {q : ℚ} (hx : (recurring d).toRat? = some q) : |d.toRat| ≤ |q| := by
  cases hb : recurringRat? d with
  | some r =>
    obtain rfl := Option.some.inj ((toRat?_of_exactRat? (x := recurring d) hb).symm.trans hx)
    exact abs_toRat_le_abs hb
  | none =>
    obtain rfl := Option.some.inj ((toRat?_of_no_cycle hb).symm.trans hx)
    exact le_rfl

/-- What is rounded is no more than the value, or it is a native number. -/
theorem abs_rounded_le {x : Real} {q v : ℚ} (hx : x.toRat? = some q) (hv : x.rounded? = some v) :
    |v| ≤ |q| ∨ ∃ f, ∃ b : FiniteBinary f, x = small f b ∧ v = b.toRat := by
  cases x with
  | small f b => exact .inr ⟨f, b, rfl, (Option.some.inj hv).symm⟩
  | big d =>
    obtain rfl := Option.some.inj (hv.symm.trans hx)
    exact .inl le_rfl
  | irrational d =>
    obtain rfl := Option.some.inj (hv.symm.trans hx)
    exact .inl le_rfl
  | recurring d =>
    obtain rfl := Option.some.inj hv
    exact .inl (abs_toRat_le_of_recurring hx)
  | infinite s => cases hx
  | nan => cases hx

/-- Half a unit of a native double is no more than the spacing around its shortest decimal, which may lie
in the binade below. -/
theorem half_unit_le_ulp (b : FiniteBinary .double) (h : (2 : ℚ) ^ (-1022 : ℤ) ≤ |b.toDecimal.toRat|) :
    2 ^ b.quantum / 2 ≤ ulp b.toDecimal.toRat := by
  rcases b.quantum_eq_or_unit_le with hmin | hfull
  · have htiny := Binary.tiny_le_ulp h
    have hpos : (0 : ℚ) < 2 ^ (-1074 : ℤ) := by positivity
    rw [hmin, show Format.minQuantum .double = -1074 from rfl]
    linarith
  have hpos : (0 : ℚ) < 2 ^ b.quantum := by positivity
  have hunit : (2 : ℚ) ^ 52 * 2 ^ b.quantum ≤ |b.toRat| := by
    rw [b.abs_toRat, b.absRat_eq]
    gcongr
    exact_mod_cast hfull
  have hnear := abs_sub_abs_le_abs_sub b.toRat b.toDecimal.toRat
  rw [abs_sub_comm] at hnear
  have hlow : (2 : ℚ) ^ (51 + b.quantum) ≤ |b.toDecimal.toRat| := by
    rw [zpow_add₀ (by norm_num), show (2 : ℚ) ^ (51 : ℤ) = 2 ^ 52 / 2 by norm_num]
    linarith [b.toDecimal_error]
  have hlog := (Binary.le_log (lt_of_lt_of_le (by positivity) h)).2 hlow
  rw [div_eq_mul_inv, ← zpow_sub_one₀ (by norm_num)]
  exact zpow_le_zpow_right₀ (by norm_num) (by omega)

/-- The kinds whose double may be more than a unit away, with the condition that it is not: a 32-bit number
and a repeating value with a visible cycle. -/
def ProjectsWithin (q : ℚ) : Real → Prop
  | small .single b => |b.toRat - q| ≤ ulp q
  | recurring d => recurringRat? d ≠ none → |nearest d.toRat - q| ≤ ulp q
  | _ => True

/-- Enough stored digits of a repeating value are near enough to it. -/
theorem projectsWithin_of_digits {d : Decimal} {q : ℚ} (hb : recurringRat? d = some q)
    (hlow : (2 : ℚ) ^ (-1022 : ℤ) ≤ |q|) (hd : 2 * Decimal.tenPow d.exponent ≤ ulp q) :
    (recurring d).ProjectsWithin q := by
  intro _
  have hround := Binary.abs_nearest_sub_le (abs_toRat_le_abs hb) hlow
  have hlack := abs_sub_toRat_le hb
  rw [abs_sub_comm] at hlack
  calc |nearest d.toRat - q| ≤ |nearest d.toRat - d.toRat| + |d.toRat - q| := abs_sub_le _ _ _
    _ ≤ ulp q := by linarith

/-- A conversion to doubles and the projection return one and the same finite double for a number that
stands for a rational in the normal range. It is the double nearest to what is rounded, and it is within
a unit in the last place of the rational exactly if a 32-bit number or the digits of a repeating value
are near enough to it. -/
theorem project_within_ulp_iff {x : Real} {q : ℚ} (hx : x.toRat? = some q) (hlow : (2 : ℚ) ^ (-1022 : ℤ) ≤ |q|)
    (hhigh : |q| ≤ (FiniteBinary.largest .double).toRat) :
    ∃ (y : FiniteBinary .double) (v : ℚ), x.project = .ok (.finite y) ∧ (Number.ofReal x).toDouble = .ok (.finite y) ∧
      x.rounded? = some v ∧ y.toRat = nearest v ∧ |y.toRat - v| ≤ ulp q / 2 ∧
      (|y.toRat - q| ≤ ulp q ↔ x.ProjectsWithin q) := by
  obtain ⟨v, s, hv, hproject⟩ := exists_project_eq hx
  have hulp := Binary.ulp_pos q
  have hrange : |v| ≤ (FiniteBinary.largest .double).toRat := by
    rcases abs_rounded_le hx hv with hle | ⟨f, b, -, rfl⟩
    · exact hle.trans hhigh
    · exact b.abs_toRat ▸ b.absRat_le_largest
  have hhalf : |nearest v - v| ≤ ulp q / 2 := by
    rcases abs_rounded_le hx hv with hle | ⟨f, b, -, rfl⟩
    · exact Binary.abs_nearest_sub_le hle hlow
    · rw [Binary.nearest_toRat, sub_self, abs_zero]
      exact (half_pos hulp).le
  obtain ⟨y, hy, -, hnearest⟩ := Binary.ofRat_of_le hrange s
  rw [hy] at hproject
  refine ⟨y, v, hproject, toDouble_eq_project hx hhigh hproject, hv, hnearest, hnearest ▸ hhalf, ?_⟩
  rw [hnearest]
  -- an exact decimal is rounded as the value itself; a double is exact, but stands for its shortest decimal
  have hexact : v = q → |nearest v - q| ≤ ulp q := by
    rintro rfl
    linarith
  cases x with
  | small f b =>
    obtain rfl := Option.some.inj hv
    obtain rfl := Option.some.inj hx
    rw [Binary.nearest_toRat]
    cases f with
    | single => exact Iff.rfl
    | double =>
      refine iff_of_true ?_ trivial
      rw [abs_sub_comm]
      exact b.toDecimal_error.trans (half_unit_le_ulp b hlow)
  | big d => exact iff_of_true (hexact (Option.some.inj (hv.symm.trans hx))) trivial
  | irrational d => exact iff_of_true (hexact (Option.some.inj (hv.symm.trans hx))) trivial
  | recurring d =>
    obtain rfl := Option.some.inj hv
    refine ⟨fun h _ => h, fun h => ?_⟩
    by_cases hb : recurringRat? d = none
    · exact hexact (Option.some.inj ((toRat?_of_no_cycle hb).symm.trans hx))
    · exact h hb
  | infinite s => cases hx
  | nan => cases hx

/-- A seventh is stored with twenty-four digits, which is enough. -/
theorem project_seventh_within_ulp :
    (recurring ⟨false, 142857142857142857142857, -24⟩).toRat? = some (1 / 7) ∧
      (2 : ℚ) ^ (-1022 : ℤ) ≤ |1 / 7| ∧ |1 / 7| ≤ (FiniteBinary.largest .double).toRat ∧
      ∃ y : FiniteBinary .double, (recurring ⟨false, 142857142857142857142857, -24⟩).project = .ok (.finite y) ∧
        (Number.ofReal (recurring ⟨false, 142857142857142857142857, -24⟩)).toDouble = .ok (.finite y) ∧
        |y.toRat - 1 / 7| ≤ ulp (1 / 7) := by
  have hb : recurringRat? ⟨false, 142857142857142857142857, -24⟩ = some (1 / 7) := by decide +kernel
  have hx : (recurring ⟨false, 142857142857142857142857, -24⟩).toRat? = some (1 / 7) := toRat?_of_exactRat? hb
  have hlow : (2 : ℚ) ^ (-1022 : ℤ) ≤ |1 / 7| := by decide +kernel
  have hhigh : |1 / 7| ≤ (FiniteBinary.largest .double).toRat := by decide +kernel
  have hulp : ulp (1 / 7) = 2 ^ (-3 - 52 : ℤ) := Binary.ulp_eq (by norm_num) (by norm_num)
  obtain ⟨y, v, hproject, hdouble, -, -, -, hiff⟩ := project_within_ulp_iff hx hlow hhigh
  refine ⟨hx, hlow, hhigh, y, hproject, hdouble, hiff.2 (projectsWithin_of_digits hb hlow ?_)⟩
  rw [hulp, Decimal.tenPow]
  norm_num

/-- A third is stored with four digits, so its double is that of 0.3333. A 32-bit tenth stands for a tenth,
but its double is not next to it. -/
theorem project_misses_third_and_tenth :
    (ofRat (1 / 3) = .ok (recurring ⟨false, 3333, -4⟩) ∧ (recurring ⟨false, 3333, -4⟩).toRat? = some (1 / 3) ∧
      (2 : ℚ) ^ (-1022 : ℤ) ≤ |1 / 3| ∧ |1 / 3| ≤ (FiniteBinary.largest .double).toRat ∧
      ∃ y : FiniteBinary .double, (recurring ⟨false, 3333, -4⟩).project = .ok (.finite y) ∧
        (Number.ofReal (recurring ⟨false, 3333, -4⟩)).toDouble = .ok (.finite y) ∧
        ¬ |y.toRat - 1 / 3| ≤ ulp (1 / 3)) ∧
      (small .single ⟨false, 0x3dcccccd, by decide⟩).toRat? = some (1 / 10) ∧
      (2 : ℚ) ^ (-1022 : ℤ) ≤ |1 / 10| ∧ |1 / 10| ≤ (FiniteBinary.largest .double).toRat ∧
      ∃ y : FiniteBinary .double, (small .single ⟨false, 0x3dcccccd, by decide⟩).project = .ok (.finite y) ∧
        (Number.ofReal (small .single ⟨false, 0x3dcccccd, by decide⟩)).toDouble = .ok (.finite y) ∧
        ¬ |y.toRat - 1 / 10| ≤ ulp (1 / 10) := by
  have hthird : ulp (1 / 3) = 2 ^ (-2 - 52 : ℤ) := Binary.ulp_eq (by norm_num) (by norm_num)
  have htenth : ulp (1 / 10) = 2 ^ (-4 - 52 : ℤ) := Binary.ulp_eq (by norm_num) (by norm_num)
  refine ⟨⟨by decide +kernel, by decide +kernel, by decide +kernel, by decide +kernel,
    ⟨false, 0x3fd554c985f06f69, by decide⟩, by decide +kernel, by decide +kernel, ?_⟩, by decide +kernel,
    by decide +kernel, by decide +kernel, ⟨false, 0x3fb99999a0000000, by decide⟩, by decide +kernel, by decide +kernel,
    ?_⟩
  · rw [hthird]
    decide +kernel
  · rw [htenth]
    decide +kernel

end Reckon.Real
