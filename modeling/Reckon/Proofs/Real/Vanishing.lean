/-
Which rationals are stored as zero. A terminating rational never is unless it is zero, and neither is one
whose expansion is complete; but an expansion that runs out of digits before the first one that counts leaves
nothing but zeros.
-/
import Reckon.Proofs.Real.Recurring

namespace Reckon.Real

open Reckon.Digits Reckon.Expansion

section

variable {q : ℚ} {whole : Nat} {lead cycle : List Char}

/-- A rational other than zero shows a digit other than zero within its lead and first cycle. -/
theorem tenPow_lt_abs (h : IsExpansion q whole lead cycle) (hq : q ≠ 0) :
    Decimal.tenPow (-((lead.length + cycle.length : Nat) : ℤ)) < |q| := by
  have hc : cycle ≠ [] := List.length_pos_iff.1 h.length_pos
  have hvalue := h.value_eq
  rw [Expansion.value_eq _ _ _ hc] at hvalue
  generalize (whole * 10 ^ lead.length + toNat lead) * (10 ^ cycle.length - 1) + toNat cycle = n at hvalue
  have hn : n ≠ 0 := by
    rintro rfl
    simp only [Nat.cast_zero, zero_div, mul_zero] at hvalue
    exact hq hvalue.symm
  have habs : |q| = (n : ℚ) / ((10 ^ lead.length * (10 ^ cycle.length - 1) : Nat) : ℚ) := by
    rw [← hvalue, abs_mul, show |(if decide (q < 0) then -1 else 1 : ℚ)| = 1 by split <;> simp, one_mul,
      abs_of_nonneg (by positivity)]
  have hden := pow_mul_nines_pos lead.length h.length_pos
  have hless : 10 ^ lead.length * (10 ^ cycle.length - 1) < 10 ^ (lead.length + cycle.length) := by
    rw [pow_add]
    exact Nat.mul_lt_mul_of_pos_left (Nat.sub_lt (by positivity) one_pos) (by positivity)
  rw [habs, Decimal.tenPow_neg_natCast, ← one_div]
  calc 1 / ((10 ^ (lead.length + cycle.length) : Nat) : ℚ)
      < 1 / ((10 ^ lead.length * (10 ^ cycle.length - 1) : Nat) : ℚ) :=
        one_div_lt_one_div_of_lt (by exact_mod_cast hden) (by exact_mod_cast hless)
    _ ≤ n / ((10 ^ lead.length * (10 ^ cycle.length - 1) : Nat) : ℚ) := by
        gcongr
        exact_mod_cast Nat.one_le_iff_ne_zero.2 hn

end

/-- The rational is zero, or its expansion does not terminate and shows only zeros up to the digit budget. -/
def Vanishes (q : ℚ) : Prop := q = 0 ∨ ¬ Terminates q ∧ |q| < Decimal.tenPow (-10000)

theorem lt_tenPow_iff (q : ℚ) (n : Nat) : ⌊|q| * (10 ^ n : Nat)⌋₊ = 0 ↔ |q| < Decimal.tenPow (-(n : ℤ)) := by
  rw [Nat.floor_eq_zero, Decimal.tenPow_neg_natCast, ← one_div, lt_div_iff₀ (by positivity)]

/-- The rationals that are stored as zero. -/
theorem isZero_iff_vanishes {q : ℚ} {x : Real} (h : ofRat q = .ok x) : x.isZero = true ↔ Vanishes q := by
  by_cases hq : Terminates q
  · obtain ⟨places, units, hplaces⟩ := exists_isLeastPlaces hq
    rw [ofRat_of_terminates hplaces] at h
    obtain ⟨d, hd, rfl⟩ := Outcome.map_eq_ok.1 h
    obtain ⟨rfl, -⟩ := Decimal.make_eq_ok_iff.1 hd
    have hvalue := toRat_of_isLeastPlaces hplaces
    rw [Vanishes, or_iff_left fun h => h.1 hq]
    exact (Decimal.isZero_iff _).trans ((Decimal.toRat_eq_zero_iff _).symm.trans (by rw [hvalue]))
  · have hne : q ≠ 0 := fun hzero => hq (hzero ▸ ⟨0, 0, by simp⟩)
    obtain ⟨whole, lead, cycle, hexp⟩ := exists_isExpansion q
    rw [ofRat_of_not_terminates hq, storedDigits_ofNat hexp hq] at h
    obtain rfl := Except.ok.inj h
    rw [Vanishes, or_iff_right hne, and_iff_right hq]
    refine (Decimal.isZero_iff _).trans ((lt_tenPow_iff q _).trans ?_)
    rw [storedPlaces]
    split
    · rename_i hlen
      -- a complete expansion ends with a cycle that is not zero
      have hlow := tenPow_lt_abs hexp hne
      have hmono : ∀ n : Nat, lead.length + cycle.length ≤ n → ¬ |q| < Decimal.tenPow (-(n : ℤ)) := fun n hn hlt => by
        have hle : Decimal.tenPow (-(n : ℤ)) ≤ Decimal.tenPow (-((lead.length + cycle.length : Nat) : ℤ)) :=
          zpow_le_zpow_right₀ (by norm_num) (by omega)
        exact absurd (hlow.trans hlt) (not_lt.2 hle)
      exact iff_of_false (hmono _ (by rw [Cycle.repeats]; omega)) (hmono 10000 hlen)
    · exact Iff.rfl

end Reckon.Real
