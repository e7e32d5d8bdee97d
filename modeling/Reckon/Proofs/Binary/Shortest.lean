/-
The shortest decimal of a native number lies within half a unit of its last significand bit. A hit of
the search lies in the rounding interval; and where all grids are searched in vain, the last of them is
finer than half a unit, so that the neighbour below on it will do.
-/
import Reckon.Proofs.Binary.Range
import Reckon.Proofs.Binary.Rounding

namespace Reckon.FiniteBinary

open Decimal

variable {f : Format}

/-! ## Exact comparisons -/

theorem two_zpow_eq_div (e : ℤ) : (2 : ℚ) ^ e = ((2 ^ e.toNat : Nat) : ℚ) / ((2 ^ (-e).toNat : Nat) : ℚ) := by
  push_cast
  rw [← zpow_natCast, ← zpow_natCast, ← zpow_sub₀ (by norm_num)]
  congr 1
  omega

/-- The products that are compared are both sides over their common denominator. -/
theorem scaled_le_iff (c : Nat) (j : ℤ) (b : Nat) (e : ℤ) :
    c * 10 ^ j.toNat * 2 ^ (-e).toNat ≤ b * 2 ^ e.toNat * 10 ^ (-j).toNat ↔ (c : ℚ) * tenPow j ≤ b * 2 ^ e := by
  rw [tenPow_eq_div, two_zpow_eq_div, mul_div_assoc', mul_div_assoc', div_le_div_iff₀ (by positivity) (by positivity)]
  exact_mod_cast Iff.rfl

theorem le_scaled_iff (c : Nat) (j : ℤ) (b : Nat) (e : ℤ) :
    b * 2 ^ e.toNat * 10 ^ (-j).toNat ≤ c * 10 ^ j.toNat * 2 ^ (-e).toNat ↔ (b : ℚ) * 2 ^ e ≤ c * tenPow j := by
  rw [tenPow_eq_div, two_zpow_eq_div, mul_div_assoc', mul_div_assoc', div_le_div_iff₀ (by positivity) (by positivity)]
  exact_mod_cast Iff.rfl

theorem compareScaled_ne_gt_iff (c : Nat) (j : ℤ) (b : Nat) (e : ℤ) :
    compareScaled c j b e ≠ .gt ↔ (c : ℚ) * tenPow j ≤ b * 2 ^ e := by
  rw [← scaled_le_iff]
  exact Nat.compare_ne_gt

theorem compareScaled_ne_lt_iff (c : Nat) (j : ℤ) (b : Nat) (e : ℤ) :
    compareScaled c j b e ≠ .lt ↔ (b : ℚ) * 2 ^ e ≤ c * tenPow j := by
  rw [← le_scaled_iff]
  exact Nat.compare_ne_lt

/-! ## The search -/

/-- The decimal `c` · 10 ^ `j` is within half a unit of the value. -/
def IsNear (x : FiniteBinary f) (c : Nat) (j : ℤ) : Prop := |c * tenPow j - x.absRat| ≤ 2 ^ x.quantum / 2

theorem isNear_of_roundsFrom {x : FiniteBinary f} {c : Nat} {j : ℤ} (h : x.roundsFrom c j = true) : x.IsNear c j := by
  unfold roundsFrom at h
  simp only [Bool.and_eq_true] at h
  obtain ⟨hlow, hhigh⟩ := h
  have hbelow : compareScaled c j x.interval.1 (x.quantum - 2) ≠ .lt := fun heq => by simp [heq] at hlow
  have habove : compareScaled c j x.interval.2.2 (x.quantum - 2) ≠ .gt := fun heq => by simp [heq] at hhigh
  rw [compareScaled_ne_lt_iff] at hbelow
  rw [compareScaled_ne_gt_iff] at habove
  -- counted in quarters, neither end of the interval is more than half a quantum away
  have hends : (4 * x.significand - 2 : ℚ) ≤ x.interval.1 ∧ (x.interval.2.2 : ℚ) = 4 * x.significand + 2 := by
    have hnat : 4 * x.significand ≤ x.interval.1 + 2 := by
      unfold interval
      simp only
      split <;> omega
    have hrat : (4 * x.significand : ℚ) ≤ x.interval.1 + 2 := by exact_mod_cast hnat
    refine ⟨by linarith, ?_⟩
    unfold interval
    push_cast
    rfl
  have hquarter : (2 : ℚ) ^ (x.quantum - 2) = 2 ^ x.quantum / 4 := by
    rw [zpow_sub₀ (by norm_num)]
    norm_num
  have hpos : (0 : ℚ) < 2 ^ x.quantum := by positivity
  rw [hquarter] at hbelow habove
  rw [hends.2] at habove
  have hlowest := mul_le_mul_of_nonneg_right hends.1 (by positivity : (0 : ℚ) ≤ 2 ^ x.quantum / 4)
  rw [IsNear, absRat_eq, abs_le]
  constructor <;> linarith

theorem roundsFrom_of_onGrid {x : FiniteBinary f} {j : ℤ} {c : Nat} (h : x.onGrid j = some c) :
    x.roundsFrom c j = true := by
  unfold onGrid at h
  simp only at h
  split at h
  · rename_i hfloor hnext
    have hnearer : x.nearer (x.gridFloor j) j = x.gridFloor j ∨ x.nearer (x.gridFloor j) j = x.gridFloor j + 1 := by
      unfold nearer
      split
      · exact .inr rfl
      · exact .inl rfl
      · split
        · exact .inl rfl
        · exact .inr rfl
    rw [← Option.some.inj h]
    rcases hnearer with heq | heq
    · rwa [heq]
    · rwa [heq]
  · rename_i hfloor hnext
    rwa [← Option.some.inj h]
  · rename_i hfloor hnext
    rwa [← Option.some.inj h]
  · cases h

theorem gridFloor_eq (x : FiniteBinary f) (j : ℤ) : x.gridFloor j = ⌊x.absRat / tenPow j⌋₊ := by
  rw [gridFloor, ← Nat.floor_div_eq_div (K := ℚ), absRat_eq, tenPow_eq_div, two_zpow_eq_div]
  congr 1
  push_cast
  field_simp

theorem gridFloor_spec (x : FiniteBinary f) (j : ℤ) :
    x.gridFloor j * tenPow j ≤ x.absRat ∧ x.absRat < (x.gridFloor j + 1) * tenPow j := by
  rw [gridFloor_eq]
  exact ⟨(le_div_iff₀ (tenPow_pos j)).1 (Nat.floor_le (div_nonneg x.absRat_nonneg (tenPow_pos j).le)),
    (div_lt_iff₀ (tenPow_pos j)).1 (Nat.lt_floor_add_one _)⟩

/-- A search that may reach a grid finer than half a unit ends near the value. -/
theorem isNear_searchGrids (x : FiniteBinary f) {fuel : Nat} {j : ℤ} (h : tenPow (j - fuel) ≤ 2 ^ x.quantum / 2) :
    x.IsNear (x.searchGrids fuel j).1 (x.searchGrids fuel j).2 := by
  induction fuel generalizing j with
  | zero =>
    obtain ⟨hlow, hhigh⟩ := x.gridFloor_spec j
    rw [Nat.cast_zero, sub_zero] at h
    unfold searchGrids IsNear
    rw [abs_le]
    constructor <;> linarith [tenPow_pos j]
  | succ fuel ih =>
    have hnext := ih (j := j - 1) (by rwa [sub_sub, add_comm, ← Nat.cast_succ])
    unfold searchGrids
    split
    · rename_i c hc
      split
      · exact hnext
      · exact isNear_of_roundsFrom (roundsFrom_of_onGrid hc)
    · exact hnext

/-! ## The decimal -/

theorem scaled_div_pow {c k : Nat} (h : 10 ^ k ∣ c) (i : ℤ) : ((c / 10 ^ k : Nat) : ℚ) * tenPow (i + k) = c * tenPow i := by
  obtain ⟨m, rfl⟩ := h
  rw [Nat.mul_div_cancel_left m (by positivity), tenPow_add, tenPow_natCast]
  push_cast
  ring

theorem log2_significand_le (x : FiniteBinary f) : x.significand.log2 ≤ 52 := by
  have hlt : x.significand < 2 ^ 53 := lt_of_lt_of_le x.significand_lt_unit (by cases f <;> decide)
  rcases Nat.eq_zero_or_pos x.significand with h | h
  · rw [h]
    decide
  · exact Nat.lt_succ_iff.1 ((Nat.log2_lt h.ne').2 hlt)

theorem isNear_shortest (x : FiniteBinary f) : x.IsNear x.shortest.1 x.shortest.2 := by
  unfold shortest
  split
  · rename_i hzero
    have hmagnitude : x.magnitude = 0 := beq_iff_eq.1 hzero
    have hsignificand : x.significand = 0 := by
      unfold significand
      rw [hmagnitude, if_pos (unit_pos f)]
    rw [IsNear, absRat_eq, hsignificand, Nat.cast_zero, zero_mul, zero_mul, sub_zero, abs_zero]
    positivity
  simp only
  have hlog := x.log2_significand_le
  have hquantum := x.quantum_bounds
  generalize htop : (x.significand.log2 : ℤ) + x.quantum + 1 = top
  generalize hj : (if 0 ≤ top then (top.toNat * 30103 / 100000 + 1 : ℤ)
    else -((-top).toNat * 30102 / 100000 : ℤ)) = j
  -- a significand has sixteen digits at most, so the last of twenty-two grids is finer than half a unit
  have hhalf : tenPow (j - (22 : Nat)) ≤ 2 ^ x.quantum / 2 := by
    rw [div_eq_mul_inv, ← zpow_sub_one₀ (by norm_num)]
    split at hj
    · exact tenPow_le_two_zpow (by omega) (by omega)
    · exact tenPow_le_two_zpow (by omega) (by omega)
  have hnear := x.isNear_searchGrids hhalf
  generalize x.searchGrids 22 j = p at hnear
  obtain ⟨c, i⟩ := p
  rwa [IsNear, scaled_div_pow (Digits.trailingZeros_spec (Digits.width c) c).2.1]

/-- How many digits are written makes no difference to the value. -/
theorem toRat_toDecimal (x : FiniteBinary f) :
    x.toDecimal.toRat = (if x.negative then -1 else 1) * (x.shortest.1 * tenPow x.shortest.2) := by
  unfold toDecimal
  generalize x.shortest = p
  obtain ⟨c, k⟩ := p
  simp only
  split
  · rename_i hzero
    rw [toRat_eq_sign, hzero]
    simp
  split
  · rename_i hpoint
    have hk : 0 ≤ k := of_decide_eq_true (Bool.and_eq_true_iff.1 hpoint).2
    rw [toRat_eq_sign]
    simp only
    rw [Nat.cast_mul, ← tenPow_natCast, mul_assoc, ← tenPow_add, show ((k.toNat + 1 : Nat) : ℤ) + -1 = k by omega]
  · rw [toRat_eq_sign]

/-- The shortest decimal is within half a unit of the value. -/
theorem toDecimal_error (x : FiniteBinary f) : |x.toDecimal.toRat - x.toRat| ≤ 2 ^ x.quantum / 2 := by
  have hnear : |x.shortest.1 * tenPow x.shortest.2 - x.absRat| ≤ 2 ^ x.quantum / 2 := x.isNear_shortest
  rw [toRat_toDecimal, toRat]
  split
  · rwa [neg_one_mul, neg_sub_neg, abs_sub_comm]
  · rwa [one_mul]

end Reckon.FiniteBinary
