/-
The shortest decimals of native numbers lie well inside the range of decimals: the search looks at
a few grids around the leading digit, and what it finds there has as many digits as the value and
its grid allow.
-/
import Reckon.Binary.Shortest
import Reckon.Proofs.Digits

namespace Reckon.FiniteBinary

variable {f : Format}

/-! ## Significand and quantum -/

theorem quantum_bounds (x : FiniteBinary f) : -1074 ≤ x.quantum ∧ x.quantum ≤ 971 := by
  have hlt : x.magnitude / f.unit < 2 * f.maxExponent + 1 := Nat.div_lt_of_lt_mul (by
    rw [Nat.mul_comm]
    exact x.magnitude_lt)
  unfold quantum
  cases f
  · simp only [Format.minQuantum, Format.maxExponent, Format.precision] at hlt ⊢
    split <;> omega
  · simp only [Format.minQuantum, Format.maxExponent, Format.precision] at hlt ⊢
    split <;> omega

theorem significand_lt (x : FiniteBinary f) : x.significand < 10 ^ 16 := by
  have hunit : 2 * f.unit ≤ 10 ^ 16 := by cases f <;> decide
  have hpos : 0 < f.unit := by cases f <;> decide
  have := Nat.mod_lt x.magnitude hpos
  unfold significand
  split <;> omega

/-! ## The search -/

theorem nearer_le (x : FiniteBinary f) (c : Nat) (j : Int) : x.nearer c j ≤ c + 1 := by
  unfold nearer
  split
  · exact le_rfl
  · omega
  · split <;> omega

theorem onGrid_le {x : FiniteBinary f} {j : Int} {c : Nat} (h : x.onGrid j = some c) : c ≤ x.gridFloor j + 1 := by
  unfold onGrid at h
  simp only at h
  split at h
  · rw [← Option.some.inj h]
    exact nearer_le x _ j
  · rw [← Option.some.inj h]
    omega
  · rw [← Option.some.inj h]
  · cases h

/-- The search goes down by its fuel at most and returns a neighbour of the value on its grid. -/
theorem searchGrids_spec (x : FiniteBinary f) (fuel : Nat) (j : Int) :
    j - fuel ≤ (x.searchGrids fuel j).2 ∧ (x.searchGrids fuel j).2 ≤ j ∧
      (x.searchGrids fuel j).1 ≤ x.gridFloor (x.searchGrids fuel j).2 + 1 := by
  induction fuel generalizing j with
  | zero =>
    unfold searchGrids
    exact ⟨by simp, le_rfl, Nat.le_succ _⟩
  | succ fuel ih =>
    have hnext := ih (j - 1)
    unfold searchGrids
    split
    · rename_i c hc
      split
      · push_cast
        exact ⟨by omega, by omega, hnext.2.2⟩
      · push_cast
        exact ⟨by omega, le_rfl, onGrid_le hc⟩
    · push_cast
      exact ⟨by omega, by omega, hnext.2.2⟩

theorem gridFloor_lt (x : FiniteBinary f) {j : Int} (hj : -1500 ≤ j) : x.gridFloor j + 1 < 10 ^ 3000 := by
  have hquantum : x.quantum.toNat ≤ 1000 := by have := x.quantum_bounds; omega
  have hgrid : (-j).toNat ≤ 1500 := by omega
  have hlt : x.gridFloor j < 10 ^ (16 + 2500) := calc
    x.gridFloor j ≤ x.significand * 2 ^ x.quantum.toNat * 10 ^ (-j).toNat := Nat.div_le_self _ _
    _ ≤ x.significand * 10 ^ 1000 * 10 ^ 1500 := by gcongr <;> decide
    _ = x.significand * 10 ^ 2500 := by rw [Nat.mul_assoc, ← pow_add]
    _ < 10 ^ 16 * 10 ^ 2500 := Nat.mul_lt_mul_of_pos_right x.significand_lt (by positivity)
    _ = 10 ^ (16 + 2500) := (pow_add _ _ _).symm
  exact lt_of_le_of_lt (Nat.succ_le_of_lt hlt) (Nat.pow_lt_pow_right (by decide) (by decide))

/-! ## The decimal -/

theorem shortest_bounds (x : FiniteBinary f) :
    x.shortest.1 < 10 ^ 3000 ∧ -1500 ≤ x.shortest.2 ∧ x.shortest.2 ≤ 5000 := by
  unfold shortest
  split
  · exact ⟨by positivity, by decide, by decide⟩
  have hq := x.quantum_bounds
  have hlog : x.significand.log2 < 64 := by
    have h2 : x.significand < 2 ^ 64 := lt_trans x.significand_lt (by decide)
    rcases Nat.eq_zero_or_pos x.significand with h0 | hpos
    · rw [h0]
      decide
    · exact (Nat.log2_lt hpos.ne').2 h2
  simp only
  generalize htop : (x.significand.log2 : Int) + x.quantum + 1 = top
  have hj : -1200 ≤ (if 0 ≤ top then (top.toNat * 30103 / 100000 + 1 : Int) else -((-top).toNat * 30102 / 100000 : Int)) ∧
      (if 0 ≤ top then (top.toNat * 30103 / 100000 + 1 : Int) else -((-top).toNat * 30102 / 100000 : Int)) ≤ 1200 := by
    split <;> omega
  generalize (if 0 ≤ top then (top.toNat * 30103 / 100000 + 1 : Int) else -((-top).toNat * 30102 / 100000 : Int)) = j at hj
  obtain ⟨hlow, hhigh, hc⟩ := searchGrids_spec x 22 j
  have hlt := lt_of_le_of_lt hc (gridFloor_lt x (by omega))
  have hwidth := Digits.width_le (by decide) hlt
  have hzeros := (Digits.trailingZeros_spec (Digits.width (x.searchGrids 22 j).1) (x.searchGrids 22 j).1).1
  refine ⟨lt_of_le_of_lt (Nat.div_le_self _ _) hlt, by omega, by omega⟩

/-- The decimal of a native number is in range, with room for further digits. -/
theorem toDecimal_bounds (x : FiniteBinary f) : x.toDecimal.inRange = true ∧ Decimal.minExponent < x.toDecimal.exponent := by
  obtain ⟨hc, hlow, hhigh⟩ := x.shortest_bounds
  have hmin : Decimal.minExponent = -1999999999999999997 := rfl
  have hmax : Decimal.maxExponent = 999999999999999999 := rfl
  have hdecimal : ∀ d : Decimal, d.coefficient < 10 ^ 9000 → -1500 ≤ d.exponent → d.exponent ≤ 5000 →
      d.inRange = true ∧ Decimal.minExponent < d.exponent := by
    intro d hd h1 h2
    have hwidth := Digits.width_le (by decide) hd
    refine ⟨?_, by omega⟩
    unfold Decimal.inRange Decimal.adjusted Decimal.digitCount
    rw [Bool.and_eq_true, decide_eq_true_eq, decide_eq_true_eq]
    omega
  unfold toDecimal
  generalize x.shortest = p at hc hlow hhigh
  obtain ⟨c, k⟩ := p
  simp only at hc hlow hhigh ⊢
  have hpoint : (-1500 : Int) ≤ -1 ∧ (-1 : Int) ≤ 5000 := by decide
  split
  · exact hdecimal ⟨x.negative, 0, -1⟩ (by positivity) hpoint.1 hpoint.2
  split
  · have hlt : c * 10 ^ (k.toNat + 1) < 10 ^ 9000 := calc
      c * 10 ^ (k.toNat + 1) < 10 ^ 3000 * 10 ^ (k.toNat + 1) := Nat.mul_lt_mul_of_pos_right hc (by positivity)
      _ = 10 ^ (3000 + (k.toNat + 1)) := (pow_add _ _ _).symm
      _ ≤ 10 ^ 9000 := Nat.pow_le_pow_right (by decide) (by omega)
    exact hdecimal ⟨x.negative, c * 10 ^ (k.toNat + 1), -1⟩ hlt hpoint.1 hpoint.2
  · exact hdecimal ⟨x.negative, c, k⟩ (lt_trans hc (Nat.pow_lt_pow_right (by decide) (by decide))) hlow hhigh

/-! ## Signs -/

theorem searchGrids_neg (x : FiniteBinary f) (fuel : Nat) (j : Int) :
    x.neg.searchGrids fuel j = x.searchGrids fuel j := by
  induction fuel generalizing j with
  | zero => rfl
  | succ fuel ih =>
    unfold searchGrids
    rw [ih, show x.neg.onGrid j = x.onGrid j from rfl]

theorem toDecimal_neg (x : FiniteBinary f) : x.neg.toDecimal = x.toDecimal.neg := by
  have hshortest : x.neg.shortest = x.shortest := by
    unfold shortest
    simp only [searchGrids_neg]
    rfl
  unfold toDecimal
  rw [hshortest]
  generalize x.shortest = p
  obtain ⟨c, k⟩ := p
  simp only
  split
  · rfl
  have hadjusted : Decimal.adjusted ⟨x.neg.negative, c, k⟩ = Decimal.adjusted ⟨x.negative, c, k⟩ := rfl
  rw [hadjusted]
  split <;> rfl

end Reckon.FiniteBinary
