/-
One step of Newton's method in decimal arithmetic, and the iteration. A step stays within a few units
of the last digit of the exact step, and never leaves the numbers that are not negative. A root that
is reported as exact is one, because its power is formed without rounding.
-/
import Reckon.Proofs.Decimal.Significant
import Reckon.Real.Roots

namespace Reckon.Roots

open Reckon.Decimal Reckon.Decimal.Significant

/-! ## One step -/

/-- The exact step towards the `n`-th root of `a`. -/
def exactStep (n : Nat) (a x : ℚ) : ℚ := ((n - 1 : Nat) * x + a / x ^ (n - 1)) / n

theorem exactStep_nonneg (n : Nat) {a x : ℚ} (ha : 0 ≤ a) (hx : 0 ≤ x) : 0 ≤ exactStep n a x := by
  unfold exactStep
  positivity

theorem near_nonneg {ε q r : ℚ} (hq : 0 ≤ q) (hε : ε ≤ 1) (h : Near ε q r) : 0 ≤ r :=
  (mul_nonneg (by linarith) hq).trans ((near_iff hq).1 h).1

/-- The error of a divisor becomes one of the quotient. -/
theorem div_errors {u a X power quotient : ℚ} (hu : 0 < u) (hu' : u ≤ 1 / 100) (ha : 0 ≤ a) (hX : 0 < X)
    (hpower : 0 < power) (hpow : Near u X power) (hquotient : Near u (a / power) quotient) :
    (1 - u) * (a / X) ≤ (1 + u) * quotient ∧ (1 - u) * quotient ≤ (1 + u) * (a / X) := by
  have hlow : 0 < 1 - u := by linarith
  obtain ⟨hpow1, hpow2⟩ := (near_iff hX.le).1 hpow
  obtain ⟨hquotient1, hquotient2⟩ := (near_iff (by positivity)).1 hquotient
  constructor
  · calc (1 - u) * (a / X) ≤ (1 - u) * ((1 + u) * (a / power)) := by
          gcongr
          rw [← mul_div_assoc, div_le_div_iff₀ hX hpower]
          linarith [mul_le_mul_of_nonneg_left hpow2 ha]
      _ = (1 + u) * ((1 - u) * (a / power)) := by ring
      _ ≤ (1 + u) * quotient := by gcongr
  · calc (1 - u) * quotient ≤ (1 - u) * ((1 + u) * (a / power)) := by gcongr
      _ = (1 + u) * ((1 - u) * (a / power)) := by ring
      _ ≤ (1 + u) * (a / X) := by
        gcongr
        rw [← mul_div_assoc, div_le_div_iff₀ hpower hX]
        linarith [mul_le_mul_of_nonneg_left hpow1 ha]

/-- The errors of a sum and of a division come on top of the two errors that the total `S` has. -/
theorem div_near_of_total {u S T n sum y : ℚ} (hu : 0 < u) (hu' : u ≤ 1 / 100) (hn : 0 < n) (hS : 0 ≤ S) (hT : 0 ≤ T)
    (hlow : (1 - u) * T ≤ (1 + u) * S) (hhigh : (1 - u) * S ≤ (1 + u) * T) (hsum : Near u S sum)
    (hnext : Near u (sum / n) y) : Near (5 * u) (T / n) y := by
  have hless : 0 < 1 - u := by linarith
  have hmore : 0 < 1 + u := by linarith
  have hsum0 := near_nonneg hS (by linarith) hsum
  obtain ⟨hsum1, hsum2⟩ := (near_iff hS).1 hsum
  obtain ⟨hnext1, hnext2⟩ := (near_iff (by positivity)).1 hnext
  rw [← mul_div_assoc, div_le_iff₀' hn] at hnext1
  rw [← mul_div_assoc, le_div_iff₀' hn] at hnext2
  refine (near_iff (by positivity)).2 ⟨?_, ?_⟩
  · rw [← mul_div_assoc, div_le_iff₀' hn]
    -- three factors lost, and one gained by moving the error of the total to the other side
    have hfactor : (1 - 5 * u) * (1 + u) ≤ (1 - u) ^ 3 := by
      have := mul_nonneg hu.le (show 0 ≤ 1 + 8 * u - u ^ 2 by nlinarith)
      linarith
    refine le_of_mul_le_mul_left ?_ hmore
    calc (1 + u) * ((1 - 5 * u) * T) = (1 - 5 * u) * (1 + u) * T := by ring
      _ ≤ (1 - u) ^ 3 * T := mul_le_mul_of_nonneg_right hfactor hT
      _ = (1 - u) * ((1 - u) * ((1 - u) * T)) := by ring
      _ ≤ (1 - u) * ((1 - u) * ((1 + u) * S)) := by gcongr
      _ = (1 + u) * ((1 - u) * ((1 - u) * S)) := by ring
      _ ≤ (1 + u) * ((1 - u) * sum) := by gcongr
      _ ≤ (1 + u) * (n * y) := by gcongr
  · rw [← mul_div_assoc, le_div_iff₀' hn]
    have hfactor : (1 + u) ^ 3 ≤ (1 + 5 * u) * (1 - u) := by
      have := mul_nonneg hu.le (show 0 ≤ 1 - 8 * u - u ^ 2 by nlinarith)
      linarith
    refine le_of_mul_le_mul_left ?_ hless
    calc (1 - u) * (n * y) ≤ (1 - u) * ((1 + u) * sum) := by gcongr
      _ ≤ (1 - u) * ((1 + u) * ((1 + u) * S)) := by gcongr
      _ = (1 + u) * ((1 + u) * ((1 - u) * S)) := by ring
      _ ≤ (1 + u) * ((1 + u) * ((1 + u) * T)) := by gcongr
      _ = (1 + u) ^ 3 * T := by ring
      _ ≤ (1 + 5 * u) * (1 - u) * T := mul_le_mul_of_nonneg_right hfactor hT
      _ = (1 - u) * ((1 + 5 * u) * T) := by ring

/-- The errors of the operations add up. -/
theorem near_of_errors {u a A X n power quotient product sum y : ℚ} (hu : 0 < u) (hu' : u ≤ 1 / 100) (ha : 0 ≤ a)
    (hA : 0 ≤ A) (hX : 0 < X) (hn : 0 < n) (hpower : 0 < power) (hpow : Near u X power)
    (hquotient : Near u (a / power) quotient) (hproduct : Near u A product) (hsum : Near u (product + quotient) sum)
    (hnext : Near u (sum / n) y) : Near (5 * u) ((A + a / X) / n) y := by
  have hquotient0 := near_nonneg (by positivity) (by linarith) hquotient
  have hproduct0 := near_nonneg hA (by linarith) hproduct
  obtain ⟨hproduct1, hproduct2⟩ := (near_iff hA).1 hproduct
  obtain ⟨hdiv1, hdiv2⟩ := div_errors hu hu' ha hX hpower hpow hquotient
  refine div_near_of_total hu hu' hn (by positivity) (by positivity) ?_ ?_ hsum hnext
  · have : product ≤ (1 + u) * product := le_mul_of_one_le_left hproduct0 (by linarith)
    linarith
  · have : (1 - u) * product ≤ product := mul_le_of_le_one_left hproduct0 (by linarith)
    linarith

section Step

variable {prec n : Nat} {a x next : Decimal}

theorem newtonStep_eq_ok (h : newtonStep prec n a x = .ok next) : (pow prec x (n - 1)).coefficient ≠ 0 ∧
    next = div prec (add prec (mul prec (.ofInt (n - 1 : Nat)) x) (div prec a (pow prec x (n - 1)))) (.ofInt n) := by
  unfold newtonStep at h
  simp only at h
  split at h
  · cases h
  split at h
  · cases h
  rename_i hvanishes
  split at h
  · cases h
  · refine ⟨fun hzero => hvanishes ?_, (Except.ok.inj h).symm⟩
    rw [vanishes, (isZero_iff _).2 hzero]
    rfl

/-- The errors of the operations in a step: the power, the quotient, the product, the sum and the
division by the index. -/
theorem exists_step_errors (hprec : 1 ≤ prec) (hn : 2 ≤ n) (ha : 0 ≤ a.toRat) (hx : 0 ≤ x.toRat)
    (h : newtonStep prec n a x = .ok next) : 0 < x.toRat ∧ ∃ power quotient product sum : ℚ, 0 < power ∧
      Near (ulp prec) (x.toRat ^ (n - 1)) power ∧ Near (ulp prec) (a.toRat / power) quotient ∧
      Near (ulp prec) ((n - 1 : Nat) * x.toRat) product ∧ Near (ulp prec) (product + quotient) sum ∧
      Near (ulp prec) (sum / n) next.toRat := by
  have hone := ulp_le_one hprec
  obtain ⟨hpower, rfl⟩ := newtonStep_eq_ok h
  have hpow := pow_near hprec hx (show 1 ≤ n - 1 by omega)
  have hpower' : 0 < (pow prec x (n - 1)).toRat :=
    (near_nonneg (by positivity) hone hpow).lt_of_ne fun h0 => hpower ((toRat_eq_zero_iff _).1 h0.symm)
  -- the power of zero would vanish with it
  have hx' : 0 < x.toRat := by
    refine hx.lt_of_ne fun h0 => hpower'.ne' ?_
    rw [← h0, zero_pow (by omega), Near, abs_zero, mul_zero, sub_zero] at hpow
    exact abs_eq_zero.1 (le_antisymm hpow (abs_nonneg _))
  have hquotient := div_near hprec a hpower
  have hquotient0 := near_nonneg (by positivity) hone hquotient
  have hproduct : Near (ulp prec) ((n - 1 : Nat) * x.toRat) (mul prec (.ofInt (n - 1 : Nat)) x).toRat := by
    have := mul_near hprec (.ofInt (n - 1 : Nat)) x
    rw [toRat_ofInt, Int.cast_natCast] at this
    exact this.mono (half_le_self (ulp_pos prec).le)
  have hproduct0 := near_nonneg (by positivity) hone hproduct
  have hsum := add_near hprec hproduct0 hquotient0
  have hindex : (ofInt n).coefficient ≠ 0 := by
    show (n : ℤ).natAbs ≠ 0
    omega
  have hnext := div_near hprec (add prec (mul prec (.ofInt (n - 1 : Nat)) x) (div prec a (pow prec x (n - 1)))) hindex
  rw [toRat_ofInt, Int.cast_natCast] at hnext
  exact ⟨hx', _, _, _, _, hpower', hpow, hquotient, hproduct, hsum, hnext⟩

theorem newtonStep_nonneg (hprec : 1 ≤ prec) (hn : 2 ≤ n) (ha : 0 ≤ a.toRat) (hx : 0 ≤ x.toRat)
    (h : newtonStep prec n a x = .ok next) : 0 ≤ next.toRat := by
  have hone := ulp_le_one hprec
  obtain ⟨-, power, quotient, product, sum, hpower, -, hquotient, hproduct, hsum, hnext⟩ :=
    exists_step_errors hprec hn ha hx h
  have hquotient0 := near_nonneg (by positivity) hone hquotient
  have hproduct0 := near_nonneg (by positivity) hone hproduct
  have hsum0 := near_nonneg (by positivity) hone hsum
  exact near_nonneg (by positivity) hone hnext

/-- A step with enough digits is the exact one up to five units of the last digit. -/
theorem newtonStep_near (hprec : 1 ≤ prec) (hulp : ulp prec ≤ 1 / 100) (hn : 2 ≤ n) (ha : 0 ≤ a.toRat)
    (hx : 0 ≤ x.toRat) (h : newtonStep prec n a x = .ok next) :
    0 < x.toRat ∧ Near (5 * ulp prec) (exactStep n a.toRat x.toRat) next.toRat := by
  obtain ⟨hx', power, quotient, product, sum, hpower, hpow, hquotient, hproduct, hsum, hnext⟩ :=
    exists_step_errors hprec hn ha hx h
  exact ⟨hx', near_of_errors (ulp_pos prec) hulp ha (by positivity) (by positivity)
    (by exact_mod_cast (by omega : 0 < n)) hpower hpow hquotient hproduct hsum hnext⟩

end Step

/-! ## The iteration -/

theorem newton_nonneg {prec n : Nat} {precision : ℤ} {a : Decimal} (hprec : 1 ≤ prec) (hn : 2 ≤ n) (ha : 0 ≤ a.toRat)
    (fuel : Nat) : ∀ {x r : Decimal}, 0 ≤ x.toRat → newton prec n precision a fuel x = .ok r → 0 ≤ r.toRat := by
  induction fuel with
  | zero =>
    intro x r hx h
    rwa [← Except.ok.inj h]
  | succ fuel ih =>
    intro x r hx h
    obtain ⟨next, hnext, h⟩ := Outcome.bind_eq_ok.1 h
    have hnext0 := newtonStep_nonneg hprec hn ha hx hnext
    split at h
    · rwa [← Except.ok.inj h]
    · exact ih hnext0 h

theorem workingPrecision_eq_ok {a : Decimal} {n prec : Nat} {precision : ℤ}
    (h : workingPrecision a n precision = .ok prec) :
    1 ≤ prec ∧ (prec : ℤ) = max (a.adjusted.fdiv n) 0 + precision + guardDigits := by
  unfold workingPrecision at h
  simp only at h
  split at h
  · rename_i hrange
    obtain rfl := Except.ok.inj h
    omega
  · split at h <;> cases h

theorem toRat_nonneg {d : Decimal} (h : d.negative = false) : 0 ≤ d.toRat := by
  rw [toRat_eq_sign, h]
  exact mul_nonneg (by norm_num) (mul_nonneg (Nat.cast_nonneg _) (tenPow_pos _).le)

theorem coefficient_eq_zero_of_negative {d : Decimal} (hneg : d.negative = true) (h : 0 ≤ d.toRat) : d.coefficient = 0 := by
  rw [toRat_eq_sign, hneg, if_pos rfl, neg_one_mul] at h
  by_contra hne
  have : (0 : ℚ) < d.coefficient * tenPow d.exponent :=
    mul_pos (by exact_mod_cast Nat.pos_of_ne_zero hne) (tenPow_pos _)
  linarith

theorem abs_of_not_negative {d : Decimal} (h : d.negative = false) : d.abs = d := by
  obtain ⟨negative, coefficient, exponent⟩ := d
  obtain rfl : negative = false := h
  rfl

theorem toDecimal_negative {f : Format} (x : FiniteBinary f) : x.toDecimal.negative = x.negative := by
  unfold FiniteBinary.toDecimal
  split
  simp only
  split
  · rfl
  · split <;> rfl

theorem initialGuess_nonneg {a x : Decimal} {n : Nat} (h : initialGuess a n = .ok x) : 0 ≤ x.toRat := by
  have hfar : 0 ≤ Decimal.toRat ⟨false, 1, a.adjusted.fdiv n⟩ := toRat_nonneg rfl
  unfold initialGuess at h
  simp only at h
  split at h
  · split at h
    · rwa [← Except.ok.inj h]
    split at h
    · split at h
      · rename_i guess _
        rw [← Except.ok.inj h]
        split
        · exact hfar
        · rename_i hguess
          rw [Bool.or_eq_true, not_or, Bool.not_eq_true, Bool.not_eq_true] at hguess
          exact toRat_nonneg ((toDecimal_negative guess).trans hguess.2)
      · rwa [← Except.ok.inj h]
    · cases h
  · rwa [← Except.ok.inj h]

theorem iterate_nonneg {a x : Decimal} {n : Nat} {precision : ℤ} {iterations : Option ℤ} (hn : 2 ≤ n)
    (ha : 0 ≤ a.toRat) (h : iterate a n precision iterations = .ok x) : 0 ≤ x.toRat := by
  obtain ⟨prec, hprec, h⟩ := Outcome.bind_eq_ok.1 h
  obtain ⟨start, hstart, h⟩ := Outcome.bind_eq_ok.1 h
  exact newton_nonneg (workingPrecision_eq_ok hprec).1 hn ha _ (initialGuess_nonneg hstart) h

end Reckon.Roots
