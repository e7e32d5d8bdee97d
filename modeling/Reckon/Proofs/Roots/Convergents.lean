/-
The convergents of a 64-bit number. The loop works in 64-bit arithmetic, where each remaining fraction
is zero or a multiple of a unit of the number before it, so its inverse never overflows and the search
always ends with an answer; a convergent that is accepted is close to the number.
-/
import Reckon.Proofs.Binary.Spacing

namespace Reckon

/-! ## Fractions -/

namespace Roots

open Binary

/-- The part behind the point of a multiple of a unit is zero or at least the unit. -/
theorem fract_eq_zero_or_le {y : ℚ} {n : ℤ} {k : Nat} (hy : y = n * (2 : ℚ) ^ (-(k : ℤ))) :
    Int.fract y = 0 ∨ (2 : ℚ) ^ (-(k : ℤ)) ≤ Int.fract y := by
  have hpow : (0 : ℚ) < 2 ^ (-(k : ℤ)) := by positivity
  have hunits : Int.fract y = ((n - ⌊y⌋ * 2 ^ k : ℤ) : ℚ) * 2 ^ (-(k : ℤ)) := by
    unfold Int.fract
    push_cast
    rw [sub_mul, ← hy, mul_assoc, ← zpow_natCast, ← zpow_add₀ (by norm_num)]
    simp
  have hnonneg := Int.fract_nonneg y
  rw [hunits] at hnonneg ⊢
  generalize n - ⌊y⌋ * 2 ^ k = m at hnonneg ⊢
  have hm : 0 ≤ m := by exact_mod_cast nonneg_of_mul_nonneg_left hnonneg hpow
  rcases hm.eq_or_lt with rfl | hpos
  · simp
  · right
    exact le_mul_of_one_le_left hpow.le (by exact_mod_cast hpos)

/-- What can remain of a number behind the point: nothing, or at least the unit of the numbers
between a half and one. -/
def IsFraction (y : ℚ) : Prop := y = 0 ∨ (2 : ℚ) ^ (-53 : ℤ) ≤ y ∧ y ≤ 1

theorem isFraction_nearest {y : ℚ} (h : IsFraction y) : IsFraction (nearest y) := by
  rcases h with rfl | ⟨hlow, hhigh⟩
  · exact .inl nearest_zero
  · refine .inr ⟨two_zpow_le_nearest (by norm_num) hlow, ?_⟩
    have hone := nearest_le_two_zpow (b := 0) (by norm_num) (le_trans (by positivity) hlow) (by simpa using hhigh)
    simpa using hone

/-- The fraction of a number from a half on, whatever its sign. -/
theorem isFraction_fract {x : FiniteBinary .double} (h : (2 : ℚ) ^ (-1 : ℤ) ≤ x.absRat) :
    IsFraction (Int.fract x.toRat) := by
  obtain ⟨n, hn⟩ := FiniteBinary.exists_units_of_le h
  have hunits : x.toRat = ((if x.negative then -n else n : ℤ) : ℚ) * (2 : ℚ) ^ (-((53 : Nat) : ℤ)) := by
    unfold FiniteBinary.toRat
    rw [hn]
    split <;> push_cast <;> norm_num
  rcases fract_eq_zero_or_le hunits with hzero | hlow
  · exact .inl hzero
  · exact .inr ⟨hlow, (Int.fract_lt_one _).le⟩

/-! ## The tolerance -/

/-- The rational that the tolerance is. -/
def tolerance : ℚ := FiniteBinary.toRat (⟨false, 0x3CD203AF9EE75616, by decide⟩ : FiniteBinary .double)

theorem tolerance_bounds :
    (2 : ℚ) ^ (-50 : ℤ) ≤ tolerance ∧ tolerance ≤ 1001 / 10 ^ 18 ∧ tolerance ≤ (2 : ℚ) ^ (-49 : ℤ) := by
  decide +kernel

/-- The distance that is allowed, in 64-bit arithmetic. -/
def allowance (x : ℚ) : ℚ := nearest (tolerance * max 1 |x|)

theorem withinTolerance_iff {x : ℚ} (hx : |x| ≤ 2 ^ (1024 : ℤ)) (distance : ℚ) :
    withinTolerance convergentTolerance x distance = true ↔ distance ≤ allowance x := by
  have htol : convergentTolerance = .finite ⟨false, 0x3CD203AF9EE75616, by decide⟩ := by decide +kernel
  have hsize : (if |x| < 1 then 1 else |x|) = max 1 |x| := by
    split
    · rename_i h
      rw [max_eq_left h.le]
    · rename_i h
      rw [max_eq_right (not_lt.1 h)]
  have hsmall : abs (tolerance * max 1 |x|) ≤ (FiniteBinary.largest .double).toRat := by
    have hpos : 0 ≤ tolerance := le_trans (by positivity) tolerance_bounds.1
    rw [abs_of_nonneg (mul_nonneg hpos (le_max_of_le_left zero_le_one))]
    calc tolerance * max 1 |x| ≤ 2 ^ (-49 : ℤ) * 2 ^ (1024 : ℤ) := by
          gcongr
          · exact tolerance_bounds.2.2
          · exact max_le (one_le_zpow₀ (by norm_num) (by norm_num)) hx
      _ = 2 ^ (975 : ℤ) := by rw [← zpow_add₀ (by norm_num)]; norm_num
      _ ≤ (FiniteBinary.largest .double).toRat := FiniteBinary.two_zpow_le_largest (by norm_num)
  obtain ⟨bound, hbound⟩ := exists_ofRat_finite hsmall
  unfold withinTolerance
  rw [htol]
  simp only [Decimal.ite_neg_eq_abs, hsize]
  rw [show FiniteBinary.toRat (⟨false, 0x3CD203AF9EE75616, by decide⟩ : FiniteBinary .double) = tolerance from rfl, hbound]
  simp only [decide_eq_true_eq]
  rw [allowance, nearest_of_finite hbound]

/-! ## The search -/

/-- The convergent `h / k` is accepted for `x`. -/
def Accepts (x : ℚ) (h k : ℤ) : Prop := |nearest (x - nearest (Rat.divInt h k))| ≤ allowance x

/-- An answer of the search: nothing, or an accepted convergent with a small denominator. -/
def IsAnswer (x : ℚ) (r : Option (ℤ × ℤ)) : Prop :=
  ∀ h k, r = some (h, k) → 1 ≤ k ∧ k ≤ maxDenominator ∧ Accepts x h k

theorem isAnswer_none (x : ℚ) : IsAnswer x none := nofun

theorem convergent_of_accepts {x : ℚ} (hx : |x| ≤ 2 ^ (1024 : ℤ)) {fuel : Nat} {h' h k' k : ℤ} {fraction : ℚ}
    (haccept : Accepts x h k) :
    convergent convergentTolerance maxDenominator x (fuel + 1) h' h k' k fraction = .ok (some (h, k)) := by
  rw [convergent]
  simp only [Decimal.ite_neg_eq_abs]
  exact if_pos ((withinTolerance_iff hx _).2 haccept)

/-- One turn of the loop: it accepts, ends, or goes on with the inverse of what remains. -/
theorem convergent_succ {x : ℚ} (hx : |x| ≤ 2 ^ (1024 : ℤ)) (fuel : Nat) (h' h k' k : ℤ) {fraction : ℚ}
    (hf : IsFraction fraction) :
    Accepts x h k ∧ convergent convergentTolerance maxDenominator x (fuel + 1) h' h k' k fraction = .ok (some (h, k)) ∨
    convergent convergentTolerance maxDenominator x (fuel + 1) h' h k' k fraction = .ok none ∨
    ∃ a next, 1 ≤ a ∧ a * k + k' ≤ maxDenominator ∧ IsFraction next ∧
      convergent convergentTolerance maxDenominator x (fuel + 1) h' h k' k fraction =
        convergent convergentTolerance maxDenominator x fuel h (a * h + h') k (a * k + k') next := by
  by_cases haccept : Accepts x h k
  · exact .inl ⟨haccept, convergent_of_accepts hx haccept⟩
  right
  rw [convergent]
  simp only [Decimal.ite_neg_eq_abs]
  rw [if_neg (mt (withinTolerance_iff hx _).1 haccept)]
  rcases hf with rfl | ⟨hlow, hhigh⟩
  · exact .inl (if_pos rfl)
  have hpos : 0 < fraction := lt_of_lt_of_le (by positivity) hlow
  rw [if_neg hpos.ne']
  -- the inverse of the rest is a double from one to 2 ^ 53
  have hone : (2 : ℚ) ^ (0 : ℤ) ≤ 1 / fraction := by
    rw [zpow_zero, le_div_iff₀ hpos, one_mul]
    exact hhigh
  have htop : 1 / fraction ≤ (2 : ℚ) ^ (53 : ℤ) := by
    rw [div_le_iff₀ hpos]
    calc (1 : ℚ) = 2 ^ (53 : ℤ) * 2 ^ (-53 : ℤ) := by rw [← zpow_add₀ (by norm_num)]; norm_num
      _ ≤ 2 ^ (53 : ℤ) * fraction := by gcongr
  obtain ⟨inverse, hinverse⟩ := exists_ofRat_finite (q := 1 / fraction) (by
    rw [abs_of_pos (by positivity)]
    exact htop.trans (FiniteBinary.two_zpow_le_largest (by norm_num)))
  have hvalue := nearest_of_finite hinverse
  have hge : (1 : ℚ) ≤ inverse.toRat := by
    rw [← hvalue]
    simpa using two_zpow_le_nearest (by norm_num) hone
  have hfraction : IsFraction (Int.fract inverse.toRat) := isFraction_fract (by
    rw [← FiniteBinary.abs_toRat, abs_of_nonneg (by linarith)]
    refine le_trans ?_ hge
    norm_num)
  rw [hinverse]
  simp only
  split
  · exact .inl rfl
  · rename_i hden
    refine .inr ⟨⌊inverse.toRat⌋, nearest (Int.fract inverse.toRat), Int.le_floor.2 (by exact_mod_cast hge), not_lt.1 hden,
      isFraction_nearest hfraction, rfl⟩

/-- The search always ends with an answer: the denominators never decrease. -/
theorem convergent_ok {x : ℚ} (hx : |x| ≤ 2 ^ (1024 : ℤ)) (fuel : Nat) : ∀ {h' h k' k : ℤ} {fraction : ℚ}, 0 ≤ k' →
    1 ≤ k → k ≤ maxDenominator → IsFraction fraction →
    ∃ r, convergent convergentTolerance maxDenominator x fuel h' h k' k fraction = .ok r ∧ IsAnswer x r := by
  induction fuel with
  | zero =>
    intros
    exact ⟨none, rfl, isAnswer_none x⟩
  | succ fuel ih =>
    intro h' h k' k fraction hk' hk hmax hf
    rcases convergent_succ hx fuel h' h k' k hf with
      ⟨haccept, heq⟩ | heq | ⟨a, next, ha, hden, hnext, heq⟩
    · refine ⟨_, heq, ?_⟩
      rintro _ _ ⟨⟩
      exact ⟨hk, hmax, haccept⟩
    · exact ⟨none, heq, isAnswer_none x⟩
    · rw [heq]
      have hmono : k ≤ a * k := le_mul_of_one_le_left (by omega) ha
      exact ih (by omega) (by omega) hden hnext

theorem accepts_zero {x : ℚ} (hx : 0 ≤ x) (htiny : x ≤ 2 ^ (-50 : ℤ)) : Accepts x 0 1 := by
  unfold Accepts
  rw [Rat.zero_divInt, nearest_zero, sub_zero, abs_of_nonneg (nearest_nonneg hx)]
  refine le_trans (nearest_le_two_zpow (by norm_num) hx htiny) (two_zpow_le_nearest (by norm_num) ?_)
  refine tolerance_bounds.1.trans (le_mul_of_one_le_right ?_ (le_max_left _ _))
  exact le_trans (by positivity) tolerance_bounds.1

/-- Unless a number is a tiny positive one, its fraction is no smaller than the fractions later on. -/
theorem isFraction_fract_of_not_tiny {b : FiniteBinary .double} (h : b.toRat < 0 ∨ (2 : ℚ) ^ (-50 : ℤ) < b.toRat) :
    IsFraction (Int.fract b.toRat) := by
  by_cases hhalf : (2 : ℚ) ^ (-1 : ℤ) ≤ b.absRat
  · exact isFraction_fract hhalf
  rw [← FiniteBinary.abs_toRat, not_le, abs_lt, show (2 : ℚ) ^ (-1 : ℤ) = 1 / 2 by norm_num] at hhalf
  refine .inr ⟨?_, (Int.fract_lt_one _).le⟩
  unfold Int.fract
  rcases h with hneg | hlarge
  · have hfloor : ⌊b.toRat⌋ = -1 := Int.floor_eq_iff.2 ⟨by push_cast; linarith, by push_cast; linarith⟩
    rw [hfloor]
    refine le_trans (b := (1 / 2 : ℚ)) (by norm_num) ?_
    push_cast
    linarith
  · have hpos : 0 < b.toRat := lt_trans (by positivity) hlarge
    have hfloor : ⌊b.toRat⌋ = 0 := Int.floor_eq_iff.2 ⟨by push_cast; linarith, by push_cast; linarith⟩
    rw [hfloor, Int.cast_zero, sub_zero]
    exact le_trans (zpow_le_zpow_right₀ (by norm_num) (by norm_num)) hlarge.le

theorem abs_toRat_le (b : FiniteBinary .double) : |b.toRat| ≤ 2 ^ (1024 : ℤ) := by
  rw [FiniteBinary.abs_toRat]
  exact b.absRat_le_largest.trans FiniteBinary.toRat_largest_lt.le

theorem exists_answer (b : FiniteBinary .double) :
    ∃ r, rationalApproximation (.finite b) = .ok r ∧ IsAnswer b.toRat r := by
  show ∃ r, convergent convergentTolerance maxDenominator b.toRat (63 + 1) 1 ⌊b.toRat⌋ 0 1
    (nearest (Int.fract b.toRat)) = .ok r ∧ IsAnswer b.toRat r
  by_cases htiny : 0 ≤ b.toRat ∧ b.toRat ≤ (2 : ℚ) ^ (-50 : ℤ)
  · -- a tiny number is close enough to zero
    have haccept := accepts_zero htiny.1 htiny.2
    have hfloor : ⌊b.toRat⌋ = 0 := by
      have : (2 : ℚ) ^ (-50 : ℤ) < 1 := by norm_num
      exact Int.floor_eq_iff.2 ⟨by simpa using htiny.1, by push_cast; linarith [htiny.2]⟩
    rw [hfloor]
    refine ⟨_, convergent_of_accepts (abs_toRat_le b) haccept, ?_⟩
    rintro _ _ ⟨⟩
    exact ⟨le_rfl, by decide, haccept⟩
  · rw [not_and_or, not_le, not_le] at htiny
    exact convergent_ok (abs_toRat_le b) _ le_rfl le_rfl (by decide)
      (isFraction_nearest (isFraction_fract_of_not_tiny htiny))

/-- The search for a convergent of a 64-bit number never fails. -/
theorem rationalApproximation_ok (x : Double) : ∃ r, rationalApproximation x = .ok r ∧
    ∀ h k, r = some (h, k) → ∃ b : FiniteBinary .double, x = .finite b ∧ 1 ≤ k ∧ k ≤ maxDenominator ∧
      Accepts b.toRat h k := by
  cases x with
  | nan => exact ⟨none, rfl, nofun⟩
  | infinite s => exact ⟨none, rfl, nofun⟩
  | finite b =>
    obtain ⟨r, hr, hanswer⟩ := exists_answer b
    exact ⟨r, hr, fun h k heq => ⟨b, rfl, hanswer h k heq⟩⟩

/-! ## How close a convergent is -/

/-- An accepted convergent is close to the number, the errors of the test included. -/
theorem Accepts.near {x : ℚ} {h k : ℤ} (haccept : Accepts x h k) :
    |x - Rat.divInt h k| ≤ 5 / 4 / 10 ^ 15 * max 1 |x| := by
  unfold Accepts at haccept
  generalize Rat.divInt h k = r at haccept ⊢
  have hM : 1 ≤ max 1 |x| := le_max_left _ _
  have hxM : |x| ≤ max 1 |x| := le_max_right _ _
  have hpos : 0 ≤ tolerance := le_trans (by positivity) tolerance_bounds.1
  have htol : tolerance * max 1 |x| ≤ 1001 / 10 ^ 18 * max 1 |x| :=
    mul_le_mul_of_nonneg_right tolerance_bounds.2.1 (by linarith)
  have hallow := nearest_error (tolerance * max 1 |x|)
  rw [abs_of_nonneg (mul_nonneg hpos (by linarith))] at hallow
  have hallow := (abs_le.1 hallow).2
  unfold allowance at haccept
  have hround := nearest_error r
  generalize nearest r = y at haccept hround
  have hmiss := nearest_error (x - y)
  generalize nearest (x - y) = m at haccept hmiss
  have htiny : (2 : ℚ) ^ (-1075 : ℤ) ≤ 1 / 10 ^ 30 := calc
    (2 : ℚ) ^ (-1075 : ℤ) ≤ 2 ^ (-100 : ℤ) := zpow_le_zpow_right₀ (by norm_num) (by norm_num)
    _ ≤ 1 / 10 ^ 30 := by norm_num
  generalize (2 : ℚ) ^ (-1075 : ℤ) = tiny at hallow hround hmiss htiny
  -- from the number to the rounded convergent, from there to the convergent
  have hxy : |x - y| ≤ |m| + |m - (x - y)| := by
    have := abs_sub_abs_le_abs_sub (x - y) m
    rw [abs_sub_comm (x - y) m] at this
    linarith
  have htriangle : |x - r| ≤ |x - y| + |y - r| := abs_sub_le _ _ _
  have hsize : |r| ≤ |x| + |x - r| := by
    have := abs_sub_abs_le_abs_sub r x
    rw [abs_sub_comm r x] at this
    linarith
  linarith

end Roots

end Reckon
