/-
The quotient and the remainder of integers. The remainder is that of the division towards zero. The quotient is the
nearest integer, a half away from zero: it is the quotient towards zero while the remainder is short of half the
divisor, and lies one step further from zero otherwise.
-/
import Reckon.Proofs.Number.Promotion

namespace Reckon

namespace Integer

/-! ## The division towards zero -/

theorem abs_tmod_lt (x : ℤ) {y : ℤ} (hy : y ≠ 0) : |x.tmod y| < |y| := by
  have hlt := Nat.mod_lt x.natAbs (Int.natAbs_pos.2 hy)
  rw [← Int.natAbs_tmod] at hlt
  rw [Int.abs_eq_natAbs, Int.abs_eq_natAbs]
  exact_mod_cast hlt

theorem abs_tmod_le (x y : ℤ) : |x.tmod y| ≤ |x| := by
  have hle := Nat.mod_le x.natAbs y.natAbs
  rw [← Int.natAbs_tmod] at hle
  rw [Int.abs_eq_natAbs, Int.abs_eq_natAbs]
  exact_mod_cast hle

theorem tmod_pos_or_neg (x y : ℤ) : x.tmod y = 0 ∨ 0 < x.tmod y ∧ 0 < x ∨ x.tmod y < 0 ∧ x < 0 := by
  rcases lt_trichotomy x 0 with hx | rfl | hx
  · have hr := Int.tmod_nonneg y (show 0 ≤ -x by omega)
    rw [Int.neg_tmod] at hr
    omega
  · exact .inl (Int.zero_tmod y)
  · have hr := Int.tmod_nonneg y hx.le
    omega

/-- The quotient towards zero has the sign of the product. -/
theorem sign_mul_abs_tdiv (x y : ℤ) : (x * y).sign * |x.tdiv y| = x.tdiv y := by
  by_cases hlt : x.natAbs < y.natAbs
  · have hzero : x.tdiv y = 0 := by
      rw [← Int.natAbs_eq_zero, Int.natAbs_tdiv]
      exact Nat.div_eq_of_lt hlt
    rw [hzero, abs_zero, mul_zero]
  · have hsign := Int.sign_tdiv x y
    rw [if_neg hlt, ← Int.sign_mul] at hsign
    rw [← hsign, Int.sign_mul_abs]

/-! ## The step away from zero -/

/-- What the quotient towards zero lacks of the rounded one. -/
def roundingStep (x y : ℤ) : ℤ := if |y| ≤ 2 * |x.tmod y| then (x * y).sign else 0

theorem sign_mul_of_ne_zero {x y : ℤ} (hx : x ≠ 0) (hy : y ≠ 0) (n : ℤ) :
    (x * y).sign * n = if (decide (x < 0) != decide (y < 0)) = true then -n else n := by
  have hsign : ∀ {z : ℤ}, z ≠ 0 → z.sign = if decide (z < 0) = true then -1 else 1 := by
    intro z hz
    rcases hz.lt_or_gt with hneg | hpos
    · rw [Int.sign_eq_neg_one_of_neg hneg, if_pos (decide_eq_true hneg)]
    · rw [Int.sign_eq_one_of_pos hpos, if_neg (by simpa using hpos.le)]
  rw [Int.sign_mul, hsign hx, hsign hy]
  cases decide (x < 0) <;> cases decide (y < 0) <;> simp

/-- The kernel divides the absolute values, adds one from a half on and sets the sign at the end. -/
theorem div_eq_tdiv_add (x : ℤ) {y : ℤ} (hy : y ≠ 0) : div x y = .ok (x.tdiv y + roundingStep x y) := by
  have hquotient : ((x.natAbs / y.natAbs : Nat) : ℤ) = |x.tdiv y| := by
    rw [Int.abs_eq_natAbs, Int.natAbs_tdiv]
    rfl
  have hremainder : ((x.natAbs % y.natAbs : Nat) : ℤ) = |x.tmod y| := by rw [Int.abs_eq_natAbs, Int.natAbs_tmod]
  have hhalf : y.natAbs ≤ 2 * (x.natAbs % y.natAbs) ↔ |y| ≤ 2 * |x.tmod y| := by
    rw [← hremainder, Int.abs_eq_natAbs]
    exact_mod_cast Iff.rfl
  unfold div roundingStep
  rw [if_neg hy]
  rcases eq_or_ne x 0 with rfl | hx
  · have hzero : ¬ y.natAbs ≤ 2 * (Int.natAbs 0 % y.natAbs) := by simpa using hy
    simp only [if_neg (hhalf.not.1 hzero), if_neg hzero]
    simp
  · simp only [hhalf]
    rw [← sign_mul_of_ne_zero hx hy]
    split
    · rw [Nat.cast_succ, hquotient, mul_add, sign_mul_abs_tdiv, mul_one]
    · rw [hquotient, sign_mul_abs_tdiv, add_zero]

/-- A step times the divisor is the divisor with the sign of the dividend. -/
theorem roundingStep_mul (x y : ℤ) : roundingStep x y * y = 0 ∧ 2 * |x.tmod y| < |y| ∨
    roundingStep x y * y = x.sign * |y| ∧ |y| ≤ 2 * |x.tmod y| := by
  unfold roundingStep
  split
  · exact .inr ⟨by rw [Int.sign_mul, mul_assoc, Int.sign_mul_self_eq_abs], ‹_›⟩
  · exact .inl ⟨zero_mul y, not_le.1 ‹_›⟩

theorem roundingStep_eq_zero_iff (x : ℤ) {y : ℤ} (hy : y ≠ 0) : roundingStep x y = 0 ↔ 2 * |x.tmod y| < |y| := by
  unfold roundingStep
  split
  · rename_i hhalf
    have hx : x ≠ 0 := by
      rintro rfl
      rw [Int.zero_tmod, abs_zero, mul_zero] at hhalf
      exact hhalf.not_gt (abs_pos.2 hy)
    exact iff_of_false (Int.sign_eq_zero_iff_zero.not.2 (mul_ne_zero hx hy)) hhalf.not_gt
  · exact iff_of_true rfl (not_le.1 ‹_›)

/-! ## What the quotient and the remainder are -/

/-- `q` is the integer nearest to the quotient, the one farther from zero if two are equally near. -/
structure IsNearestQuotient (x y q : ℤ) : Prop where
  near : 2 * |x - q * y| ≤ |y|
  away : 2 * |x - q * y| = |y| → |x| < |q * y|

/-- `r` is what the division towards zero leaves: less than the divisor and of the sign of the dividend. -/
structure IsTruncatedRemainder (x y r : ℤ) : Prop where
  lt : |r| < |y|
  sign : r = 0 ∨ r.sign = x.sign
  dvd : y ∣ x - r

theorem isTruncatedRemainder_tmod (x : ℤ) {y : ℤ} (hy : y ≠ 0) : IsTruncatedRemainder x y (x.tmod y) where
  lt := abs_tmod_lt x hy
  sign := by
    obtain hzero | ⟨hr, hx⟩ | ⟨hr, hx⟩ := tmod_pos_or_neg x y
    · exact .inl hzero
    · exact .inr (by rw [Int.sign_eq_one_of_pos hr, Int.sign_eq_one_of_pos hx])
    · exact .inr (by rw [Int.sign_eq_neg_one_of_neg hr, Int.sign_eq_neg_one_of_neg hx])
  dvd := ⟨x.tdiv y, by have := Int.mul_tdiv_add_tmod x y; omega⟩

/-- What is left after a step is the divisor without the remainder. -/
theorem isNearestQuotient_tdiv_add (x : ℤ) {y : ℤ} (hy : y ≠ 0) :
    IsNearestQuotient x y (x.tdiv y + roundingStep x y) := by
  have hdivision := Int.mul_tdiv_add_tmod x y
  have hlt := abs_tmod_lt x hy
  have hle := abs_tmod_le x y
  have hremainder := tmod_pos_or_neg x y
  have hproduct : (x.tdiv y + roundingStep x y) * y = y * x.tdiv y + roundingStep x y * y := by ring
  have hstep := roundingStep_mul x y
  have hsigned : x.sign * |y| = |y| ∧ 0 < x ∨ x.sign * |y| = 0 ∧ x = 0 ∨ x.sign * |y| = -|y| ∧ x < 0 := by
    rcases lt_trichotomy x 0 with hx | rfl | hx
    · exact .inr (.inr ⟨by rw [Int.sign_eq_neg_one_of_neg hx, neg_one_mul], hx⟩)
    · exact .inr (.inl ⟨by simp, rfl⟩)
    · exact .inl ⟨by rw [Int.sign_eq_one_of_pos hx, one_mul], hx⟩
  -- from here on the two products are numbers of which only sign and size matter
  constructor <;> rw [hproduct] <;> generalize roundingStep x y * y = s at hstep <;>
    generalize y * x.tdiv y = z at hdivision <;> generalize x.sign * |y| = u at hstep hsigned <;>
    generalize x.tmod y = r at hdivision hlt hle hstep hremainder <;> simp only [Int.abs_eq_natAbs] at * <;> omega

end Integer

namespace Number

open Integer

/-- Integers are divided to the nearest integer, a half away from zero, and their remainder is that of the division
towards zero. The quotient is the one that belongs to the remainder exactly if the remainder is short of half the
divisor; else it lies one step further from zero. Only a zero divisor fails. -/
theorem division_of_integers (m n : Integer) :
    (n.value ≠ 0 → ∃ q r, (integer m).div (integer n) = .ok (.ofInt q) ∧ (integer m).mod (integer n) = .ok (.ofInt r) ∧
      IsNearestQuotient m.value n.value q ∧ IsTruncatedRemainder m.value n.value r ∧
      (q = (m.value - r) / n.value ↔ 2 * |r| < |n.value|) ∧
      (|n.value| ≤ 2 * |r| → q = (m.value - r) / n.value + (m.value * n.value).sign)) ∧
    (n.value = 0 → (integer m).div (integer n) = fail .divisionByZero ∧
      (integer m).mod (integer n) = fail .divisionByZero) := by
  have hdiv : (integer m).div (integer n) = (Integer.div m.value n.value).map .ofInt := rfl
  have hmod : (integer m).mod (integer n) = (Integer.mod m.value n.value).map .ofInt := rfl
  rw [hdiv, hmod]
  generalize m.value = x
  generalize n.value = y
  constructor
  · intro hy
    have hexact : (x - x.tmod y) / y = x.tdiv y := by
      rw [← Int.mul_tdiv_add_tmod x y, Int.mul_tdiv_add_tmod x y, sub_eq_of_eq_add (Int.mul_tdiv_add_tmod x y).symm,
        Int.mul_ediv_cancel_left _ hy]
    refine ⟨x.tdiv y + roundingStep x y, x.tmod y, ?_, ?_, isNearestQuotient_tdiv_add x hy,
      isTruncatedRemainder_tmod x hy, ?_, fun hhalf => ?_⟩
    · rw [div_eq_tdiv_add x hy]
      rfl
    · rw [mod_eq_tmod x hy]
      rfl
    · rw [hexact, add_eq_left, roundingStep_eq_zero_iff x hy]
    · rw [hexact, roundingStep, if_pos hhalf]
  · rintro rfl
    exact ⟨rfl, rfl⟩

/-- Half of minus seven lies between two integers, and the one farther from zero is taken. -/
theorem division_of_integers_minus_seven_halves : (2 : ℤ) ≠ 0 ∧
    (integer ⟨-7, some .i8⟩).div (integer ⟨2, none⟩) = .ok (.ofInt (-4)) ∧
    (integer ⟨-7, some .i8⟩).mod (integer ⟨2, none⟩) = .ok (.ofInt (-1)) ∧
    IsNearestQuotient (-7) 2 (-4) ∧ IsTruncatedRemainder (-7) 2 (-1) ∧
    (-4 : ℤ) = (-7 - -1) / 2 + (-7 * 2 : ℤ).sign := by
  obtain ⟨q, r, hq, hr, hnearest, htruncated, -, hstep⟩ :=
    (division_of_integers ⟨-7, some .i8⟩ ⟨2, none⟩).1 (by decide)
  obtain rfl : q = -4 := congrArg Integer.value (Number.integer.inj (Except.ok.inj hq.symm))
  obtain rfl : r = -1 := congrArg Integer.value (Number.integer.inj (Except.ok.inj hr.symm))
  exact ⟨by decide, hq, hr, hnearest, htruncated, hstep (by decide)⟩

end Number

end Reckon
