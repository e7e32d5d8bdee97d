/-
Arithmetic on integers and on their promotions. The kernels for integers split off the signs, while a
promoted integer is an exact decimal and is computed with as a rational. Both give the same sums,
differences, products and remainders, and the results of the second way are whole numbers again.
-/
import Reckon.Proofs.Number.Order

namespace Reckon

namespace Integer

/-- The remainder of the absolute values, with the sign of the dividend, is that of the division towards
zero. -/
theorem mod_eq_tmod (x : ℤ) {y : ℤ} (hy : y ≠ 0) : mod x y = .ok (x.tmod y) := by
  have hcast : ((x.natAbs % y.natAbs : Nat) : ℤ) = (x.tmod y).natAbs := by rw [Int.natAbs_tmod]
  unfold mod
  simp only [if_neg hy, hcast]
  split
  · rename_i hneg
    have hsign : 0 ≤ (-x).tmod y := Int.tmod_nonneg y (by omega)
    rw [Int.neg_tmod] at hsign
    rw [show -((x.tmod y).natAbs : ℤ) = x.tmod y by omega]
  · rename_i hpos
    have hsign : 0 ≤ x.tmod y := Int.tmod_nonneg y (by omega)
    rw [Int.natAbs_of_nonneg hsign]

end Integer

namespace Real

open Reckon.Expansion

/-! ## Whole numbers -/

/-- A whole number stands for itself. -/
theorem standsFor_ofInt (n : ℤ) : StandsFor (ofInt n) n :=
  .decimal (Decimal.toRat_ofInt n ▸ HasDecimal.big (.ofInt n))

theorem isLeastPlaces_intCast (n : ℤ) : IsLeastPlaces n 0 n where
  value := by rw [pow_zero, mul_one]
  least _ _ _ := Nat.zero_le _

theorem ofRat_intCast (n : ℤ) :
    ofRat n = if Digits.width n.natAbs ≤ 10 ^ 18 then .ok (ofInt n) else .error .decimalRange := by
  have hmake : Decimal.ofScaled n 0 =
      if (Decimal.ofInt n).inRange then .ok (.ofInt n) else .error .decimalRange := rfl
  rw [ofRat_of_terminates (isLeastPlaces_intCast n), Nat.cast_zero, neg_zero, hmake]
  simp only [Decimal.inRange_ofInt_iff]
  split <;> rfl

/-- The quotient of two integers is cut as their rational quotient is. -/
theorem towardsZero_div (x : ℤ) {y : ℤ} (hy : y ≠ 0) : towardsZero ((x : ℚ) / y) = x.tdiv y := by
  obtain ⟨c, hx, hden⟩ := Rat.num_den_mk hy (Rat.divInt_eq_div x y).symm
  rw [← truncateToInt_eq, truncateToInt]
  generalize (x : ℚ) / y = q at hx hden ⊢
  -- the quotient in lowest terms lacks a common factor, of either sign
  rcases lt_trichotomy c 0 with hneg | rfl | hpos
  · conv_rhs => rw [hx, hden, ← Int.neg_tdiv_neg, ← Int.neg_mul, ← Int.neg_mul, Int.mul_tdiv_mul_of_pos _ _ (by omega)]
  · exact absurd (hden.trans (Int.zero_mul _)) hy
  · conv_rhs => rw [hx, hden, Int.mul_tdiv_mul_of_pos _ _ hpos]

/-- The remainder of a rational division of integers is the remainder of the integers. -/
theorem sub_mul_towardsZero (x : ℤ) {y : ℤ} (hy : y ≠ 0) :
    (x : ℚ) - y * towardsZero ((x : ℚ) / y) = (x.tmod y : ℤ) := by
  rw [towardsZero_div x hy, Int.tmod_def]
  push_cast
  rfl

end Real

namespace Number

open Reckon.Real

/-- An integer as an exact decimal. -/
def promotion (n : Integer) : Number := .scalar (integer n).toScalar

/-- An integer is equal to the promotions of its value only. -/
theorem equals_promotion_iff (m n : Integer) : (integer m).equals (promotion n) = .ok true ↔ m.value = n.value := by
  have hplace : (promotion n).place? = some (.finite n.value) := place?_toScalar (integer n)
  rw [equals_iff_of_place? rfl hplace, ExtendedRat.finite_inj, Int.cast_inj]

/-- An operation on integers and the same operation on their promotions agree on the integer `n`: the
second gives a big number with this value, which is equal to the first, unless the integer has more
digits than any decimal. -/
structure AgreeOn (onIntegers onReals : Outcome Number) (n : ℤ) : Prop where
  integer : onIntegers = .ok (.ofInt n)
  big : Digits.width n.natAbs ≤ 10 ^ 18 → ∃ d, onReals = .ok (.ofReal (.big d)) ∧ d.toRat = n ∧
    (Number.ofInt n).equals (.ofReal (.big d)) = .ok true
  tooLong : 10 ^ 18 < Digits.width n.natAbs → onReals = .error .decimalRange

theorem agreeOn_of_rational {onIntegers onReals : Outcome Number} {n : ℤ} (hinteger : onIntegers = .ok (.ofInt n))
    (hreal : onReals = rational n) : AgreeOn onIntegers onReals n where
  integer := hinteger
  big h := by
    refine ⟨.ofInt n, ?_, Decimal.toRat_ofInt n, (equals_promotion_iff ⟨n, none⟩ ⟨n, none⟩).2 rfl⟩
    rw [hreal, rational, ofRat_intCast, if_pos h]
    rfl
  tooLong h := by
    rw [hreal, rational, ofRat_intCast, if_neg (not_le.2 h)]
    rfl

/-- Sums, differences, products and remainders of integers are those of their promotions. Only a zero
divisor fails, in the same way for both, and a remainder has no more digits than the dividend. -/
theorem arithmetic_promotes (m n : Integer) :
    AgreeOn ((integer m).add (integer n)) ((promotion m).add (promotion n)) (m.value + n.value) ∧
    AgreeOn ((integer m).sub (integer n)) ((promotion m).sub (promotion n)) (m.value - n.value) ∧
    AgreeOn ((integer m).mul (integer n)) ((promotion m).mul (promotion n)) (m.value * n.value) ∧
    (n.value ≠ 0 →
      AgreeOn ((integer m).mod (integer n)) ((promotion m).mod (promotion n)) (m.value.tmod n.value) ∧
      Digits.width (m.value.tmod n.value).natAbs ≤ Digits.width m.value.natAbs) ∧
    (n.value = 0 → (integer m).mod (integer n) = fail .divisionByZero ∧
      (promotion m).mod (promotion n) = fail .divisionByZero) := by
  have hexact : ComputesExactly (promotion m) (promotion n) m.value n.value :=
    computesExactly_of_standsFor (standsFor_ofInt m.value) (standsFor_ofInt n.value)
  refine ⟨agreeOn_of_rational rfl ?_, agreeOn_of_rational rfl ?_, agreeOn_of_rational rfl ?_, fun hn => ⟨?_, ?_⟩,
    fun hn => ⟨?_, hexact.mod_zero (by rw [hn, Int.cast_zero])⟩⟩
  · rw [hexact.add, Int.cast_add]
  · rw [hexact.sub, Int.cast_sub]
  · rw [hexact.mul, Int.cast_mul]
  · refine agreeOn_of_rational ?_ ?_
    · exact congrArg (Except.map ofInt) (Integer.mod_eq_tmod m.value hn)
    · rw [hexact.mod (Int.cast_ne_zero.2 hn), sub_mul_towardsZero m.value hn]
  · refine Digits.width_le (Digits.width_pos _) (lt_of_le_of_lt ?_ (Digits.lt_pow_width _))
    rw [Int.natAbs_tmod]
    exact Nat.mod_le _ _
  · exact congrArg (Except.map ofInt) (if_pos hn)

/-- The remainder of a negative byte follows the dividend, and there is none by zero. -/
theorem arithmetic_promotes_remainder : (-7 : ℤ).tmod 3 = -1 ∧
    AgreeOn (mod (integer ⟨-7, some .i8⟩) (.ofInt 3)) (mod (promotion ⟨-7, some .i8⟩) (promotion ⟨3, none⟩)) (-1) ∧
    mod (promotion ⟨-7, some .i8⟩) (promotion ⟨0, none⟩) = fail .divisionByZero :=
  ⟨rfl, ((arithmetic_promotes ⟨-7, some .i8⟩ ⟨3, none⟩).2.2.2.1 (by decide)).1,
    ((arithmetic_promotes ⟨-7, some .i8⟩ ⟨0, none⟩).2.2.2.2 rfl).2⟩

end Number

end Reckon
