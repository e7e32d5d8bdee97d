/-
Integer powers of exact numbers. As long as the exponent times the bits of the base is not too large, the
power is the number that stands for the power of the rational. The same bound keeps that number in the range
of decimals, so it is there, and powers of one base multiply by adding the exponents.
-/
import Reckon.Proofs.Number.PromotedPower
import Reckon.Proofs.Real.Stored

namespace Reckon

open Outcome

/-! ## Sizes of powers -/

namespace Real

open Reckon.Expansion

/-- The bits of numerator and denominator. -/
def bitSize (q : ℚ) : Nat := max (bitLength q.num.natAbs) (bitLength q.den)

theorem bitSize_inv {q : ℚ} (hq : q ≠ 0) : bitSize q⁻¹ = bitSize q := by
  have hnum : q⁻¹.num.natAbs = q.den := by
    rw [Rat.num_inv, Int.natAbs_mul, Int.natAbs_sign_of_ne_zero (Rat.num_ne_zero.2 hq), Nat.one_mul, Int.natAbs_natCast]
  unfold bitSize
  rw [hnum, Rat.den_inv_of_ne_zero hq, max_comm]

theorem ofRat_one : ofRat 1 = .ok one := by decide +kernel

/-- A power of bounded size is stored. -/
theorem exists_ofRat_pow {q : ℚ} {k : Nat} (h : k * bitSize q ≤ maxPowerBits) : ∃ x, ofRat (q ^ k) = .ok x := by
  rcases eq_or_ne k 0 with rfl | hk
  · exact ⟨one, by rw [pow_zero, ofRat_one]⟩
  refine exists_ofRat_of_lt ?_ ?_ (h.trans_lt (by decide))
  · rw [Rat.num_pow, Int.natAbs_pow]
    exact pow_lt_two_pow hk (le_max_left _ _)
  · rw [Rat.den_pow]
    exact pow_lt_two_pow hk (le_max_right _ _)

/-! ## Powers -/

/-- An integer power of bounded size, of a rational other than zero. -/
theorem power_eq_ofRat {x : Real} {q : ℚ} (hx : x.exactRat? = some q) (hzero : x.isZero = false) {n : ℤ}
    (h : n.natAbs * bitSize q ≤ maxPowerBits) : x.power (ofInt n) = ofRat (q ^ n) := by
  unfold power
  by_cases hn : n = 0
  · rw [if_pos ((isZero_ofInt_iff n).2 hn), hn, zpow_zero, ofRat_one]
  rw [if_neg ((isZero_ofInt_iff n).not.2 hn), if_neg (Bool.eq_false_iff.1 (isInfinite_of_exactRat? hx)),
    if_neg (show ¬ (ofInt n).isInfinite = true from Bool.false_ne_true), if_neg (Bool.eq_false_iff.1 hzero),
    if_pos (isInteger_ofInt n), toRat_eq_ok_iff.2 (toRat?_ofInt n), ok_bind, Rat.floor_intCast]
  unfold integerPower
  rw [hx]
  simp only [ite_pow_eq_zpow]
  exact if_pos h

end Real

namespace Number

open Reckon.Real

section

variable {x : Real} {q : ℚ}

theorem power_ofInt_eq (hx : HasDecimal x q) (hq : q ≠ 0) {n : ℤ} (h : n.natAbs * bitSize q ≤ maxPowerBits) :
    power (.ofReal x) (ofInt n) = rational (q ^ n) := by
  have hzero : x.isZero = false := Bool.eq_false_iff.2 ((StandsFor.decimal hx).isZero_iff.not.2 hq)
  refine (number_power_ofReal (isNaN_of_exactRat? hx.exactRat?) rfl).trans ?_
  rw [power_eq_ofRat hx.exactRat? hzero h, rational]

/-- Powers to natural exponents are decimals. -/
theorem exists_power_eq (hx : HasDecimal x q) (hq : q ≠ 0) {k : Nat} (h : k * bitSize q ≤ maxPowerBits) :
    ∃ d : Decimal, power (.ofReal x) (ofInt k) = .ok (.ofReal (.big d)) ∧ d.toRat = q ^ k := by
  obtain ⟨y, hy⟩ := exists_ofRat_pow h
  obtain ⟨d, rfl, hd⟩ := exists_decimal_of_ofRat (terminates_pow hx.terminates k) hy
  refine ⟨d, ?_, hd⟩
  rw [power_ofInt_eq hx hq (by rwa [Int.natAbs_natCast]), zpow_natCast, rational, hy]
  rfl

/-- The power to a negative exponent is the number that stands for the power of the reciprocal. -/
theorem exists_power_neg_eq (hx : HasDecimal x q) (hq : q ≠ 0) {k : Nat} (h : k * bitSize q ≤ maxPowerBits) :
    ∃ y, ofRat (q ^ (-k : ℤ)) = .ok y ∧ power (.ofReal x) (ofInt (-k)) = .ok (.ofReal y) := by
  obtain ⟨y, hy⟩ := exists_ofRat_pow (q := q⁻¹) (by rwa [bitSize_inv hq])
  rw [inv_pow, ← zpow_natCast, ← zpow_neg] at hy
  refine ⟨y, hy, ?_⟩
  rw [power_ofInt_eq hx hq (by rwa [Int.natAbs_neg, Int.natAbs_natCast]), rational, hy]
  rfl

/-- Integer powers of a native number or a decimal other than zero, up to a bound on the bits: those to
natural exponents are the exact decimals, those to negative exponents the numbers that stand for the
reciprocals, and the power to a sum is the product of the powers. -/
theorem power_exact (hx : HasDecimal x q) (hq : q ≠ 0) {j k : Nat} (h : (j + k) * bitSize q ≤ maxPowerBits) :
    (∃ d : Decimal, power (.ofReal x) (ofInt k) = .ok (.ofReal (.big d)) ∧ d.toRat = q ^ k) ∧
    (∃ y, ofRat (q ^ (-k : ℤ)) = .ok y ∧ power (.ofReal x) (ofInt (-k)) = .ok (.ofReal y)) ∧
    ∃ a b p : Number, power (.ofReal x) (ofInt j) = .ok a ∧ power (.ofReal x) (ofInt k) = .ok b ∧
      power (.ofReal x) (ofInt (j + k)) = .ok p ∧ mul a b = .ok p := by
  rw [Nat.add_mul] at h
  have hk : k * bitSize q ≤ maxPowerBits := (Nat.le_add_left _ _).trans h
  obtain ⟨a, ha, hvalue⟩ := exists_power_eq hx hq ((Nat.le_add_right _ _).trans h)
  obtain ⟨b, hb, hvalue'⟩ := exists_power_eq hx hq hk
  obtain ⟨p, hp, -⟩ := exists_power_eq hx hq (k := j + k) (by rwa [Nat.add_mul])
  rw [Nat.cast_add] at hp
  refine ⟨⟨b, hb, hvalue'⟩, exists_power_neg_eq hx hq hk, _, _, _, ha, hb, hp, ?_⟩
  calc mul (.ofReal (.big a)) (.ofReal (.big b)) = rational (a.toRat * b.toRat) := number_mul_of_exactRat? rfl rfl
    _ = rational (q ^ ((j : ℤ) + k)) := by rw [hvalue, hvalue', ← pow_add, ← zpow_natCast, Nat.cast_add]
    _ = power (.ofReal x) (ofInt (j + k)) := by
      rw [power_ofInt_eq hx hq (by rwa [← Nat.cast_add, Int.natAbs_natCast, Nat.add_mul])]
    _ = .ok (.ofReal (.big p)) := hp

/-- A single to the fifth power, and a reciprocal that does not terminate. -/
theorem power_exact_minus_three : HasDecimal (.small .single ⟨true, 0x40400000, by decide⟩) (-3) ∧ ((-3 : ℚ) ≠ 0) ∧
    (2 + 3) * bitSize (-3) ≤ maxPowerBits ∧
    (∃ d : Decimal, power (.ofReal (.small .single ⟨true, 0x40400000, by decide⟩)) (ofInt (3 : Nat)) =
      .ok (.ofReal (.big d)) ∧ d.toRat = (-3) ^ 3) ∧
    ∃ y, ofRat ((-3) ^ (-(3 : Nat) : ℤ)) = .ok y ∧
      power (.ofReal (.small .single ⟨true, 0x40400000, by decide⟩)) (ofInt (-(3 : Nat))) = .ok (.ofReal y) := by
  have hvalue : (⟨true, 0x40400000, by decide⟩ : FiniteBinary .single).toDecimal.toRat = -3 := by decide +kernel
  have hx : HasDecimal (.small .single ⟨true, 0x40400000, by decide⟩) (-3) := hvalue ▸ .small _
  have hbits : (2 + 3) * bitSize (-3) ≤ maxPowerBits := by decide +kernel
  obtain ⟨hpower, hreciprocal, -⟩ := power_exact hx (by norm_num) hbits
  exact ⟨hx, by norm_num, hbits, hpower, hreciprocal⟩

end

end Number

end Reckon
