/-
How powers of numbers fail. Two failures are neither numeric errors nor numbers that leave their range:
a negative power of an approximation that the cut to the precision takes for zero, and an exponent so
long that the error cannot name it (or, where a root is taken, a base that is as long).
-/
import Reckon.Proofs.Number.Failures
import Reckon.Proofs.Real.Power

namespace Reckon

open Outcome

/-! ## Integers -/

namespace Integer

/-- A power that is too large, with an exponent that has no text. -/
def LongExponent (x y : ℤ) : Prop := 1 < x.natAbs ∧ 0 ≤ y ∧ Failure.digitLimit < Digits.width y.natAbs

theorem lt_bits_of_longExponent {x y : ℤ} (h : LongExponent x y) :
    Real.maxPowerBits < y.natAbs * Real.bitLength x.natAbs := by
  obtain ⟨hx, -, hy⟩ := h
  have hbits : 1 ≤ Real.bitLength x.natAbs := Real.one_le_bitLength (by omega)
  have hlow : 10 ^ Failure.digitLimit ≤ y.natAbs := by
    by_contra hlt
    exact absurd (Digits.width_le (by decide) (not_le.1 hlt)) (not_le.2 hy)
  calc Real.maxPowerBits < 10 ^ 8 := by decide
    _ ≤ 10 ^ Failure.digitLimit := Nat.pow_le_pow_right (by decide) (by decide)
    _ ≤ y.natAbs * Real.bitLength x.natAbs := hlow.trans (Nat.le_mul_of_pos_right _ hbits)

theorem power_of_longExponent {x y : ℤ} (h : LongExponent x y) : power x y = .error .textValue := by
  unfold power Failure.naming
  rw [if_neg (by have := h.2.1; omega), if_pos ⟨h.1, lt_bits_of_longExponent h⟩, if_pos h.2.2]

theorem power_failsOnly (x y : ℤ) :
    FailsOnly (fun e => (∃ n, e = .numeric n) ∨ e = .textValue ∧ LongExponent x y) (power x y) := by
  unfold power Failure.naming
  refine .ite (fun _ => .error (.inl ⟨_, rfl⟩)) fun hy => .ite (fun hlarge => .error ?_) fun _ =>
    .ite (fun _ => .ok _) fun _ => .ok _
  split
  · exact .inr ⟨rfl, hlarge.1, by omega, ‹_›⟩
  · exact .inl ⟨_, rfl⟩

end Integer

/-! ## Scalars -/

namespace Scalar

theorem power_failsOnly {kind : Failure → Prop} (hkind : ∀ e, e.isArithmetic = true → kind e) {a b : Scalar}
    (hpow : ∀ x y, a = .real x → b = .real y → FailsOnly kind (x.power y)) : FailsOnly kind (a.power b) := by
  refine ((refuseNaN_arithmetic a).mono hkind).bind fun _ _ => ((refuseNaN_arithmetic b).mono hkind).bind fun _ _ =>
    .ite (fun _ => .ok _) fun _ => ?_
  split
  · exact (hpow _ _ rfl rfl).map
  · exact (powParts_arithmetic _ _).mono hkind

theorem power_of_powerDividesByZero {x y : Real} (h : Real.PowerDividesByZero x y) :
    (real x).power (real y) = .error .zeroDivision := by
  have hpower := (Real.power_eq_zeroDivision_iff x y).2 h
  obtain ⟨-, -, v, hv, hdiv⟩ := h
  obtain ⟨d, hd, -⟩ := hdiv.lost
  have hx : (real x).isNaN = false := by
    cases x <;> first | rfl | cases hd
  have hy : (real y).isNaN = false := by
    cases y <;> first | rfl | cases hv
  have hzero : (real y).isZero = false := Bool.eq_false_iff.2 fun hz => by
    have hone : x.power y = .ok .one := if_pos (show y.isZero = true from hz)
    rw [hone] at hpower
    cases hpower
  unfold power refuseNaN
  rw [hx, hy, hzero]
  exact map_eq_error.2 hpower

end Scalar

/-! ## Numbers -/

namespace Number

/-- Both operands are integers, and the exponent of a power that is too large has no text. -/
def LongExponent (a b : Number) : Prop :=
  ∃ x y : Integer, a = integer x ∧ b = integer y ∧ Integer.LongExponent x.value y.value

/-- Both operands are real, and the power divides by a base that the cut to the precision loses. -/
def PowerDividesByZero (a b : Number) : Prop :=
  ∃ x y, a.toScalar = .real x ∧ b.toScalar = .real y ∧ Real.PowerDividesByZero x y

/-- The number is real, and its rational does not terminate and is longer than roots can carry. -/
def IsGigantic (a : Number) : Prop := ∃ x v, a.toScalar = .real x ∧ x.toRat = .ok v ∧ Roots.IsGigantic v

theorem power_of_powerDividesByZero {a b : Number} (h : PowerDividesByZero a b) :
    a.power b = .error .zeroDivision := by
  obtain ⟨x, y, ha, hb, hdiv⟩ := h
  have hscalar := Scalar.power_of_powerDividesByZero hdiv
  unfold power binary
  split
  · -- an integer is exact, so nothing of it is lost
    rename_i m n
    obtain rfl : Real.ofInt m.value = x := by simpa [toScalar] using ha
    exact nomatch hdiv.2.2.choose_spec.2.inexact
  · rw [ha, hb]
    exact map_eq_error.2 hscalar

theorem power_failsOnly {kind : Failure → Prop} (hkind : ∀ e, e.isArithmetic = true → kind e) {a b : Number}
    (hlong : LongExponent a b → kind .textValue) (hgigantic : IsGigantic a → kind .textValue)
    (hzero : PowerDividesByZero a b → kind .zeroDivision) : FailsOnly kind (a.power b) := by
  unfold power binary
  split
  · rename_i x y
    refine FailsOnly.map ((Integer.power_failsOnly _ _).mono ?_)
    rintro _ (⟨n, rfl⟩ | ⟨rfl, h⟩)
    · exact hkind _ rfl
    · exact hlong ⟨x, y, rfl, rfl, h⟩
  · refine FailsOnly.map (Scalar.power_failsOnly hkind fun x y ha hb e he => ?_)
    rcases Real.power_failsOnly_all x y e he with h | rfl | rfl
    · exact hkind e h
    · obtain ⟨v, hv, hbase⟩ := Real.isGigantic_of_power_eq_textValue he
      exact hgigantic ⟨x, v, ha, hv, hbase⟩
    · exact hzero ⟨x, y, ha, hb, (Real.power_eq_zeroDivision_iff x y).1 he⟩

end Number

end Reckon
