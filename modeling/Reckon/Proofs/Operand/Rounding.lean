/-
Rounding operands against rounding numbers. A real number is rounded in the same way as an operand and as a
number. An integer stays what it is as an operand, though as a number it is rounded to tens, hundreds and so on;
so the two ways agree exactly if this takes no digits away.
-/
import Reckon.Operand.Rounding
import Reckon.Proofs.Number.Rounding

namespace Reckon.Operand

open Reckon.Decimal

/-- Rounding a number as an operand ends like rounding it as a number: with an equal number or the same failure. -/
def RoundsAlike (x : Number) (places : ℤ) : Prop :=
  (∃ y z, roundedTo places (.number x) = .ok (.number y) ∧ x.roundTo places = .ok z ∧ y.equals z = .ok true) ∨
    ∃ e, roundedTo places (.number x) = .error e ∧ x.roundTo places = .error e

/-- What comes out of a finite number is big, and so it is equal to itself. -/
theorem roundsAlike_ofReal {x : Real} {q : ℚ} (hq : x.toRat? = some q) (places : ℤ) : RoundsAlike (.ofReal x) places := by
  have hoperand : roundedTo places (.number (.ofReal x)) = (Number.roundTo (.ofReal x) places).map .number := rfl
  have hnumber : Number.roundTo (.ofReal x) places = (x.roundTo places).map .ofReal := Number.map_map_ofReal _
  have hbig : ∃ r : Outcome Decimal, x.roundTo places = r.map fun d => .big d.strip := by
    rcases Number.roundWith_spec hq (roundRat · places) (Decimal.round · places) with ⟨-, h⟩ | ⟨d, -, -, -, h⟩
    · exact ⟨_, h⟩
    · exact ⟨_, h⟩
  obtain ⟨r, hr⟩ := hbig
  rw [RoundsAlike, hoperand, hnumber, hr]
  cases r with
  | error e => exact .inr ⟨e, rfl, rfl⟩
  | ok d => exact .inl ⟨_, _, rfl, rfl, by rw [Real.equals_ofReal_of_exactRat? rfl rfl, beq_self_eq_true]⟩

theorem roundsAlike_integer_iff (n : Integer) (places : ℤ) : RoundsAlike (.integer n) places ↔
    0 ≤ places ∨ WithinRange places n.value ∧ ((10 ^ (-places).toNat : Nat) : ℤ) ∣ n.value := by
  have hoperand : roundedTo places (.number (.integer n)) = .ok (.number (.integer n)) := rfl
  have hnumber : Number.roundTo (.integer n) places = Number.roundInteger roundRat n places := rfl
  have hgives := Number.roundTo_rounds.integer n places
  rcases le_or_gt 0 places with hplaces | hplaces
  · rw [Number.roundInteger, if_pos hplaces] at hnumber
    exact iff_of_true (.inl ⟨_, _, hoperand, hnumber, by simp [Number.equals]⟩) (.inl hplaces)
  rw [← roundsTo_nearest.value_intCast_eq_iff hplaces, or_iff_right (not_le.2 hplaces)]
  -- both round if the rounded number has a place in the range; the operand never fails
  by_cases hin : WithinRange places (Decimal.rounded places n.value)
  · obtain ⟨m, hm, hvalue⟩ := Number.roundInteger_gives roundsTo_nearest n places hplaces hin
    have hequal : (Number.integer n).equals (.ofInt m) = .ok true ↔ Decimal.rounded places n.value = n.value := by
      rw [← hvalue, Int.cast_inj, eq_comm (a := m)]
      simp [Number.equals, Number.ofInt]
    rw [RoundsAlike, hoperand, hnumber, hm]
    constructor
    · rintro (⟨y, z, hy, hz, h⟩ | ⟨e, h, -⟩)
      · cases hy
        cases hz
        have hself := hequal.1 h
        exact ⟨hself ▸ hin, hself⟩
      · cases h
    · exact fun h => .inl ⟨_, _, rfl, rfl, hequal.2 h.2⟩
  · obtain ⟨e, he⟩ := hgives.error (not_or.2 ⟨not_le.2 hplaces, hin⟩)
    rw [RoundsAlike, hoperand, he]
    refine iff_of_false ?_ fun h => hin (h.2.symm ▸ h.1)
    rintro (⟨y, z, -, hz, -⟩ | ⟨f, hf, -⟩)
    · cases hz
    · cases hf

/-- A finite real number is rounded alike to every number of places, unless it is an integer. Integers are rounded
alike behind the point, and before it if they end in zeros there and the place is in range. -/
theorem roundsAlike_iff {x : Number} {r : Real} {q : ℚ} (hx : x.toScalar = .real r) (hq : r.toRat? = some q) (places : ℤ) :
    RoundsAlike x places ↔ ∀ n, x = .integer n →
      0 ≤ places ∨ WithinRange places n.value ∧ ((10 ^ (-places).toNat : Nat) : ℤ) ∣ n.value := by
  match x, hx with
  | .integer n, _ =>
    rw [roundsAlike_integer_iff]
    constructor
    · rintro h m ⟨⟩
      exact h
    · exact fun h => h n rfl
  | .scalar (.real y), hx =>
    obtain rfl := Scalar.real.inj hx
    exact iff_of_true (roundsAlike_ofReal hq places) nofun

/-- A third is rounded alike to hundreds, and so is 1200. -/
theorem roundsAlike_third : (Real.recurring ⟨false, 3333, -4⟩).toRat? = some (1 / 3) ∧
    RoundsAlike (.ofReal (.recurring ⟨false, 3333, -4⟩)) (-2) ∧
    (Real.ofInt 1200).toRat? = some 1200 ∧ RoundsAlike (.integer ⟨1200, some .i16⟩) (-2) := by
  have hthird : (Real.recurring ⟨false, 3333, -4⟩).toRat? = some (1 / 3) := by decide +kernel
  have hinteger : (Real.ofInt 1200).toRat? = some 1200 := by decide +kernel
  have hrange : WithinRange (-2) ((1200 : ℤ) : ℚ) := by
    refine ⟨by decide, ?_⟩
    calc |((1200 : ℤ) : ℚ)| < tenPow 4 := by norm_num [tenPow]
      _ ≤ tenPow (maxExponent + 1) := tenPow_le_tenPow.2 (by decide)
  refine ⟨hthird, (roundsAlike_iff rfl hthird (-2)).2 ?real, hinteger, (roundsAlike_iff rfl hinteger (-2)).2 ?integer⟩
  case real => rintro n ⟨⟩
  case integer =>
    rintro n ⟨⟩
    exact .inr ⟨hrange, by decide⟩

/-- As an operand 1250 is not rounded to hundreds. -/
theorem not_roundsAlike_hundreds :
    roundedTo (-2) (.number (.integer ⟨1250, none⟩)) = .ok (.number (.integer ⟨1250, none⟩)) ∧
    Number.roundTo (.integer ⟨1250, none⟩) (-2) = .ok (.integer ⟨1300, none⟩) ∧
    Number.equals (.integer ⟨1250, none⟩) (.integer ⟨1300, none⟩) = .ok false := by
  refine ⟨rfl, by with_unfolding_all decide, by decide⟩

end Reckon.Operand
