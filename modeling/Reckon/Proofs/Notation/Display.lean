/-
Which numbers can be shown. The display of a repeating value forms its rational again, and a cycle of
nines carries into the digit before it, so the text is there if the carry has room. It has: a decimal
has no more digits than its precision allows, far fewer than the exponents reach.
-/
import Reckon.Notation.Writer
import Reckon.Proofs.Failure
import Reckon.Proofs.Real.Normalization

namespace Reckon

open Outcome

/-- The decimal is one that can be held: its exponent is in range, and it does not have too many digits. -/
structure Decimal.IsHeld (d : Decimal) : Prop where
  inRange : d.inRange = true
  digits : d.digitCount ≤ Decimal.maxDigits

namespace Real

/-- What the number stores can be held. -/
def IsHeld (x : Real) : Prop := ∀ d ∈ x.decimal?, d.IsHeld

/-- A repeating value that can be held can be stored afresh. -/
theorem exists_normalize {d : Decimal} (h : d.IsHeld) :
    ∃ b, normalize (.recurring d) = .ok (.big b) ∨ normalize (.recurring d) = .ok (.recurring b) := by
  cases hfind : Cycle.find d.fractionDigits none with
  | none => exact ⟨d, .inr (normalize_of_find_none hfind)⟩
  | some s =>
    obtain ⟨lead, cycle⟩ := s
    by_cases hcycle : cycle = ['0'] ∨ cycle = ['9']
    · obtain ⟨b, -, hok, -, hb⟩ := normalize_of_constant hfind hcycle
      have hfraction : d.exponent < 0 := by
        by_contra hwhole
        rw [Decimal.fractionDigits, if_pos (not_lt.1 hwhole)] at hfind
        cases hfind
      have hroom : d.adjusted < Decimal.maxExponent := by
        have := h.digits
        unfold Decimal.adjusted
        rw [Decimal.maxDigits] at this
        rw [Decimal.maxExponent]
        omega
      exact ⟨b, .inl (hok (hb h.inRange hroom)).1⟩
    · obtain ⟨b, hb, -⟩ := normalize_of_find hfind hcycle
      exact ⟨b, .inr hb⟩

end Real

namespace Notation

/-- Without a visible cycle the first ten digits are shown. -/
theorem exists_display_recurring (d : Decimal) : ∃ text, Style.display.recurring d = .ok text := by
  have hcut : ∃ b, Style.display.fallback d = .ok b := by
    have hunit : Decimal.make false 1 (-10) = .ok ⟨false, 1, -10⟩ := by decide +kernel
    change ∃ b, d.truncate 10 = .ok b
    unfold Decimal.truncate
    split
    · exact ⟨_, rfl⟩
    · exact ⟨_, by rw [hunit]; rfl⟩
  obtain ⟨b, hb⟩ := hcut
  unfold Style.recurring
  split
  · exact ⟨_, rfl⟩
  · exact ⟨_, by rw [hb]; rfl⟩

theorem exists_display_real {x : Real} (h : x.IsHeld) : ∃ text, Style.display.real x = .ok text := by
  cases x with
  | recurring d =>
    obtain ⟨b, hb | hb⟩ := Real.exists_normalize (h d rfl)
    · exact ⟨_, by rw [Style.real, hb]; rfl⟩
    · obtain ⟨text, htext⟩ := exists_display_recurring b
      exact ⟨text, by rw [Style.real, hb]; exact htext⟩
  | _ => exact ⟨_, rfl⟩

/-- Turning the sign of a repeating value moves no digit. -/
theorem exists_display_neg {x : Real} (h : x.IsHeld) : ∃ text, Style.display.real x.neg = .ok text := by
  cases x with
  | recurring d =>
    refine exists_display_real (x := .recurring d.neg) ?_
    rintro _ ⟨⟩
    exact ⟨(h d rfl).inRange, (h d rfl).digits⟩
  | _ => exact ⟨_, rfl⟩

theorem exists_display_coefficient {x : Real} (h : x.IsHeld) : ∃ text, Style.display.coefficient x = .ok text := by
  obtain ⟨text, htext⟩ : ∃ text, Style.display.real (if x.isNegative then x.neg else x) = .ok text := by
    split
    · exact exists_display_neg h
    · exact exists_display_real h
  unfold Style.coefficient
  generalize (if x.isNegative then x.neg else x) = m at htext ⊢
  simp only [htext]
  split
  · exact ⟨_, rfl⟩
  · exact ⟨_, rfl⟩

end Notation

namespace Number

/-- What the number stores can be held, in both parts. -/
def IsHeld (x : Number) : Prop := x.toScalar.parts.1.IsHeld ∧ x.toScalar.parts.2.IsHeld

/-- A number that can be held is shown. -/
theorem exists_render {x : Number} (h : x.IsHeld) : ∃ text, Notation.render x = .ok text := by
  rcases x with n | (x | ⟨re, im⟩)
  · exact ⟨_, rfl⟩
  · exact Notation.exists_display_real h.1
  · obtain ⟨front, hfront⟩ := Notation.exists_display_real h.1
    obtain ⟨c, hc⟩ := Notation.exists_display_coefficient h.2
    unfold Notation.render Notation.renderComplex
    simp only
    split
    · exact ⟨front, hfront⟩
    · rw [show Notation.Style.display.coefficient im = .ok c from hc, ok_bind]
      split
      · exact ⟨_, rfl⟩
      · exact ⟨_, by rw [show Notation.Style.display.real re = .ok front from hfront]; rfl⟩

end Number

end Reckon
