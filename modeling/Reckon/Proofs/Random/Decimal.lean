/-
Decimals drawn between two bounds and cut to a number of places. The cut goes towards zero, so it can leave the
range at the bound that is nearer to zero, and the bounds count by their stored digits, which are not the value
of a repeating number. All draws stay in the range exactly if the first and the last one do.
-/
import Reckon.Proofs.Random.Scale

namespace Reckon

open Reckon.Outcome Reckon.Real

namespace Random

open Sampler Decimal

/-- A unit draw gives a number between the bounds, if it gives one. -/
def StaysBetween (m : Sampler Real) (lo hi : Real) : Prop :=
  ∀ (x : FiniteBinary .double) (rest : List Draw) (y : Real) (record : Record), 0 ≤ x.toRat → x.toRat < 1 →
    runOn m (.real (.finite x) :: rest) = (.ok y, record) →
    Number.AtMost (.ofReal lo) (.ofReal y) ∧ Number.AtMost (.ofReal y) (.ofReal hi)

/-- How decimals are drawn between two bounds with the stored digits `a` and `b` and the values `p` and `q`, and
cut to a number of places. -/
structure DrawsCut (m : Sampler Real) (lo hi : Real) (a b : Decimal) (p q : ℚ) (places : ℤ) : Prop where
  gives : ∀ (x : FiniteBinary .double) (rest : List Draw), 0 ≤ x.toRat → x.toRat < 1 →
    Representable (b.toRat - a.toRat) → Representable ((b.toRat - a.toRat) * x.toDecimal.toRat) →
    ∃ d, runOn m (.real (.finite x) :: rest) = (.ok (.big d), ⟨rest, [.unit]⟩) ∧
      d.toRat = cut places (a.toRat + (b.toRat - a.toRat) * x.toDecimal.toRat)
  fails : ∀ (x : FiniteBinary .double) (rest : List Draw), 0 ≤ x.toRat → x.toRat < 1 →
    ¬ (Representable (b.toRat - a.toRat) ∧ Representable ((b.toRat - a.toRat) * x.toDecimal.toRat)) →
    ∃ e, runOn m (.real (.finite x) :: rest) = (.error (.failed e), ⟨rest, [.unit]⟩) ∧ e.isRange = true
  /-- The first draw is the cut lower bound, and the last one lies a part in 10^16 before the upper bound. -/
  stays_iff : Representable (b.toRat - a.toRat) → Representable ((b.toRat - a.toRat) * (1 - tenPow (-16))) →
    (StaysBetween m lo hi ↔ cut places a.toRat ∈ Set.Icc p q ∧
      cut places (b.toRat - (b.toRat - a.toRat) * tenPow (-16)) ∈ Set.Icc p q)
  /-- Bounds that are what their digits say: the one nearer to zero must not lose digits. -/
  stays_iff_of_value : a.toRat = p → b.toRat = q → p ≤ q → Representable (q - p) →
    Representable ((q - p) * (1 - tenPow (-16))) →
    (StaysBetween m lo hi ↔ (p ≤ 0 ∨ cut places p = p) ∧ (0 ≤ q ∨ cut places (q - (q - p) * tenPow (-16)) ≤ q))

/-! ## All draws -/

section Range

variable {p q u v : ℚ} {places : ℤ}

/-- What lies between two points is cut to something between the cut points. -/
theorem cut_mem_Icc {w : ℚ} (hu : cut places u ∈ Set.Icc p q) (hv : cut places v ∈ Set.Icc p q) (hw : w ∈ Set.uIcc u v) :
    cut places w ∈ Set.Icc p q := by
  rcases Set.mem_uIcc.1 hw with ⟨hlow, hhigh⟩ | ⟨hlow, hhigh⟩
  · exact ⟨hu.1.trans (cut_le_cut places hlow), (cut_le_cut places hhigh).trans hv.2⟩
  · exact ⟨hv.1.trans (cut_le_cut places hlow), (cut_le_cut places hhigh).trans hu.2⟩

/-- A part of the way short of the second point is left by the rest of the way. -/
theorem point_one_sub (a b e : ℚ) : a + (b - a) * (1 - e) = b - (b - a) * e := by
  ring

/-- The cut ends stay in a range whose bounds they are if the end nearer to zero does. -/
theorem ends_mem_iff {z : ℚ} (hz : z ∈ Set.Icc p q) : cut places p ∈ Set.Icc p q ∧ cut places z ∈ Set.Icc p q ↔
    (p ≤ 0 ∨ cut places p = p) ∧ (0 ≤ q ∨ cut places z ≤ q) := by
  have hmono := cut_le_cut places hz.1
  constructor
  · rintro ⟨hp, hcut⟩
    refine ⟨?_, .inr hcut.2⟩
    rcases le_total p 0 with h | h
    · exact .inl h
    · exact .inr (le_antisymm (cut_le_of_nonneg places h) hp.1)
  · rintro ⟨hp, hq⟩
    have hlow : p ≤ cut places p := by
      rcases hp with h | h
      · exact le_cut_of_nonpos places h
      · exact h.ge
    have hhigh : cut places z ≤ q := by
      rcases hq with h | h
      · rcases le_total 0 z with h' | h'
        · exact (cut_le_of_nonneg places h').trans hz.2
        · exact (cut_nonpos places h').trans h
      · exact h
    exact ⟨⟨hlow, hmono.trans hhigh⟩, hlow.trans hmono, hhigh⟩

end Range

/-! ## Drawing a decimal -/

section Bounds

variable {lo hi : Real} {a b : Decimal} {places : ℤ} (ha : lo.decimal? = some a) (hb : hi.decimal? = some b)

section

include ha hb

theorem runOn_decimal (places : ℤ) (x : FiniteBinary .double) (rest : List Draw) :
    runOn (decimal (.number (.ofReal lo)) (.number (.ofReal hi)) places) (.real (.finite x) :: rest) =
      ((point a b x.toDecimal >>= fun y => (y.truncate places).map .big).mapError .failed, ⟨rest, [.unit]⟩) := by
  refine (outcomeOn_scaled ha hb (fun _ _ d => ofOutcome (do exact (← d.truncate places))) x rest []).trans ?_
  cases point a b x.toDecimal with
  | error e => rfl
  | ok y =>
    simp only [outcomeOn_ofOutcome]
    change ((((y.truncate places).map ExtendedDecimal.finite) >>= exact).mapError Stop.failed, _) =
      (((y.truncate places).map big).mapError Stop.failed, _)
    cases y.truncate places <;> rfl

end

/-- A cut to decimal places fails for no decimal. -/
theorem exists_truncate {y : Decimal} (hy : y.inRange = true) (hplaces : 0 ≤ places) :
    ∃ d, y.truncate places = .ok d ∧ d.toRat = cut places y.toRat := by
  refine (givesValue_truncate hy places).ok ⟨?_, ?_⟩
  · have : 0 ≤ maxExponent := by decide
    omega
  · exact (isCutMultiple_cut places y.toRat).le.trans_lt ((inRange_iff_withinRange y).1 hy).2.2

variable (hlo : lo.IsStored) (hhi : hi.IsStored) (hplaces : 0 ≤ places) {x : FiniteBinary .double} (h0 : 0 ≤ x.toRat)
  (h1 : x.toRat < 1)

include ha hb hlo hhi h0 h1

theorem givesValue_drawn : GivesValue (point a b x.toDecimal)
    (Representable (b.toRat - a.toRat) ∧ Representable ((b.toRat - a.toRat) * x.toDecimal.toRat))
    (a.toRat + (b.toRat - a.toRat) * x.toDecimal.toRat) := by
  obtain ⟨hlow, hhigh⟩ := x.toDecimal_mem h0 h1
  exact givesValue_point (hlo.inRange ha) (hhi.inRange hb) hlow
    (hhigh.trans (sub_le_self 1 (tenPow_pos _).le))

include hplaces

theorem exists_runOn_decimal (hdistance : Representable (b.toRat - a.toRat))
    (hpart : Representable ((b.toRat - a.toRat) * x.toDecimal.toRat)) (rest : List Draw) :
    ∃ d, runOn (decimal (.number (.ofReal lo)) (.number (.ofReal hi)) places) (.real (.finite x) :: rest) =
      (.ok (.big d), ⟨rest, [.unit]⟩) ∧
      d.toRat = cut places (a.toRat + (b.toRat - a.toRat) * x.toDecimal.toRat) := by
  obtain ⟨y, hy, hvalue⟩ := (givesValue_drawn ha hb hlo hhi h0 h1).ok ⟨hdistance, hpart⟩
  obtain ⟨d, hd, hcut⟩ := exists_truncate (inRange_of_point hy) hplaces
  refine ⟨d, ?_, by rw [hcut, hvalue]⟩
  rw [runOn_decimal ha hb, hy, ok_bind, hd]
  rfl

omit hplaces in
theorem exists_runOn_decimal_error (places : ℤ) (hnot : ¬ (Representable (b.toRat - a.toRat) ∧
      Representable ((b.toRat - a.toRat) * x.toDecimal.toRat))) (rest : List Draw) :
    ∃ e, runOn (decimal (.number (.ofReal lo)) (.number (.ofReal hi)) places) (.real (.finite x) :: rest) =
      (.error (.failed e), ⟨rest, [.unit]⟩) ∧ e.isRange = true := by
  obtain ⟨e, he⟩ := (givesValue_drawn ha hb hlo hhi h0 h1).error hnot
  refine ⟨e, ?_, point_range e he⟩
  rw [runOn_decimal ha hb, he]
  rfl

/-- What is drawn is the cut point of the draw. -/
theorem eq_of_runOn_decimal {y : Real} {record : Record} {rest : List Draw}
    (h : runOn (decimal (.number (.ofReal lo)) (.number (.ofReal hi)) places) (.real (.finite x) :: rest) = (.ok y, record)) :
    ∃ d, y = .big d ∧ d.toRat = cut places (a.toRat + (b.toRat - a.toRat) * x.toDecimal.toRat) := by
  by_cases hfound : Representable (b.toRat - a.toRat) ∧ Representable ((b.toRat - a.toRat) * x.toDecimal.toRat)
  · obtain ⟨d, hd, hvalue⟩ := exists_runOn_decimal ha hb hlo hhi hplaces h0 h1 hfound.1 hfound.2 rest
    rw [h] at hd
    exact ⟨d, by simpa using (Prod.mk.inj hd).1, hvalue⟩
  · obtain ⟨e, he, -⟩ := exists_runOn_decimal_error ha hb hlo hhi h0 h1 places hfound rest
    rw [h] at he
    cases (Prod.mk.inj he).1

end Bounds

section Range

variable {lo hi : Real} {a b : Decimal} {p q : ℚ} {places : ℤ} (ha : lo.decimal? = some a) (hb : hi.decimal? = some b)
  (hlo : lo.IsStored) (hhi : hi.IsStored) (hp : lo.toRat? = some p) (hq : hi.toRat? = some q) (hplaces : 0 ≤ places)

include ha hb hlo hhi hp hq hplaces

/-- All draws stay between the bounds if the first and the last one do. -/
theorem staysBetween_of_ends (hfirst : cut places a.toRat ∈ Set.Icc p q)
    (hlast : cut places (b.toRat - (b.toRat - a.toRat) * tenPow (-16)) ∈ Set.Icc p q) :
    StaysBetween (decimal (.number (.ofReal lo)) (.number (.ofReal hi)) places) lo hi := by
  intro x rest y record h0 h1 hrun
  obtain ⟨d, rfl, hvalue⟩ := eq_of_runOn_decimal ha hb hlo hhi hplaces h0 h1 hrun
  obtain ⟨hlow, hhigh⟩ := x.toDecimal_mem h0 h1
  rw [← point_one_sub] at hlast
  have hmem := cut_mem_Icc hfirst hlast (point_mem_uIcc hlow hhigh)
  rw [← hvalue] at hmem
  exact ⟨(Number.atMost_iff hp rfl).2 hmem.1, (Number.atMost_iff rfl hq).2 hmem.2⟩

/-- A draw that stays between the bounds is the cut point of the draw. -/
theorem StaysBetween.cut_mem (h : StaysBetween (decimal (.number (.ofReal lo)) (.number (.ofReal hi)) places) lo hi)
    {x : FiniteBinary .double} (h0 : 0 ≤ x.toRat) (h1 : x.toRat < 1) (hdistance : Representable (b.toRat - a.toRat))
    (hpart : Representable ((b.toRat - a.toRat) * x.toDecimal.toRat)) :
    cut places (a.toRat + (b.toRat - a.toRat) * x.toDecimal.toRat) ∈ Set.Icc p q := by
  obtain ⟨d, hd, hvalue⟩ := exists_runOn_decimal ha hb hlo hhi hplaces h0 h1 hdistance hpart []
  obtain ⟨hlow, hhigh⟩ := h x [] _ _ h0 h1 hd
  rw [← hvalue]
  exact ⟨(Number.atMost_iff hp rfl).1 hlow, (Number.atMost_iff rfl hq).1 hhigh⟩

theorem staysBetween_iff (hdistance : Representable (b.toRat - a.toRat))
    (hpart : Representable ((b.toRat - a.toRat) * (1 - tenPow (-16)))) :
    StaysBetween (decimal (.number (.ofReal lo)) (.number (.ofReal hi)) places) lo hi ↔
      cut places a.toRat ∈ Set.Icc p q ∧ cut places (b.toRat - (b.toRat - a.toRat) * tenPow (-16)) ∈ Set.Icc p q := by
  constructor
  · intro h
    have hzero : (FiniteBinary.zero false : FiniteBinary .double).toDecimal.toRat = 0 := by decide +kernel
    have hfirst := h.cut_mem ha hb hlo hhi hp hq hplaces (x := .zero false) (by decide +kernel) (by decide +kernel)
      hdistance (by rw [hzero, mul_zero]; exact representable_zero)
    have hlast := h.cut_mem ha hb hlo hhi hp hq hplaces (x := .belowOne) (by decide +kernel) (by decide +kernel)
      hdistance (by rwa [FiniteBinary.toRat_toDecimal_belowOne])
    rw [hzero, mul_zero, add_zero] at hfirst
    rw [FiniteBinary.toRat_toDecimal_belowOne, point_one_sub] at hlast
    exact ⟨hfirst, hlast⟩
  · rintro ⟨hfirst, hlast⟩
    exact staysBetween_of_ends ha hb hlo hhi hp hq hplaces hfirst hlast

theorem decimal_drawsCut_places :
    DrawsCut (decimal (.number (.ofReal lo)) (.number (.ofReal hi)) places) lo hi a b p q places where
  gives x rest h0 h1 hdistance hpart := exists_runOn_decimal ha hb hlo hhi hplaces h0 h1 hdistance hpart rest
  fails x rest h0 h1 hnot := exists_runOn_decimal_error ha hb hlo hhi h0 h1 places hnot rest
  stays_iff hdistance hpart := staysBetween_iff ha hb hlo hhi hp hq hplaces hdistance hpart
  stays_iff_of_value hvalue hvalue' hpq hdistance hpart := by
    subst hvalue hvalue'
    rw [staysBetween_iff ha hb hlo hhi hp hq hplaces hdistance hpart]
    refine ends_mem_iff ⟨?_, ?_⟩
    · have : tenPow (-16) ≤ 1 := by norm_num [tenPow]
      nlinarith
    · have := tenPow_pos (-16)
      nlinarith

end Range

/-- Decimals drawn between two stored numbers, at any number of places and at the standard one. -/
theorem decimal_drawsCut {lo hi : Real} {a b : Decimal} {p q : ℚ} (ha : lo.decimal? = some a) (hb : hi.decimal? = some b)
    (hlo : lo.IsStored) (hhi : hi.IsStored) (hp : lo.toRat? = some p) (hq : hi.toRat? = some q) :
    (∀ places, 0 ≤ places →
      DrawsCut (decimal (.number (.ofReal lo)) (.number (.ofReal hi)) places) lo hi a b p q places) ∧
    DrawsCut (standard (.number (.ofReal lo)) (.number (.ofReal hi))) lo hi a b p q 16 :=
  ⟨fun _ hplaces => decimal_drawsCut_places ha hb hlo hhi hp hq hplaces,
    decimal_drawsCut_places ha hb hlo hhi hp hq (by decide)⟩

/-- From minus one half to ten with two places no draw leaves the range. -/
theorem decimal_drawsCut_ten : (Real.big ⟨true, 5, -1⟩).IsStored ∧ (Real.big ⟨false, 10, 0⟩).IsStored ∧
    (Real.big ⟨true, 5, -1⟩).toRat? = some (-1 / 2) ∧ (Real.big ⟨false, 10, 0⟩).toRat? = some 10 ∧
    DrawsCut (decimal (.number (.ofReal (.big ⟨true, 5, -1⟩))) (.number (.ofReal (.big ⟨false, 10, 0⟩))) 2)
      (.big ⟨true, 5, -1⟩) (.big ⟨false, 10, 0⟩) ⟨true, 5, -1⟩ ⟨false, 10, 0⟩ (-1 / 2) 10 2 ∧
    StaysBetween (decimal (.number (.ofReal (.big ⟨true, 5, -1⟩))) (.number (.ofReal (.big ⟨false, 10, 0⟩))) 2)
      (.big ⟨true, 5, -1⟩) (.big ⟨false, 10, 0⟩) := by
  have hlo : (Real.big ⟨true, 5, -1⟩).IsStored := (by decide +kernel : Decimal.inRange ⟨true, 5, -1⟩ = true)
  have hhi : (Real.big ⟨false, 10, 0⟩).IsStored := (by decide +kernel : Decimal.inRange ⟨false, 10, 0⟩ = true)
  have hp : (Real.big ⟨true, 5, -1⟩).toRat? = some (-1 / 2) := by decide +kernel
  have hq : (Real.big ⟨false, 10, 0⟩).toRat? = some 10 := by decide +kernel
  have hcut := (decimal_drawsCut rfl rfl hlo hhi hp hq).1 2 (by decide)
  refine ⟨hlo, hhi, hp, hq, hcut, (hcut.stays_iff_of_value ?_ ?_ ?_ ?_ ?_).2 ⟨.inl ?_, .inl ?_⟩⟩
  · decide +kernel
  · decide +kernel
  · norm_num
  · exact ⟨⟨false, 105, -1⟩, by decide +kernel, by rw [show toRat ⟨false, 105, -1⟩ = 21 / 2 by decide +kernel]; norm_num⟩
  · refine ⟨⟨false, 1049999999999999895, -17⟩, by decide +kernel, ?_⟩
    rw [show toRat ⟨false, 1049999999999999895, -17⟩ = 1049999999999999895 / 10 ^ 17 by decide +kernel]
    norm_num [tenPow]
  · norm_num
  · norm_num

/-- A lower bound above zero with a digit more than is kept is left by the first draw, and so is a repeating one
with the digits that are stored. -/
theorem decimal_leaves_range :
    Number.AtMost (.ofReal (.big ⟨false, 5, -1⟩)) (.ofReal (.big ⟨false, 15, -1⟩)) ∧
    runOn (decimal (.number (.ofReal (.big ⟨false, 5, -1⟩))) (.number (.ofReal (.big ⟨false, 15, -1⟩))) 0)
      [.real (.finite (.zero false))] = (.ok (.big ⟨false, 0, 0⟩), ⟨[], [.unit]⟩) ∧
    ¬ Number.AtMost (.ofReal (.big ⟨false, 5, -1⟩)) (.ofReal (.big ⟨false, 0, 0⟩)) ∧
    Number.AtMost (.ofReal (.recurring ⟨false, 3333, -4⟩)) (.ofReal (.big ⟨false, 3334, -4⟩)) ∧
    runOn (decimal (.number (.ofReal (.recurring ⟨false, 3333, -4⟩))) (.number (.ofReal (.big ⟨false, 3334, -4⟩))) 4)
      [.real (.finite (.zero false))] = (.ok (.big ⟨false, 3333, -4⟩), ⟨[], [.unit]⟩) ∧
    ¬ Number.AtMost (.ofReal (.recurring ⟨false, 3333, -4⟩)) (.ofReal (.big ⟨false, 3333, -4⟩)) := by
  have hhalf : (point ⟨false, 5, -1⟩ ⟨false, 15, -1⟩ (FiniteBinary.zero (f := .double) false).toDecimal >>= fun y =>
      (y.truncate 0).map big) = .ok (.big ⟨false, 0, 0⟩) := by decide +kernel
  have hthird : (point ⟨false, 3333, -4⟩ ⟨false, 3334, -4⟩ (FiniteBinary.zero (f := .double) false).toDecimal >>= fun y =>
      (y.truncate 4).map big) = .ok (.big ⟨false, 3333, -4⟩) := by decide +kernel
  have hvalue : (Real.recurring ⟨false, 3333, -4⟩).toRat? = some (1 / 3) := by decide +kernel
  refine ⟨(Number.atMost_iff rfl rfl).2 (by decide +kernel), ?_, fun h => ?_, (Number.atMost_iff hvalue rfl).2 ?_, ?_,
    fun h => ?_⟩
  · rw [runOn_decimal rfl rfl, hhalf]
    rfl
  · exact absurd ((Number.atMost_iff rfl rfl).1 h) (by decide +kernel)
  · decide +kernel
  · rw [runOn_decimal rfl rfl, hthird]
    rfl
  · exact absurd ((Number.atMost_iff hvalue rfl).1 h) (by decide +kernel)

end Random

end Reckon
