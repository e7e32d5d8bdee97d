/-
Real numbers drawn between two bounds. Whatever the second draw chooses, the number lies between the bounds: the
point itself, exactly or as an approximation, or a fraction near it with a small denominator. Such a fraction
repeats after at most two digits and then every six, so its rational is found again in the stored digits.
-/
import Reckon.Proofs.Random.Scale
import Reckon.Proofs.Real.Stored

namespace Reckon

open Reckon.Outcome Reckon.Real Reckon.Expansion

/-! ## Fractions with small denominators -/

namespace Real

section SmallDenominator

variable {q : ℚ}

/-- The digits repeat from the third one, every six. -/
theorem repeatsFrom_of_dvd (h : q.den ∣ 10 ^ 2 * (10 ^ 6 - 1)) : RepeatsFrom (digitAt q) 2 6 := by
  rw [digitAt_eq]
  refine (repeatsFrom_iff q.den_pos 2 6).2 ((remainderAt_back_iff q.den_pos 2 6).2 ?_)
  rwa [q.reduced, Nat.div_one]

theorem recovers_of_dvd (h : q.den ∣ 10 ^ 2 * (10 ^ 6 - 1)) (hq : ¬ Terminates q) : Recovers q := by
  obtain ⟨lead, cycle, hcanonical, -⟩ := exists_isCanonical q
  have hexpansion := hcanonical.isExpansion hq
  obtain ⟨hlead, hcycle⟩ := hexpansion.shortest.least 2 6 (by decide) (repeatsFrom_of_dvd h)
  exact recovers_of_short_lead hexpansion hq (by omega) (by omega)

/-- A terminating fraction with a small denominator has four digits, so it is a decimal unless it is too large. -/
theorem representable_of_den_lt (hq : Terminates q) (hden : q.den < 2 ^ 4)
    (hsize : |q| < Decimal.tenPow (Decimal.maxExponent + 1)) : Representable q := by
  obtain ⟨k, hk⟩ := den_dvd_of_lt hq hden
  have hvalue : Decimal.toRat ⟨q.num * k < 0, (q.num * k).natAbs, -4⟩ = q := by
    have hk' : (q.den : ℚ) * k = 10 ^ 4 := by exact_mod_cast hk.symm
    have hden' : (q.den : ℚ) ≠ 0 := Nat.cast_ne_zero.2 q.den_ne_zero
    have hunit : Decimal.tenPow (-4) = 1 / (q.den * k) := by
      rw [hk']
      norm_num [Decimal.tenPow]
    have hk0 : (k : ℚ) ≠ 0 := by
      intro h0
      rw [h0, mul_zero] at hk'
      norm_num at hk'
    rw [Decimal.toRat_ofSigned, hunit]
    push_cast
    nth_rewrite 3 [← Rat.num_div_den q]
    field_simp
  refine ⟨_, (Decimal.inRange_iff _).2 ⟨(by decide : Decimal.minExponent ≤ -4), ?_⟩, hvalue⟩
  exact (Decimal.adjusted_le_iff _ _).2 ⟨(by decide : -4 ≤ Decimal.maxExponent), by rwa [hvalue]⟩

/-- A fraction with a small denominator is stored exactly, as a repeating value unless it terminates. -/
theorem exists_ofRat_of_dvd (hdvd : q.den ∣ 10 ^ 2 * (10 ^ 6 - 1)) (hden : q.den < 2 ^ 4)
    (hsize : |q| < Decimal.tenPow (Decimal.maxExponent + 1)) :
    ∃ x, ofRat q = .ok x ∧ x.exactRat? = some q ∧ (x.kind = .big ∨ x.kind = .recurring) := by
  by_cases hq : Terminates q
  · obtain ⟨d, hd, rfl, -⟩ := (givesDecimal_rational hq).ok (representable_of_den_lt hq hden hsize)
    obtain ⟨x, hx, heq⟩ := map_eq_ok.1 hd
    obtain rfl : x = .big d := by simpa [Number.ofReal] using heq
    exact ⟨_, hx, rfl, .inl rfl⟩
  · obtain ⟨x, hx, hexact⟩ := recovers_of_dvd hdvd hq
    rw [ofRat_of_not_terminates hq] at hx
    obtain rfl := Except.ok.inj hx
    exact ⟨_, ofRat_of_not_terminates hq, hexact, .inr rfl⟩

end SmallDenominator

end Real

namespace Random

open Sampler Decimal

/-! ## A fraction near the point -/

theorem exists_nearbyFraction_eq (q low : ℚ) (den : Nat) : ∃ m : ℤ, nearbyFraction q low den = m / den := by
  unfold nearbyFraction
  simp only
  split
  · exact ⟨_, Rat.mkRat_eq_div _ _⟩
  · exact ⟨_, Rat.mkRat_eq_div _ _⟩

/-- What the denominators have in common. -/
theorem denominators_spec : ∀ den ∈ denominators, den ∣ 10 ^ 2 * (10 ^ 6 - 1) ∧ 0 < den ∧ den < 2 ^ 4 := by
  decide

theorem den_dvd_of_eq_div {q : ℚ} {m : ℤ} {den : Nat} (h : q = m / den) : q.den ∣ den := by
  rw [h]
  exact_mod_cast Rat.den_dvd m den

/-- What a second draw makes of the point between two bounds. -/
structure IsRealDraw (lo hi y : Real) (n : ℤ) (den : Nat) : Prop where
  low : Number.AtMost (.ofReal lo) (.ofReal y)
  high : Number.AtMost (.ofReal y) (.ofReal hi)
  exact : n < 80 → y.kind = .big
  nearby : 80 ≤ n → n < 90 → y.kind = .big ∨ y.kind = .recurring
  approximate : 90 ≤ n → y.kind = .irrational
  repeating : y.kind = .recurring → ∃ m : ℤ, y.exactRat? = some ((m : ℚ) / den)

/-- The near fraction, or the point itself if the fraction leaves the bounds. -/
def nearbyValue (a b y : Decimal) (den : Nat) : Outcome Real :=
  if a.toRat ≤ nearbyFraction y.toRat a.toRat den ∧ nearbyFraction y.toRat a.toRat den ≤ b.toRat then
    Real.ofRat (nearbyFraction y.toRat a.toRat den)
  else .ok (.big y)

section Draw

variable {lo hi : Real} {a b y : Decimal} {x : FiniteBinary .double} {n i : ℤ} {den : Nat}

theorem outcomeOn_nearby (a b y : Decimal) (hden : denominators[i.toNat]? = some den) (rest : List Draw)
    (requests : List Request) : outcomeOn (Random.nearby a b (.finite y)) ⟨.whole i :: rest, requests⟩ =
      ((nearbyValue a b y den).mapError .failed, ⟨rest, .choice denominators.length :: requests⟩) := by
  unfold Random.nearby
  refine ((gives_askFor_cons (by exact hden) rest requests).outcomeOn_bind _).trans ?_
  change outcomeOn (ofOutcome _) _ = _
  rw [outcomeOn_ofOutcome]
  rfl

/-- The second draw decides what becomes of the point. -/
theorem runOn_real (ha : lo.decimal? = some a) (hb : hi.decimal? = some b) (hy : point a b x.toDecimal = .ok y)
    (hden : denominators[i.toNat]? = some den) (rest : List Draw) :
    runOn (real (.number (.ofReal lo)) (.number (.ofReal hi))) (.real (.finite x) :: .whole n :: .whole i :: rest) =
      if n < 80 then (.ok (.big y), ⟨.whole i :: rest, [.below 0 100, .unit]⟩)
      else if n < 90 then
        ((nearbyValue a b y den).mapError .failed, ⟨rest, [.choice denominators.length, .below 0 100, .unit]⟩)
      else (.ok (.irrational y), ⟨.whole i :: rest, [.below 0 100, .unit]⟩) := by
  refine (outcomeOn_scaled ha hb (fun a b d => do
    let n ← askFor (.below 0 100) wholeDraw
    if n < 80 then ofOutcome (exact d)
    else if n < 90 then Random.nearby a b d
    else ofOutcome (approximation d)) x _ []).trans ?_
  rw [hy]
  change outcomeOn (if n < 80 then ofOutcome (exact (.finite y)) else if n < 90 then Random.nearby a b (.finite y)
    else ofOutcome (approximation (.finite y))) ⟨.whole i :: rest, [.below 0 100, .unit]⟩ = _
  split
  · rfl
  split
  · exact outcomeOn_nearby a b y hden rest _
  · rfl

/-- The value of a bound that does not repeat is that of its digits. -/
theorem toRat?_of_not_isRecurring (ha : lo.decimal? = some a) (h : lo.isRecurring = false) : lo.toRat? = some a.toRat := by
  cases lo with
  | small f b =>
    obtain rfl := Option.some.inj ha
    rfl
  | big d | irrational d =>
    obtain rfl := Option.some.inj ha
    rfl
  | recurring d => cases h
  | infinite | nan => cases ha

/-- Whatever lies between two decimals in range is not too large for one. -/
theorem abs_lt_of_mem {q : ℚ} (ha : a.inRange = true) (hb : b.inRange = true) (hlow : a.toRat ≤ q) (hhigh : q ≤ b.toRat) :
    |q| < tenPow (maxExponent + 1) := by
  have hasize := (abs_lt.1 ((inRange_iff_withinRange a).1 ha).2.2).1
  have hbsize := (abs_lt.1 ((inRange_iff_withinRange b).1 hb).2.2).2
  exact abs_lt.2 ⟨hasize.trans_le hlow, hhigh.trans_lt hbsize⟩

/-- Near the point a number between the bounds is found. -/
theorem exists_nearbyValue (ha : a.inRange = true) (hb : b.inRange = true) (hmem : den ∈ denominators)
    (hlow : a.toRat ≤ y.toRat) (hhigh : y.toRat ≤ b.toRat) : ∃ z r, nearbyValue a b y den = .ok z ∧ z.toRat? = some r ∧
      a.toRat ≤ r ∧ r ≤ b.toRat ∧ (z.kind = .big ∨ z.kind = .recurring) ∧
      (z.kind = .recurring → ∃ m : ℤ, z.exactRat? = some ((m : ℚ) / den)) := by
  unfold nearbyValue
  split
  · rename_i hbetween
    obtain ⟨hdvd, hpos, hlt⟩ := denominators_spec den hmem
    obtain ⟨m, hm⟩ := exists_nearbyFraction_eq y.toRat a.toRat den
    have hden := den_dvd_of_eq_div hm
    obtain ⟨z, hz, hexact, hkind⟩ := Real.exists_ofRat_of_dvd (hden.trans hdvd) ((Nat.le_of_dvd hpos hden).trans_lt hlt)
      (abs_lt_of_mem ha hb hbetween.1 hbetween.2)
    exact ⟨z, _, hz, Real.toRat?_of_exactRat? hexact, hbetween.1, hbetween.2, hkind, fun _ => ⟨m, hm ▸ hexact⟩⟩
  · exact ⟨.big y, y.toRat, rfl, rfl, hlow, hhigh, .inl rfl, nofun⟩

/-- How a real number is drawn between two bounds with the digits `a` and `b`: by the point that a unit draw
marks, the number `n` that tells what becomes of it, and the place `i` of a denominator. -/
structure DrawsReal (lo hi : Real) (a b : Decimal) (x : FiniteBinary .double) (n i : ℤ) (den : Nat) (rest : List Draw) :
    Prop where
  gives : Representable (b.toRat - a.toRat) → Representable ((b.toRat - a.toRat) * x.toDecimal.toRat) →
    ∃ y, runOn (real (.number (.ofReal lo)) (.number (.ofReal hi))) (.real (.finite x) :: .whole n :: .whole i :: rest) =
      (.ok y, if 80 ≤ n ∧ n < 90 then ⟨rest, [.choice denominators.length, .below 0 100, .unit]⟩
        else ⟨.whole i :: rest, [.below 0 100, .unit]⟩) ∧ IsRealDraw lo hi y n den
  fails : ¬ (Representable (b.toRat - a.toRat) ∧ Representable ((b.toRat - a.toRat) * x.toDecimal.toRat)) →
    ∃ e, runOn (real (.number (.ofReal lo)) (.number (.ofReal hi))) (.real (.finite x) :: .whole n :: .whole i :: rest) =
      (.error (.failed e), ⟨.whole n :: .whole i :: rest, [.unit]⟩) ∧ e.isRange = true

theorem real_drawsReal (ha : lo.decimal? = some a) (hb : hi.decimal? = some b) (hlo : lo.IsStored) (hhi : hi.IsStored)
    (hlow : lo.isRecurring = false) (hhigh : hi.isRecurring = false) (hle : Number.AtMost (.ofReal lo) (.ofReal hi))
    (h0 : 0 ≤ x.toRat) (h1 : x.toRat < 1) (hden : denominators[i.toNat]? = some den) (rest : List Draw) :
    DrawsReal lo hi a b x n i den rest := by
  have hp := toRat?_of_not_isRecurring ha hlow
  have hq := toRat?_of_not_isRecurring hb hhigh
  have hab := (Number.atMost_iff hp hq).1 hle
  obtain ⟨hf0, hf1⟩ := x.toDecimal_mem h0 h1
  have hf1 := hf1.trans (sub_le_self 1 (tenPow_pos (-16)).le)
  have hpoint := givesValue_point (hlo.inRange ha) (hhi.inRange hb) hf0 hf1
  constructor
  · intro hdistance hpart
    obtain ⟨y, hy, hvalue⟩ := hpoint.ok ⟨hdistance, hpart⟩
    obtain ⟨hylow, hyhigh⟩ : y.toRat ∈ Set.Icc a.toRat b.toRat := hvalue ▸ point_mem_Icc hab hf0 hf1
    rw [runOn_real ha hb hy hden]
    -- `n` decides between a decimal, a repeating number and an approximation
    split
    · rename_i hn
      refine ⟨.big y, ?_, (Number.atMost_iff hp rfl).2 hylow, (Number.atMost_iff rfl hq).2 hyhigh, fun _ => rfl,
        fun h => absurd h (by omega), fun h => absurd h (by omega), nofun⟩
      rw [if_neg (by omega)]
    split
    · rename_i hn hn'
      obtain ⟨z, r, hz, hr, hzlow, hzhigh, hkind, hrepeating⟩ :=
        exists_nearbyValue (hlo.inRange ha) (hhi.inRange hb) (List.mem_of_getElem? hden) hylow hyhigh
      refine ⟨z, ?_, (Number.atMost_iff hp hr).2 hzlow, (Number.atMost_iff hr hq).2 hzhigh, fun h => absurd h hn,
        fun _ _ => hkind, fun h => absurd h (by omega), hrepeating⟩
      rw [if_pos (by omega), hz]
      rfl
    · rename_i hn hn'
      refine ⟨.irrational y, ?_, (Number.atMost_iff hp rfl).2 hylow, (Number.atMost_iff rfl hq).2 hyhigh,
        fun h => absurd h hn, fun _ h => absurd h hn', fun _ => rfl, nofun⟩
      rw [if_neg (by omega)]
  · intro hnot
    obtain ⟨e, he⟩ := hpoint.error hnot
    refine ⟨e, ?_, point_range e he⟩
    refine (outcomeOn_scaled ha hb _ x _ []).trans ?_
    rw [he]

end Draw

/-- A quarter of the way from zero to ten the third that is not above is seven thirds. -/
theorem real_drawsReal_seven_thirds :
    let lo := Real.big ⟨false, 0, 0⟩
    let hi := Real.big ⟨false, 10, 0⟩
    let quarter : FiniteBinary .double := ⟨false, 0x3fd0000000000000, by decide⟩
    lo.IsStored ∧ hi.IsStored ∧ Number.AtMost (.ofReal lo) (.ofReal hi) ∧ 0 ≤ quarter.toRat ∧ quarter.toRat < 1 ∧
      denominators[(0 : ℤ).toNat]? = some 3 ∧ DrawsReal lo hi ⟨false, 0, 0⟩ ⟨false, 10, 0⟩ quarter 85 0 3 [] ∧
      IsRealDraw lo hi (.recurring ⟨false, 23333, -4⟩) 85 3 := by
  intro lo hi quarter
  have hlo : lo.IsStored := (by decide +kernel : Decimal.inRange ⟨false, 0, 0⟩ = true)
  have hhi : hi.IsStored := (by decide +kernel : Decimal.inRange ⟨false, 10, 0⟩ = true)
  have hle : Number.AtMost (.ofReal lo) (.ofReal hi) := (Number.atMost_iff rfl rfl).2 (by decide +kernel)
  have h0 : 0 ≤ quarter.toRat := by decide +kernel
  have h1 : quarter.toRat < 1 := by decide +kernel
  have hdraws := real_drawsReal (n := 85) rfl rfl hlo hhi rfl rfl hle h0 h1 (i := 0) rfl []
  refine ⟨hlo, hhi, hle, h0, h1, rfl, hdraws, ?_⟩
  obtain ⟨y, hy, hdraw⟩ := hdraws.gives ⟨⟨false, 10, 0⟩, by decide +kernel, by decide +kernel⟩
    ⟨⟨false, 25, -1⟩, by decide +kernel, by decide +kernel⟩
  have hpoint : point ⟨false, 0, 0⟩ ⟨false, 10, 0⟩ quarter.toDecimal = .ok ⟨false, 250, -2⟩ := by decide +kernel
  have hnearby : nearbyValue ⟨false, 0, 0⟩ ⟨false, 10, 0⟩ ⟨false, 250, -2⟩ 3 = .ok (.recurring ⟨false, 23333, -4⟩) := by
    decide +kernel
  rw [runOn_real rfl rfl hpoint rfl, if_neg (by decide), if_pos (by decide), hnearby] at hy
  obtain rfl : .recurring ⟨false, 23333, -4⟩ = y := by simpa [Except.mapError] using (Prod.mk.inj hy).1
  exact hdraw

/-- The distance of the bounds can be too large for a decimal, and a part of it too small. -/
theorem real_without_decimal :
    (let lo := Real.big ⟨true, 9, maxExponent⟩
    let hi := Real.big ⟨false, 9, maxExponent⟩
    lo.IsStored ∧ hi.IsStored ∧ Number.AtMost (.ofReal lo) (.ofReal hi) ∧
      runOn (real (.number (.ofReal lo)) (.number (.ofReal hi)))
        [.real (.finite ⟨false, 0x3fe0000000000000, by decide⟩), .whole 0] =
        (.error (.failed .decimalOverflow), ⟨[.whole 0], [.unit]⟩)) ∧
    (let lo := Real.big ⟨false, 1, minExponent⟩
    let hi := Real.big ⟨false, 3, minExponent⟩
    lo.IsStored ∧ hi.IsStored ∧ Number.AtMost (.ofReal lo) (.ofReal hi) ∧
      runOn (real (.number (.ofReal lo)) (.number (.ofReal hi)))
        [.real (.finite ⟨false, 0x3fd0000000000000, by decide⟩), .whole 0] =
        (.error (.failed .decimalInexact), ⟨[.whole 0], [.unit]⟩)) := by
  have hlarge : point ⟨true, 9, maxExponent⟩ ⟨false, 9, maxExponent⟩
      (⟨false, 0x3fe0000000000000, by decide⟩ : FiniteBinary .double).toDecimal = .error .decimalOverflow := by
    decide +kernel
  have hsmall : point ⟨false, 1, minExponent⟩ ⟨false, 3, minExponent⟩
      (⟨false, 0x3fd0000000000000, by decide⟩ : FiniteBinary .double).toDecimal = .error .decimalInexact := by
    decide +kernel
  have hvalue : ∀ (negative : Bool) (c : Nat) (e : ℤ), toRat ⟨negative, c, e⟩ = (if negative then -1 else 1) * (c * tenPow e) :=
    fun negative c e => toRat_eq_sign ⟨negative, c, e⟩
  refine ⟨⟨?_, ?_, (Number.atMost_iff rfl rfl).2 ?_, ?_⟩, ?_, ?_, (Number.atMost_iff rfl rfl).2 ?_, ?_⟩
  · exact (by decide +kernel : Decimal.inRange ⟨true, 9, maxExponent⟩ = true)
  · exact (by decide +kernel : Decimal.inRange ⟨false, 9, maxExponent⟩ = true)
  · have := tenPow_pos maxExponent
    rw [hvalue, hvalue]
    norm_num
    linarith only [this]
  · refine (outcomeOn_scaled rfl rfl _ _ _ []).trans ?_
    rw [hlarge]
  · exact (by decide +kernel : Decimal.inRange ⟨false, 1, minExponent⟩ = true)
  · exact (by decide +kernel : Decimal.inRange ⟨false, 3, minExponent⟩ = true)
  · have := tenPow_pos minExponent
    rw [hvalue, hvalue]
    norm_num
    linarith only [this]
  · refine (outcomeOn_scaled rfl rfl _ _ _ []).trans ?_
    rw [hsmall]

end Random

end Reckon
