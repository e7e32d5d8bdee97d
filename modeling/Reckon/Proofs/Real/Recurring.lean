/-
Which stored repeating values stand for the rational they were made from. The stored digits are the
lead and four cycles, and the search on them returns the rational exactly if no valid split starts
before the true cycle does. A lead that is short against its cycle is safe; a longer one that looks
periodic together with the four cycles is read back as another rational.
-/
import Reckon.Proofs.Decimal.Value
import Reckon.Proofs.Expansion.Search
import Reckon.Proofs.Real.Equality

namespace Reckon.Real

open Reckon.Digits Reckon.Expansion

/-! ## The stored digits -/

/-- The digits that are stored for an expansion. -/
def fraction (e : Expansion) : List Char := e.lead ++ (List.replicate Cycle.repeats e.cycle).flatten

theorem fractionDigits_storedDigits {e : Expansion} (h : ∀ c ∈ fraction e, Text.isAsciiDigit c = true) :
    (storedDigits e).fractionDigits = fraction e := by
  have hexp : (storedDigits e).exponent = -((fraction e).length : ℤ) := rfl
  have hcoeff : (storedDigits e).coefficient = e.whole * 10 ^ (fraction e).length + toNat (fraction e) := rfl
  unfold Decimal.fractionDigits
  rw [hexp, hcoeff]
  split
  · exact (List.length_eq_zero_iff.1 (by omega)).symm
  · rw [Int.natAbs_neg, Int.natAbs_natCast, padded_toNat_add _ h]

theorem wholePart_storedDigits {e : Expansion} (h : ∀ c ∈ fraction e, Text.isAsciiDigit c = true) :
    (storedDigits e).wholePart = e.whole := by
  have hexp : (storedDigits e).exponent = -((fraction e).length : ℤ) := rfl
  have hcoeff : (storedDigits e).coefficient = e.whole * 10 ^ (fraction e).length + toNat (fraction e) := rfl
  rw [Decimal.wholePart_eq, Decimal.abs_toRat, hexp, hcoeff, Decimal.tenPow_neg_natCast, ← div_eq_mul_inv,
    Nat.floor_div_eq_div, Nat.add_comm, Nat.add_mul_div_right _ _ (by positivity), Nat.div_eq_of_lt (toNat_lt h),
    Nat.zero_add]

/-- The rational behind stored digits is spelled by the split that the search finds. -/
theorem recurringRat?_storedDigits {e : Expansion} (h : ∀ c ∈ fraction e, Text.isAsciiDigit c = true) :
    recurringRat? (storedDigits e) = (Cycle.best (fraction e).toArray).map fun s =>
      value e.negative e.whole ((fraction e).take s.start) (((fraction e).drop s.start).take s.length) := by
  unfold recurringRat? Cycle.split Cycle.find
  rw [fractionDigits_storedDigits h]
  cases Cycle.best (fraction e).toArray with
  | none => rfl
  | some s =>
    simp only [if_true, Option.map_some, spelledRat, Decimal.integerDigits, wholePart_storedDigits h, toNat_ofNat]
    rfl

/-- The stored digits are split where they were joined if the search finds that split. -/
theorem find_storedDigits {e : Expansion} (h : ∀ c ∈ fraction e, Text.isAsciiDigit c = true)
    (hbest : Cycle.best (fraction e).toArray = some ⟨e.lead.length, e.cycle.length⟩) (limit : Option Int) :
    Cycle.find (storedDigits e).fractionDigits limit =
      if ∀ m ∈ limit, ((e.lead.length + 2 * e.cycle.length : Nat) : Int) ≤ m then some (e.lead, e.cycle) else none := by
  have hfraction : fraction e = e.lead ++ unrolled e.cycle (Cycle.repeats * e.cycle.length) := by rw [unrolled_mul, fraction]
  rw [fractionDigits_storedDigits h]
  rw [hfraction] at hbest ⊢
  exact Cycle.find_append_unrolled hbest (Nat.le_mul_of_pos_left _ (by decide)) limit

/-! ## Repeating values -/

/-- The number stored for a rational stands for it. -/
def Recovers (q : ℚ) : Prop := ∃ x, ofRat q = .ok x ∧ x.exactRat? = some q

section

variable {q : ℚ} {whole : Nat} {lead cycle : List Char}

theorem ofRat_zero : ofRat 0 = .ok zero := by with_unfolding_all decide

theorem ofRatWithin_of_not_terminates (hq : ¬ Terminates q) (budget : ℤ) : ofRatWithin q budget =
    .ok (.recurring (storedDigits (Expansion.ofNat (q < 0) q.num.natAbs q.den budget.toNat))) := by
  have hneg : decide (q.num < 0) = decide (q < 0) := by rw [decide_eq_decide]; exact Rat.num_neg
  unfold ofRatWithin
  rw [(terminatingPlaces?_eq_none_iff q).2 hq, hneg]

theorem ofRat_of_not_terminates (hq : ¬ Terminates q) :
    ofRat q = .ok (.recurring (storedDigits (Expansion.ofNat (q < 0) q.num.natAbs q.den 10000))) :=
  ofRatWithin_of_not_terminates hq 10000

theorem ofRat_of_complete (h : IsExpansion q whole lead cycle) (hq : ¬ Terminates q)
    (hlen : lead.length + cycle.length ≤ 10000) :
    ofRat q = .ok (.recurring (storedDigits ⟨q < 0, whole, lead, cycle, true⟩)) := by
  rw [ofRat_of_not_terminates hq, h.ofNat_eq hq, if_pos hlen]

theorem fraction_isDigit (h : IsExpansion q whole lead cycle) (negative : Bool) :
    ∀ c ∈ fraction ⟨negative, whole, lead, cycle, true⟩, Text.isAsciiDigit c = true := by
  rw [fraction, h.append_cycles]
  exact digitsAt_isDigit _ _

/-- How many digits a lead and a cycle of given lengths are stored with: the lead and four cycles if the budget
pays for lead and cycle, else all that it pays for. -/
def storedPlaces (lead cycle budget : Nat) : Nat := if lead + cycle ≤ budget then lead + Cycle.repeats * cycle else budget

/-- The digits that are stored are the first ones of the rational. -/
theorem fraction_ofNat (h : IsExpansion q whole lead cycle) (hq : ¬ Terminates q) (negative : Bool) (budget : Nat) :
    fraction (Expansion.ofNat negative q.num.natAbs q.den budget) =
      digitsAt q.num.natAbs q.den 0 (storedPlaces lead.length cycle.length budget) := by
  rw [h.ofNat_eq hq, storedPlaces]
  split
  · exact h.append_cycles Cycle.repeats
  · simp [fraction]

theorem parts_ofNat (h : IsExpansion q whole lead cycle) (hq : ¬ Terminates q) (negative : Bool) (budget : Nat) :
    (Expansion.ofNat negative q.num.natAbs q.den budget).negative = negative ∧
      (Expansion.ofNat negative q.num.natAbs q.den budget).whole = whole := by
  rw [h.ofNat_eq hq]
  split <;> exact ⟨rfl, rfl⟩

/-- The decimal that is stored for a rational holds it cut after the stored digits. -/
theorem storedDigits_ofNat (h : IsExpansion q whole lead cycle) (hq : ¬ Terminates q) (budget : Nat) :
    storedDigits (Expansion.ofNat (q < 0) q.num.natAbs q.den budget) =
      ⟨q < 0, ⌊|q| * (10 ^ storedPlaces lead.length cycle.length budget : Nat)⌋₊,
        -(storedPlaces lead.length cycle.length budget : Nat)⟩ := by
  have hfraction := fraction_ofNat h hq (q < 0) budget
  have hparts := parts_ofNat h hq (q < 0) budget
  generalize Expansion.ofNat (q < 0) q.num.natAbs q.den budget = e at hfraction hparts ⊢
  generalize storedPlaces lead.length cycle.length budget = k at hfraction ⊢
  have hquotient := @quotient_eq q.num.natAbs q.den 0 k
  rw [Nat.zero_add, pow_zero, Nat.mul_one, ← floor_abs, ← h.whole_eq, ← hparts.2, ← hfraction] at hquotient
  have hcoefficient : e.whole * 10 ^ (fraction e).length + toNat (fraction e) = ⌊|q| * (10 ^ k : Nat)⌋₊ := by
    rw [hfraction, length_digitsAt, ← hfraction, ← hquotient, abs_eq_natAbs_div, div_mul_eq_mul_div, ← Nat.cast_mul,
      Nat.floor_div_eq_div]
  have hplaces : (fraction e).length = k := by rw [hfraction, length_digitsAt]
  rw [← hparts.1, ← hcoefficient, ← hplaces]
  rfl

/-- What is read back from the digits of a minimal expansion is its rational exactly if the search
finds the true split. -/
theorem recurringRat?_eq_iff (h : IsExpansion q whole lead cycle) :
    recurringRat? (storedDigits ⟨q < 0, whole, lead, cycle, true⟩) = some q ↔
      ¬ ∃ s l, s < lead.length ∧ Cycle.Valid (lead ++ (List.replicate Cycle.repeats cycle).flatten) s l := by
  have hfraction : fraction ⟨decide (q < 0), whole, lead, cycle, true⟩ =
    lead ++ (List.replicate Cycle.repeats cycle).flatten := rfl
  have htext := h.append_cycles Cycle.repeats
  have hbest := Cycle.best_digitsAt_iff h.shortest_digitOf (le_refl (lead.length + Cycle.repeats * cycle.length))
  rw [← htext] at hbest
  rw [recurringRat?_storedDigits (fraction_isDigit h _), hfraction, ← hbest]
  constructor
  · intro hval
    obtain ⟨b, hb, hval⟩ := Option.map_eq_some_iff.1 hval
    obtain ⟨hvalid, hpref⟩ := (Cycle.best_eq_some_iff b).1 hb
    rw [hbest]
    rintro ⟨s, l, hs, hv⟩
    -- the rational repeats from the start of the split that was found, so that is not too early
    have := (hvalid.expansion_le hval h).1
    have hbefore := hpref s l hv
    unfold Cycle.Split.Preferred at hbefore
    omega
  · intro hb
    have hcycle : (((List.replicate Cycle.repeats cycle).flatten).take cycle.length) = cycle := by
      simp [Cycle.repeats, List.replicate_succ]
    rw [hb, Option.map_some, List.take_left, List.drop_left, hcycle, h.value_eq]

theorem recovers_iff_of_complete (h : IsExpansion q whole lead cycle) (hq : ¬ Terminates q)
    (hlen : lead.length + cycle.length ≤ 10000) : Recovers q ↔
      ¬ ∃ s l, s < lead.length ∧ Cycle.Valid (lead ++ (List.replicate Cycle.repeats cycle).flatten) s l := by
  rw [← recurringRat?_eq_iff h, Recovers, ofRat_of_complete h hq hlen]
  constructor
  · rintro ⟨x, hx, hval⟩
    obtain rfl := Except.ok.inj hx
    exact hval
  · exact fun hval => ⟨_, rfl, hval⟩

/-- A lead of at most eight cycles and seven digits is read back right. -/
theorem recovers_of_short_lead (h : IsExpansion q whole lead cycle) (hq : ¬ Terminates q)
    (hlen : lead.length + cycle.length ≤ 10000) (hlead : lead.length ≤ 8 * cycle.length + 7) : Recovers q := by
  rw [recovers_iff_of_complete h hq hlen, h.append_cycles, ← Cycle.best_digitsAt_iff h.shortest_digitOf le_rfl]
  exact Cycle.best_digitsAt_of_short_lead h.shortest_digitOf hlead

/-- A division that ran out of digits is read back as nothing exactly if its digits have no valid
split. -/
theorem recurringRat?_eq_none_iff (h : IsExpansion q whole lead cycle) (hq : ¬ Terminates q)
    (hlen : 10000 < lead.length + cycle.length) : ∃ d, ofRat q = .ok (.recurring d) ∧
      (recurringRat? d = none ↔
        ¬ ∃ s l, Cycle.Valid ((List.range 10000).map fun i => digitChar (digitAt q i)) s l) := by
  refine ⟨_, ofRat_of_not_terminates hq, ?_⟩
  have hdigits := fraction_ofNat h hq (q < 0) 10000
  rw [storedPlaces, if_neg (by omega)] at hdigits
  have hmap : (List.range 10000).map (fun i => digitChar (digitAt q i)) = digitsAt q.num.natAbs q.den 0 10000 := by
    simp only [digitsAt, digitAt_eq, Nat.zero_add]
  rw [recurringRat?_storedDigits (by rw [hdigits]; exact digitsAt_isDigit _ _), Option.map_eq_none_iff, hdigits, hmap,
    Cycle.best_eq_none_iff]
  simp only [not_exists]

end

/-! ## What is read back from stored digits -/

theorem toRat_recurring {b : Decimal} {q : ℚ} (hb : recurringRat? b = some q) : (recurring b).toRat = .ok q :=
  toRat_eq_ok_iff.2 (toRat?_of_exactRat? hb)

/-- A repeating value without a visible cycle stands for its stored digits. -/
theorem toRat?_of_no_cycle {d : Decimal} (h : recurringRat? d = none) : (recurring d).toRat? = some d.toRat := by
  unfold toRat? exactRat?
  simp only [h]
  rfl

/-- The rational that is read back comes from a valid split. -/
theorem exists_valid_of_recurringRat? {b : Decimal} {q : ℚ} (hb : recurringRat? b = some q) :
    ∃ s l, Cycle.Valid b.fractionDigits s l ∧
      q = value b.negative b.wholePart (b.fractionDigits.take s) ((b.fractionDigits.drop s).take l) := by
  obtain ⟨spelling, hsplit, rfl⟩ := Option.map_eq_some_iff.1 hb
  obtain ⟨⟨lead, cycle⟩, hfind, rfl⟩ := Option.map_eq_some_iff.1 hsplit
  obtain ⟨s, l, hfirst, rfl, rfl⟩ := Cycle.exists_isFirst_of_find hfind
  refine ⟨s, l, hfirst.valid, ?_⟩
  rw [spelledRat, Decimal.integerDigits, toNat_ofNat]

/-- The rational that is read back has the stored digits and lacks nothing but what comes behind them. -/
theorem exists_lack_of_recurringRat? {b : Decimal} {q : ℚ} (hb : recurringRat? b = some q) :
    ∃ t, 0 ≤ t ∧ t ≤ Decimal.tenPow b.exponent ∧ q = (if b.negative then -1 else 1) * (|b.toRat| + t) := by
  obtain ⟨s, l, hvalid, rfl⟩ := exists_valid_of_recurringRat? hb
  obtain ⟨t, hnonneg, hle, hvalue⟩ := hvalid.exists_lack b.fractionDigits_isDigit b.negative b.wholePart
  have hunit : Decimal.tenPow b.exponent = ((10 ^ b.fractionDigits.length : Nat) : ℚ)⁻¹ := by
    rw [Decimal.exponent_of_fractionDigits hvalid.ne_nil, Decimal.tenPow_neg_natCast]
  rw [Decimal.wholePart_mul_pow_add hvalid.ne_nil] at hvalue
  refine ⟨t * Decimal.tenPow b.exponent, mul_nonneg hnonneg (Decimal.tenPow_pos _).le,
    mul_le_of_le_one_left (Decimal.tenPow_pos _).le hle, ?_⟩
  rw [hvalue, Decimal.abs_toRat, hunit, ← add_mul, ← div_eq_mul_inv]

/-- The stored digits lack at most a unit of their last place of the rational that is read back. -/
theorem abs_sub_toRat_le {b : Decimal} {q : ℚ} (hb : recurringRat? b = some q) :
    |q - b.toRat| ≤ Decimal.tenPow b.exponent := by
  obtain ⟨t, hnonneg, hle, rfl⟩ := exists_lack_of_recurringRat? hb
  conv_lhs => enter [1, 2]; rw [Decimal.toRat_eq_sign_mul_abs b]
  rwa [← mul_sub, add_sub_cancel_left, Decimal.abs_sign_mul, abs_of_nonneg hnonneg]

/-- The stored digits are no more than the rational that is read back. -/
theorem abs_toRat_le_abs {b : Decimal} {q : ℚ} (hb : recurringRat? b = some q) : |b.toRat| ≤ |q| := by
  obtain ⟨t, hnonneg, -, rfl⟩ := exists_lack_of_recurringRat? hb
  rw [Decimal.abs_sign_mul, abs_of_nonneg (add_nonneg (abs_nonneg _) hnonneg)]
  exact le_add_of_nonneg_right hnonneg

/-! ## Terminating values -/

section Terminating

variable {q : ℚ} {places : Nat} {units : ℤ}

theorem num_mul_of_isLeastPlaces (h : IsLeastPlaces q places units) :
    q.num * ((10 ^ places / q.den : Nat) : ℤ) = units := by
  obtain ⟨m, hm⟩ := (den_dvd_iff q places).2 ⟨units, h.value⟩
  have hval := h.value
  have hpow : (10 : ℚ) ^ places = q.den * m := by exact_mod_cast hm
  rw [hpow, ← mul_assoc, Rat.mul_den_eq_num] at hval
  rw [hm, Nat.mul_div_cancel_left m q.den_pos]
  exact_mod_cast hval

theorem ofRatWithin_of_terminates (h : IsLeastPlaces q places units) (budget : ℤ) :
    ofRatWithin q budget = (Decimal.ofScaled units (-places)).map .big := by
  unfold ofRatWithin terminating
  rw [h.terminatingPlaces?_eq]
  simp only [num_mul_of_isLeastPlaces h]

theorem ofRat_of_terminates (h : IsLeastPlaces q places units) :
    ofRat q = (Decimal.ofScaled units (-places)).map .big :=
  ofRatWithin_of_terminates h Expansion.defaultBudget

theorem toRat_of_isLeastPlaces (h : IsLeastPlaces q places units) :
    Decimal.toRat ⟨units < 0, units.natAbs, -places⟩ = q := by
  rw [Decimal.toRat_ofSigned, ← h.value, Decimal.tenPow_neg_natCast, Nat.cast_pow, Nat.cast_ofNat, mul_assoc,
    mul_inv_cancel₀ (by positivity), mul_one]

theorem ofRatWithin_of_inRange (h : IsLeastPlaces q places units) (budget : ℤ)
    (hr : Decimal.inRange ⟨units < 0, units.natAbs, -places⟩ = true) :
    ofRatWithin q budget = .ok (.big ⟨units < 0, units.natAbs, -places⟩) := by
  rw [ofRatWithin_of_terminates h, Decimal.ofScaled, Decimal.make_eq_ok_iff.2 ⟨rfl, hr⟩]
  rfl

theorem exists_ofRatWithin_eq_error (h : IsLeastPlaces q places units) (budget : ℤ)
    (hr : Decimal.inRange ⟨units < 0, units.natAbs, -places⟩ = false) : ∃ e, ofRatWithin q budget = .error e := by
  obtain ⟨e, he⟩ := Decimal.exists_make_eq_error hr
  exact ⟨e, by rw [ofRatWithin_of_terminates h, Decimal.ofScaled, he]; rfl⟩

theorem ofRat_of_inRange (h : IsLeastPlaces q places units) (hr : Decimal.inRange ⟨units < 0, units.natAbs, -places⟩ = true) :
    ofRat q = .ok (.big ⟨units < 0, units.natAbs, -places⟩) :=
  ofRatWithin_of_inRange h Expansion.defaultBudget hr

theorem exists_ofRat_eq_error (h : IsLeastPlaces q places units)
    (hr : Decimal.inRange ⟨units < 0, units.natAbs, -places⟩ = false) : ∃ e, ofRat q = .error e :=
  exists_ofRatWithin_eq_error h Expansion.defaultBudget hr

theorem recovers_iff_of_terminates (h : IsLeastPlaces q places units) :
    Recovers q ↔ Decimal.inRange ⟨units < 0, units.natAbs, -places⟩ = true := by
  constructor
  · rintro ⟨x, hx, -⟩
    by_contra hr
    obtain ⟨e, he⟩ := exists_ofRat_eq_error h (Bool.eq_false_iff.2 hr)
    cases hx.symm.trans he
  · intro hr
    exact ⟨_, ofRat_of_inRange h hr, by rw [exactRat?, toRat_of_isLeastPlaces h]⟩

end Terminating

/-! ## The rationals that are recovered -/

/-- When a stored rational is read back. A terminating one is whenever its decimal is in range, a
complete expansion is unless a valid split starts before its cycle, and an incomplete one is read
back as nothing unless its digits have a valid split. Recovered rationals are equal as numbers
exactly if they are equal. -/
theorem recovers_iff (q : ℚ) :
    (∀ places units, IsLeastPlaces q places units →
      (Recovers q ↔ Decimal.inRange ⟨units < 0, units.natAbs, -places⟩ = true)) ∧
    (∀ whole lead cycle, IsExpansion q whole lead cycle → ¬ Terminates q →
      (lead.length + cycle.length ≤ 10000 → (Recovers q ↔
        ¬ ∃ s l, s < lead.length ∧ Cycle.Valid (lead ++ (List.replicate Cycle.repeats cycle).flatten) s l)) ∧
      (10000 < lead.length + cycle.length → ∃ d, ofRat q = .ok (.recurring d) ∧
        (recurringRat? d = none ↔
          ¬ ∃ s l, Cycle.Valid ((List.range 10000).map fun i => digitChar (digitAt q i)) s l))) ∧
    ∀ q', Recovers q → Recovers q' → ∃ x x', ofRat q = .ok x ∧ ofRat q' = .ok x' ∧
      Number.equals (.ofReal x) (.ofReal x') = .ok (decide (q = q')) := by
  refine ⟨fun places units h => recovers_iff_of_terminates h, fun whole lead cycle h hq => ⟨?_, ?_⟩, ?_⟩
  · exact recovers_iff_of_complete h hq
  · exact recurringRat?_eq_none_iff h hq
  · rintro q' ⟨x, hx, hval⟩ ⟨x', hx', hval'⟩
    refine ⟨x, x', hx, hx', ?_⟩
    rw [equals_ofReal_of_exactRat? hval hval']
    rfl

/-- A sixth is read back, though its lead does not belong to the cycle. -/
theorem recovers_sixth : Recovers (1 / 6) := by
  have hq : ¬ Terminates (1 / 6) := (terminatingPlaces?_eq_none_iff _).1 (by decide +kernel)
  have h : IsExpansion (1 / 6) 0 ['1'] ['6'] :=
    @isExpansion_of_ofNat (1 / 6) hq false 0 10000 ['1'] ['6'] (by decide +kernel)
  refine (((recovers_iff (1 / 6)).2.1 0 ['1'] ['6'] h hq).1 (by decide)).2 ?_
  rintro ⟨s, l, hs, hv⟩
  have hl := hv.pos
  have hfits := hv.fits
  have hrec := hv.recurs s le_rfl
  simp only [List.length_singleton, Cycle.repeats] at hs hfits
  obtain rfl : s = 0 := by omega
  obtain rfl : l = 1 := by
    have : (['1'] ++ (List.replicate 4 ['6']).flatten).length = 5 := rfl
    omega
  exact absurd (hrec (by decide)) (by decide)

/-- The digits 1333313333133331 in front of the cycle 3 continue a cycle of five digits, and so the
stored value is read back as another rational. -/
theorem not_recovers_long_lead :
    IsExpansion (1999969999699997 / 15000000000000000) 0 "1333313333133331".toList ['3'] ∧
      ¬ Terminates (1999969999699997 / 15000000000000000) ∧
      ∃ x, ofRat (1999969999699997 / 15000000000000000) = .ok x ∧ x.exactRat? = some (13333 / 99999) ∧
        ∃ y, ofRat (13333 / 99999) = .ok y ∧ Number.equals (.ofReal x) (.ofReal y) = .ok true := by
  have hq : ¬ Terminates (1999969999699997 / 15000000000000000) :=
    (terminatingPlaces?_eq_none_iff _).1 (by decide +kernel)
  refine ⟨@isExpansion_of_ofNat _ hq false 0 10000 _ _ (by decide +kernel), hq,
    .recurring ⟨false, 13333133331333313333, -20⟩, by decide +kernel, by decide +kernel,
    .recurring ⟨false, 13333133331333313333, -20⟩, by decide +kernel, by decide +kernel⟩

end Reckon.Real
