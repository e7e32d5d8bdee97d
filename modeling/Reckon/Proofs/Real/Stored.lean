/-
What is stored for a rational. One that terminates is stored exactly, with as few digits behind the point as
any decimal of its value has. Any other one is stored cut towards zero: after its lead and four cycles if the
budget pays for lead and cycle, else after as many digits as the budget pays for. Conversely a rational that
is read back from stored digits has their sign and lies at most a unit of the last place beyond them.
-/
import Reckon.Proofs.Decimal.Magnitude
import Reckon.Proofs.Real.Recurring

namespace Reckon

namespace Expansion

/-- A rational that terminates has no more places than its denominator has bits. -/
theorem den_dvd_of_lt {q : ℚ} {b : Nat} (hq : Terminates q) (h : q.den < 2 ^ b) : q.den ∣ 10 ^ b := by
  obtain ⟨k, hk⟩ := (terminates_iff q).1 hq
  have hpower : ∀ p, 2 ≤ p → q.den.factorization p ≤ b := fun p hp => by
    refine (Nat.pow_lt_pow_iff_right one_lt_two).1 (lt_of_le_of_lt ?_ h) |>.le
    exact (Nat.pow_le_pow_left hp _).trans (Nat.ordProj_le p q.den_nz)
  have hlead : leadLength q.den ≤ b := by
    rw [leadLength_eq q.den_pos]
    exact max_le (hpower 2 le_rfl) (hpower 5 (by decide))
  exact (den_dvd_leadLength hk).2.trans (pow_dvd_pow 10 hlead)

end Expansion

namespace Real

open Reckon.Digits Reckon.Expansion

section

variable {q : ℚ}

/-! ## Values that terminate -/

/-- The decimal over the least number of places: no decimal of its value has fewer digits behind the point, and it
is stored if it is in range. -/
theorem stores_of_terminates (hq : Terminates q) (budget : ℤ) : ∃ d : Decimal, d.toRat = q ∧
    (∀ b : Decimal, b.toRat = q → d.fractionDigits.length ≤ b.fractionDigits.length) ∧
    (d.inRange = true → ofRatWithin q budget = .ok (.big d)) ∧
    (d.inRange = false → ∃ e, ofRatWithin q budget = .error e) := by
  obtain ⟨places, units, h⟩ := exists_isLeastPlaces hq
  refine ⟨⟨units < 0, units.natAbs, -places⟩, toRat_of_isLeastPlaces h, fun b hb => ?_,
    ofRatWithin_of_inRange h budget, exists_ofRatWithin_eq_error h budget⟩
  obtain ⟨n, hn⟩ := b.exists_toRat_mul_pow
  rw [hb] at hn
  rw [Decimal.length_fractionDigits, neg_neg, Int.toNat_natCast]
  exact h.least _ n hn

/-- A value that terminates and is stored is stored as a decimal. -/
theorem exists_decimal_of_ofRat {x : Real} (hq : Terminates q) (h : ofRat q = .ok x) :
    ∃ d : Decimal, x = .big d ∧ d.toRat = q := by
  obtain ⟨d, hd, -, hok, herror⟩ := stores_of_terminates hq defaultBudget
  unfold ofRat at h
  cases hrange : d.inRange with
  | true => exact ⟨d, Except.ok.inj (h.symm.trans (hok hrange)), hd⟩
  | false =>
    obtain ⟨e, he⟩ := herror hrange
    exact nomatch h.symm.trans he

/-! ## Repeating values -/

/-- A repeating value is cut after the stored places, towards zero. -/
theorem stores_of_not_terminates {whole : Nat} {lead cycle : List Char} (h : IsExpansion q whole lead cycle)
    (hq : ¬ Terminates q) (budget : ℤ) : ∃ d : Decimal, ofRatWithin q budget = .ok (.recurring d) ∧
      d.fractionDigits.length = storedPlaces lead.length cycle.length budget.toNat ∧
      d.toRat = Decimal.cut d.fractionDigits.length q := by
  rw [ofRatWithin_of_not_terminates hq, storedDigits_ofNat h hq]
  generalize storedPlaces lead.length cycle.length budget.toNat = k
  have hlength : (Decimal.fractionDigits ⟨q < 0, ⌊|q| * (10 ^ k : Nat)⌋₊, -(k : ℤ)⟩).length = k := by
    rw [Decimal.length_fractionDigits, neg_neg, Int.toNat_natCast]
  refine ⟨_, rfl, hlength, ?_⟩
  rw [hlength, Decimal.toRat_eq_sign, Decimal.cut, Decimal.tenPow_natCast]
  simp only [decide_eq_true_eq]

/-! ## Sizes and signs -/

/-- The decimal of a value that terminates is in range if exponents reach its size and a place in whose units it
is whole. -/
theorem inRange_of_isLeastPlaces {places a b : Nat} {units : ℤ} (h : IsLeastPlaces q places units) (hsize : |q| ≤ 10 ^ a)
    (hunits : ∃ n : ℤ, q * 10 ^ b = n) (ha : a < 10 ^ 18) (hb : b < 10 ^ 18) :
    Decimal.inRange ⟨units < 0, units.natAbs, -places⟩ = true := by
  obtain ⟨n, hn⟩ := hunits
  have hplaces := h.least b n hn
  refine Decimal.inRange_of_le (by rwa [toRat_of_isLeastPlaces h]) ?_ ?_ ha hb
  · exact neg_le_neg (Int.ofNat_le.2 hplaces)
  · exact (neg_nonpos.2 (Int.natCast_nonneg places)).trans (Int.natCast_nonneg a)

/-- A rational that is not too large and, if it terminates, does not have too many places is stored. -/
theorem exists_ofRat_eq_ok {a b : Nat} (hsize : |q| ≤ 10 ^ a) (hunits : Terminates q → ∃ n : ℤ, q * 10 ^ b = n)
    (ha : a < 10 ^ 18) (hb : b < 10 ^ 18) : ∃ x, ofRat q = .ok x := by
  by_cases hq : Terminates q
  · obtain ⟨places, units, h⟩ := exists_isLeastPlaces hq
    exact ⟨_, ofRat_of_inRange h (inRange_of_isLeastPlaces h hsize (hunits hq) ha hb)⟩
  · exact ⟨_, ofRat_of_not_terminates hq⟩

/-- A rational of so many bits is stored. -/
theorem exists_ofRat_of_lt {b : Nat} (hnum : q.num.natAbs < 2 ^ b) (hden : q.den < 2 ^ b) (hb : b < 10 ^ 18) :
    ∃ x, ofRat q = .ok x := by
  have hsize : |q| ≤ 10 ^ b := calc
    |q| = (q.num.natAbs : ℚ) / q.den := abs_eq_natAbs_div q
    _ ≤ q.num.natAbs := div_le_self (Nat.cast_nonneg _) (by exact_mod_cast q.den_pos)
    _ ≤ 2 ^ b := by exact_mod_cast hnum.le
    _ ≤ 10 ^ b := by gcongr; norm_num
  exact exists_ofRat_eq_ok hsize (fun hq => (den_dvd_iff q b).1 (den_dvd_of_lt hq hden)) hb hb

theorem make_not (negative : Bool) (coefficient : Nat) (e : ℤ) :
    Decimal.make (!negative) coefficient e = (Decimal.make negative coefficient e).map Decimal.neg := by
  have hrange : ∀ s, Decimal.inRange ⟨s, coefficient, e⟩ = Decimal.inRange ⟨negative, coefficient, e⟩ := fun _ => rfl
  unfold Decimal.make
  simp only [hrange]
  split
  · rfl
  · split <;> rfl

theorem storedDigits_not (negative : Bool) (num den budget : Nat) :
    storedDigits (Expansion.ofNat (!negative) num den budget) = (storedDigits (Expansion.ofNat negative num den budget)).neg := by
  unfold Expansion.ofNat
  simp only
  split
  · rfl
  split
  · rfl
  split <;> rfl

/-- The opposite of a rational is stored as the opposite number. -/
theorem ofRat_neg (hq : q ≠ 0) : ofRat (-q) = (ofRat q).map neg := by
  have hsign : ∀ {x y : ℤ}, x ≠ 0 → y = -x → decide (y < 0) = !decide (x < 0) := by
    rintro x y hx rfl
    rw [← decide_not, decide_eq_decide]
    omega
  by_cases hterm : Terminates q
  · obtain ⟨places, units, h⟩ := exists_isLeastPlaces hterm
    -- the same places and the negated units
    have hneg : IsLeastPlaces (-q) places (-units) := by
      refine ⟨by rw [neg_mul, h.value, Int.cast_neg], fun k n hn => h.least k (-n) ?_⟩
      rw [Int.cast_neg, ← hn, neg_mul, neg_neg]
    have hunits : units ≠ 0 := by
      rintro rfl
      have := h.value
      rw [Int.cast_zero, mul_eq_zero, or_iff_left (by positivity)] at this
      exact hq this
    rw [ofRat_of_terminates h, ofRat_of_terminates hneg, Decimal.ofScaled, Decimal.ofScaled, hsign hunits rfl,
      Int.natAbs_neg, make_not]
    cases Decimal.make (units < 0) units.natAbs (-places) <;> rfl
  · have hneg : ¬ Terminates (-q) := by
      rintro ⟨k, n, hn⟩
      exact hterm ⟨k, -n, by rw [Int.cast_neg, ← hn, neg_mul, neg_neg]⟩
    have hdecide : decide (-q < 0) = !decide (q < 0) := by
      rw [← decide_not, decide_eq_decide, not_lt, neg_lt_zero]
      exact ⟨le_of_lt, fun h => lt_of_le_of_ne h hq.symm⟩
    rw [ofRat_of_not_terminates hterm, ofRat_of_not_terminates hneg, hdecide, Rat.num_neg_eq_neg_num, Int.natAbs_neg,
      Rat.den_neg_eq_den, storedDigits_not]
    rfl

/-! ## What is stored and what is read back -/

/-- A rational is stored as a big number exactly if two and five are the only prime factors of its denominator: then
exactly and with the fewest digits behind the point, if only the decimal is in range. Any other one is stored as a
repeating value, cut after the digits of its lead and four cycles or of the budget. What is read back from any stored
digits has their sign, and it is at most a unit of the last place beyond them. -/
theorem ofRatWithin_stores {budget : ℤ} (hbudget : 0 ≤ budget) :
    (∀ d, ofRatWithin q budget = .ok (.big d) → ∀ p : Nat, p.Prime → p ∣ q.den → p = 2 ∨ p = 5) ∧
    ((∀ p : Nat, p.Prime → p ∣ q.den → p = 2 ∨ p = 5) → ∃ d : Decimal, d.toRat = q ∧
      (∀ b : Decimal, b.toRat = q → d.fractionDigits.length ≤ b.fractionDigits.length) ∧
      (d.inRange = true → ofRatWithin q budget = .ok (.big d)) ∧
      (d.inRange = false → ∃ e, ofRatWithin q budget = .error e)) ∧
    ((¬ ∀ p : Nat, p.Prime → p ∣ q.den → p = 2 ∨ p = 5) → ∃ lead cycle, IsCanonical q ⌊|q|⌋₊ lead cycle ∧
      ∃ d : Decimal, ofRatWithin q budget = .ok (.recurring d) ∧
        (d.fractionDigits.length : ℤ) =
          (if (lead.length : ℤ) + cycle.length ≤ budget then (lead.length : ℤ) + 4 * cycle.length else budget) ∧
        d.toRat = Decimal.cut d.fractionDigits.length q) ∧
    ∀ (d : Decimal) (r : ℚ), recurringRat? d = some r →
      r = (if d.negative then -1 else 1) * |r| ∧ |d.toRat| ≤ |r| ∧
        |r| ≤ |d.toRat| + Decimal.tenPow (-(d.fractionDigits.length : ℤ)) := by
  rw [← terminates_iff_primes]
  refine ⟨fun d hd => ?_, fun hq => stores_of_terminates hq budget, fun hq => ?_, fun d r hr => ?_⟩
  · by_contra hq
    rw [ofRatWithin_of_not_terminates hq] at hd
    cases hd
  · obtain ⟨lead, cycle, hcanonical, -⟩ := exists_isCanonical q
    obtain ⟨d, hd, hlength, hcut⟩ := stores_of_not_terminates (hcanonical.isExpansion hq) hq budget
    refine ⟨lead, cycle, hcanonical, d, hd, ?_, hcut⟩
    rw [hlength, storedPlaces, Cycle.repeats]
    split <;> split <;> omega
  · obtain ⟨s, l, hvalid, -⟩ := exists_valid_of_recurringRat? hr
    obtain ⟨t, hnonneg, hle, rfl⟩ := exists_lack_of_recurringRat? hr
    have hsize : 0 ≤ |d.toRat| + t := add_nonneg (abs_nonneg _) hnonneg
    rw [← Decimal.exponent_of_fractionDigits hvalid.ne_nil, Decimal.abs_sign_mul, abs_of_nonneg hsize]
    exact ⟨rfl, le_add_of_nonneg_right hnonneg, by linarith⟩

/-- Minus seven twelfths, with a budget that just pays for its lead and cycle. -/
theorem ofRatWithin_stores_seven_twelfths : (0 : ℤ) ≤ 3 ∧ (¬ ∀ p : Nat, p.Prime → p ∣ (-7 / 12 : ℚ).den → p = 2 ∨ p = 5) ∧
    ofRatWithin (-7 / 12) 3 = .ok (.recurring ⟨true, 583333, -6⟩) ∧
    Decimal.toRat ⟨true, 583333, -6⟩ = Decimal.cut 6 (-7 / 12) := by
  have heval : ofRatWithin (-7 / 12) 3 = .ok (.recurring ⟨true, 583333, -6⟩) := by decide +kernel
  obtain ⟨-, -, hrecurring, -⟩ := @ofRatWithin_stores (-7 / 12) 3 (by decide)
  have hprimes : ¬ ∀ p : Nat, p.Prime → p ∣ (-7 / 12 : ℚ).den → p = 2 ∨ p = 5 := by
    intro h
    have := h 3 Nat.prime_three (by decide +kernel)
    omega
  obtain ⟨lead, cycle, -, d, hd, -, hcut⟩ := hrecurring hprimes
  obtain rfl := Real.recurring.inj (Except.ok.inj (heval.symm.trans hd))
  rw [Decimal.length_fractionDigits] at hcut
  exact ⟨by decide, hprimes, heval, hcut⟩

end

end Real

end Reckon
