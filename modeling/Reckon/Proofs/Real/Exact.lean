/-
Exact arithmetic computes with the rationals behind its operands. A sum, difference, product,
quotient or remainder is the number of the exact result, so only a zero divisor and a result that
no decimal holds make it fail. Decimals with finitely many places are closed under all of it but
the quotient, and there the laws of a ring hold as far as the intermediate results are decimals.
-/
import Reckon.Proofs.Decimal.Magnitude
import Reckon.Proofs.Real.Approximation
import Reckon.Proofs.Real.Combination

namespace Reckon.Real

open Reckon.Expansion

/-! ## Operands -/

/-- A number that stores a decimal exactly, with its value. -/
inductive HasDecimal : Real → ℚ → Prop
  | small {f : Format} (x : FiniteBinary f) : HasDecimal (.small f x) x.toDecimal.toRat
  | big (d : Decimal) : HasDecimal (.big d) d.toRat

/-- A number with the rational it stands for: a stored decimal, or a repeating value with a complete
expansion whose lead is short against its cycle. -/
inductive StandsFor : Real → ℚ → Prop
  | decimal {x : Real} {q : ℚ} : HasDecimal x q → StandsFor x q
  | repeating {x : Real} {q : ℚ} {whole : Nat} {lead cycle : List Char} : IsExpansion q whole lead cycle →
      ¬ Terminates q → lead.length + cycle.length ≤ 10000 → lead.length ≤ 8 * cycle.length + 7 →
      ofRat q = .ok x → StandsFor x q

theorem HasDecimal.exactRat? {x : Real} {q : ℚ} (h : HasDecimal x q) : x.exactRat? = some q := by
  cases h <;> rfl

theorem StandsFor.exactRat? {x : Real} {q : ℚ} (h : StandsFor x q) : x.exactRat? = some q := by
  cases h with
  | decimal h => exact h.exactRat?
  | repeating h hq hlen hlead hx =>
    obtain ⟨y, hy, hval⟩ := recovers_of_short_lead h hq hlen hlead
    rw [hx] at hy
    obtain rfl := Except.ok.inj hy
    exact hval

/-- Digits that are all zero are read back as zero. -/
theorem eq_zero_of_recurringRat? {d : Decimal} {q : ℚ} (hq : recurringRat? d = some q) (hd : d.coefficient = 0) :
    q = 0 := by
  obtain ⟨s, l, hvalid, rfl⟩ := exists_valid_of_recurringRat? hq
  have hwhole : d.wholePart = 0 := by rw [Decimal.wholePart_eq, (Decimal.toRat_eq_zero_iff d).2 hd]; simp
  have hdigits : Digits.toNat d.fractionDigits = 0 := by
    unfold Decimal.fractionDigits
    split
    · rfl
    · rw [Digits.toNat_padded, hd, Nat.zero_mod]
  have hlast : Digits.toNat (d.fractionDigits.drop (d.fractionDigits.length - l)) = 0 := by
    have hsplit := Digits.toNat_append (d.fractionDigits.take (d.fractionDigits.length - l))
      (d.fractionDigits.drop (d.fractionDigits.length - l))
    rw [List.take_append_drop, hdigits] at hsplit
    omega
  rw [hvalid.value_eq, hwhole, hdigits, hlast]
  simp

theorem StandsFor.isZero_iff {x : Real} {q : ℚ} (h : StandsFor x q) : x.isZero = true ↔ q = 0 := by
  cases h with
  | decimal h =>
    cases h with
    | small x => exact (Decimal.isZero_iff _).trans (Decimal.toRat_eq_zero_iff _).symm
    | big d => exact (Decimal.isZero_iff _).trans (Decimal.toRat_eq_zero_iff _).symm
  | repeating h hq hlen hlead hx =>
    have hne : q ≠ 0 := by
      rintro rfl
      exact hq ⟨0, 0, by simp⟩
    have hval := (StandsFor.repeating h hq hlen hlead hx).exactRat?
    rw [ofRat_of_not_terminates hq] at hx
    obtain rfl := Except.ok.inj hx
    exact iff_of_false (fun hzero => hne (eq_zero_of_recurringRat? hval ((Decimal.isZero_iff _).1 hzero))) hne

/-! ## Operations on rationals -/

/-- The number that stands for a rational. -/
def rational (q : ℚ) : Outcome Number := (ofRat q).map .ofReal

/-- A rational cut to an integer. -/
def towardsZero (q : ℚ) : ℤ := if q < 0 then ⌈q⌉ else ⌊q⌋

theorem truncateToInt_eq (q : ℚ) : truncateToInt q = towardsZero q := by
  unfold truncateToInt towardsZero
  split
  · rename_i hneg
    have hnum : 0 ≤ -q.num := by
      have := Rat.num_neg.2 hneg
      omega
    rw [Rat.ceil_def', ← Int.tdiv_eq_ediv_of_nonneg hnum, Int.neg_tdiv, neg_neg]
  · rename_i hpos
    rw [Rat.floor_def', Int.tdiv_eq_ediv_of_nonneg (Rat.num_nonneg.2 (not_lt.1 hpos))]

section Exact

variable {a b : Real} {p q : ℚ}

theorem add_of_exactRat? (ha : a.exactRat? = some p) (hb : b.exactRat? = some q) : a.add b = ofRat (p + q) := by
  rw [add_of_not_infinite (isInfinite_of_exactRat? ha) (isInfinite_of_exactRat? hb), combine_of_exactRat? _ _ ha hb]

theorem sub_of_exactRat? (ha : a.exactRat? = some p) (hb : b.exactRat? = some q) : a.sub b = ofRat (p - q) := by
  rw [sub_of_not_infinite (isInfinite_of_exactRat? ha) (isInfinite_of_exactRat? hb), combine_of_exactRat? _ _ ha hb]

theorem mul_of_exactRat? (ha : a.exactRat? = some p) (hb : b.exactRat? = some q) : a.mul b = ofRat (p * q) := by
  rw [mul_of_not_infinite (isInfinite_of_exactRat? ha) (isInfinite_of_exactRat? hb), combine_of_exactRat? _ _ ha hb]

theorem div_of_exactRat? (ha : a.exactRat? = some p) (hb : b.exactRat? = some q) (hzero : b.isZero = false) :
    a.div b = ofRat (p / q) := by
  rw [div_of_not_infinite (isInfinite_of_exactRat? ha) (isInfinite_of_exactRat? hb) hzero, combine_of_exactRat? _ _ ha hb]

theorem mod_of_exactRat? (ha : a.exactRat? = some p) (hb : b.exactRat? = some q) (hzero : b.isZero = false) :
    a.mod b = ofRat (p - q * towardsZero (p / q)) := by
  rw [mod_of_not_infinite (isInfinite_of_exactRat? ha) (isInfinite_of_exactRat? hb) hzero, combine_of_exactRat? _ _ ha hb,
    truncateToInt_eq]

theorem number_add_of_exactRat? (ha : a.exactRat? = some p) (hb : b.exactRat? = some q) :
    Number.add (.ofReal a) (.ofReal b) = rational (p + q) :=
  (binary_ofReal _ _ _ (isNaN_of_exactRat? ha) (isNaN_of_exactRat? hb)).trans (by rw [add_of_exactRat? ha hb, rational])

theorem number_sub_of_exactRat? (ha : a.exactRat? = some p) (hb : b.exactRat? = some q) :
    Number.sub (.ofReal a) (.ofReal b) = rational (p - q) :=
  (binary_ofReal _ _ _ (isNaN_of_exactRat? ha) (isNaN_of_exactRat? hb)).trans (by rw [sub_of_exactRat? ha hb, rational])

theorem number_mul_of_exactRat? (ha : a.exactRat? = some p) (hb : b.exactRat? = some q) :
    Number.mul (.ofReal a) (.ofReal b) = rational (p * q) :=
  (binary_ofReal _ _ _ (isNaN_of_exactRat? ha) (isNaN_of_exactRat? hb)).trans (by rw [mul_of_exactRat? ha hb, rational])

theorem number_div_of_exactRat? (ha : a.exactRat? = some p) (hb : b.exactRat? = some q) (hzero : b.isZero = false) :
    Number.div (.ofReal a) (.ofReal b) = rational (p / q) :=
  (binary_ofReal _ _ _ (isNaN_of_exactRat? ha) (isNaN_of_exactRat? hb)).trans (by rw [div_of_exactRat? ha hb hzero, rational])

theorem number_mod_of_exactRat? (ha : a.exactRat? = some p) (hb : b.exactRat? = some q) (hzero : b.isZero = false) :
    Number.mod (.ofReal a) (.ofReal b) = rational (p - q * towardsZero (p / q)) :=
  (binary_ofReal _ _ _ (isNaN_of_exactRat? ha) (isNaN_of_exactRat? hb)).trans (by rw [mod_of_exactRat? ha hb hzero, rational])

theorem number_div_of_isZero (ha : a.isNaN = false) (hb : b.isNaN = false) (hzero : b.isZero = true) :
    Number.div (.ofReal a) (.ofReal b) = fail .divisionByZero := by
  refine (binary_ofReal _ _ _ ha hb).trans ?_
  unfold div
  rw [if_pos hzero]
  rfl

theorem number_mod_of_isZero (ha : a.isNaN = false) (hb : b.isNaN = false) (hzero : b.isZero = true) :
    Number.mod (.ofReal a) (.ofReal b) = fail .divisionByZero := by
  refine (binary_ofReal _ _ _ ha hb).trans ?_
  unfold mod
  rw [if_pos hzero]
  rfl

end Exact

/-! ## Results with finitely many places -/

theorem terminates_toRat (d : Decimal) : Terminates d.toRat := ⟨_, d.exists_toRat_mul_pow⟩

theorem terminates_intCast (n : ℤ) : Terminates n := ⟨0, n, by simp⟩

theorem terminates_add {p q : ℚ} (hp : Terminates p) (hq : Terminates q) : Terminates (p + q) := by
  obtain ⟨k, n, hn⟩ := hp
  obtain ⟨l, m, hm⟩ := hq
  refine ⟨k + l, n * 10 ^ l + m * 10 ^ k, ?_⟩
  push_cast
  rw [← hn, ← hm]
  ring

theorem terminates_mul {p q : ℚ} (hp : Terminates p) (hq : Terminates q) : Terminates (p * q) := by
  obtain ⟨k, n, hn⟩ := hp
  obtain ⟨l, m, hm⟩ := hq
  refine ⟨k + l, n * m, ?_⟩
  push_cast
  rw [← hn, ← hm]
  ring

theorem terminates_pow {q : ℚ} (h : Terminates q) (n : Nat) : Terminates (q ^ n) := by
  induction n with
  | zero =>
    rw [pow_zero]
    exact_mod_cast terminates_intCast 1
  | succ n ih =>
    rw [pow_succ]
    exact terminates_mul ih h

theorem terminates_sub {p q : ℚ} (hp : Terminates p) (hq : Terminates q) : Terminates (p - q) := by
  have hneg := terminates_mul (terminates_intCast (-1)) hq
  rw [Int.cast_neg, Int.cast_one, neg_one_mul] at hneg
  rw [sub_eq_add_neg]
  exact terminates_add hp hneg

theorem HasDecimal.terminates {x : Real} {q : ℚ} (h : HasDecimal x q) : Terminates q := by
  cases h <;> exact terminates_toRat _

/-- Some decimal in range has the value. -/
def Representable (q : ℚ) : Prop := ∃ d : Decimal, d.inRange = true ∧ d.toRat = q

theorem representable_zero : Representable 0 := ⟨.zero, by decide +kernel, rfl⟩

/-- The result is the decimal of the rational, without a trailing zero behind the point; it is a
failure only if no decimal has the value. -/
structure GivesDecimal (result : Outcome Number) (q : ℚ) : Prop where
  ok : Representable q → ∃ d, result = .ok (.ofReal (.big d)) ∧ d.toRat = q ∧ d.exponent ≤ 0 ∧
    (d.exponent < 0 → ¬ 10 ∣ d.coefficient)
  error : ¬ Representable q → ∃ e, result = .error e

section Terminating

variable {q : ℚ} {places : Nat} {units : ℤ}

/-- The decimal over the least number of places is in range if any decimal of the value is. -/
theorem inRange_iff_representable (h : IsLeastPlaces q places units) :
    Decimal.inRange ⟨units < 0, units.natAbs, -places⟩ = true ↔ Representable q := by
  have hvalue := toRat_of_isLeastPlaces h
  constructor
  · exact fun hr => ⟨_, hr, hvalue⟩
  · rintro ⟨d, hd, hdq⟩
    obtain ⟨n, hn⟩ := d.exists_toRat_mul_pow
    rw [hdq, Decimal.length_fractionDigits] at hn
    have hleast := h.least _ _ hn
    rw [Decimal.inRange_iff] at hd ⊢
    have hmin : Decimal.minExponent ≤ 0 := by decide
    refine ⟨by simp only; omega, ?_⟩
    have habs : |Decimal.toRat ⟨units < 0, units.natAbs, -places⟩| = |d.toRat| := by rw [hvalue, hdq]
    by_cases hzero : units.natAbs = 0
    · have hplaces : places = 0 := by
        have hq : q = 0 := by rw [← hvalue, Decimal.toRat_eq_zero_iff]; exact hzero
        have := h.least 0 0 (by rw [hq]; simp)
        omega
      have hadjusted : ∀ negative, Decimal.adjusted ⟨negative, 0, -((0 : Nat) : ℤ)⟩ ≤ Decimal.maxExponent := by
        with_unfolding_all decide
      rw [hplaces, hzero]
      exact hadjusted _
    · exact (Decimal.adjusted_eq_of_abs_toRat hzero habs).trans_le hd.2

theorem not_ten_dvd_of_isLeastPlaces (h : IsLeastPlaces q places units) (hplaces : 0 < places) :
    ¬ 10 ∣ units.natAbs := by
  intro hdvd
  obtain ⟨m, hm⟩ := Int.natCast_dvd.2 hdvd
  obtain ⟨k, rfl⟩ : ∃ k, places = k + 1 := ⟨places - 1, by omega⟩
  have hless : q * 10 ^ k = m := by
    have hvalue := h.value
    rw [hm, pow_succ, ← mul_assoc] at hvalue
    push_cast at hvalue
    linarith
  have := h.least k m hless
  omega

theorem givesDecimal_rational (hq : Terminates q) : GivesDecimal (rational q) q := by
  obtain ⟨places, units, h⟩ := exists_isLeastPlaces hq
  have hrange := inRange_iff_representable h
  constructor
  · intro hr
    refine ⟨⟨units < 0, units.natAbs, -places⟩, ?_, toRat_of_isLeastPlaces h, by simp, fun hneg => ?_⟩
    · rw [rational, ofRat_of_inRange h (hrange.2 hr)]
      rfl
    · exact not_ten_dvd_of_isLeastPlaces h (by simp only at hneg; omega)
  · intro hr
    obtain ⟨e, he⟩ := exists_ofRat_eq_error h (Bool.eq_false_iff.2 (hrange.not.2 hr))
    exact ⟨e, by rw [rational, he]; rfl⟩

theorem exists_rational (hq : Terminates q) (hr : Representable q) :
    ∃ x, rational q = .ok (.ofReal x) ∧ HasDecimal x q := by
  obtain ⟨d, hd, rfl, -⟩ := (givesDecimal_rational hq).ok hr
  exact ⟨.big d, hd, .big d⟩

end Terminating

/-! ## The laws of a ring -/

/-- Both succeed, with numbers that are equal. -/
def SameNumber (r s : Outcome Number) : Prop := ∃ x y, r = .ok x ∧ s = .ok y ∧ Number.equals x y = .ok true

theorem sameNumber_rational {q : ℚ} (hq : Terminates q) (hr : Representable q) :
    SameNumber (rational q) (rational q) := by
  obtain ⟨x, hx, hval⟩ := exists_rational hq hr
  refine ⟨_, _, hx, hx, ?_⟩
  rw [equals_ofReal_of_exactRat? hval.exactRat? hval.exactRat?, beq_self_eq_true]

/-- Addition and multiplication are associative on three numbers and multiplication distributes over
addition, where the results are decimals. -/
structure RingLaws (x y z : Number) (p q r : ℚ) : Prop where
  add_assoc : Representable (p + q) → Representable (q + r) → Representable (p + q + r) →
    SameNumber (do Number.add (← x.add y) z) (do x.add (← y.add z))
  mul_assoc : Representable (p * q) → Representable (q * r) → Representable (p * q * r) →
    SameNumber (do Number.mul (← x.mul y) z) (do x.mul (← y.mul z))
  mul_add : Representable (q + r) → Representable (p * q) → Representable (p * r) → Representable (p * (q + r)) →
    SameNumber (do x.mul (← y.add z)) (do Number.add (← x.mul y) (← x.mul z))

theorem ringLaws_of_hasDecimal {a b c : Real} {p q r : ℚ} (ha : HasDecimal a p) (hb : HasDecimal b q)
    (hc : HasDecimal c r) : RingLaws (.ofReal a) (.ofReal b) (.ofReal c) p q r where
  add_assoc hpq hqr hsum := by
    obtain ⟨x, hx, hxval⟩ := exists_rational (terminates_add ha.terminates hb.terminates) hpq
    obtain ⟨y, hy, hyval⟩ := exists_rational (terminates_add hb.terminates hc.terminates) hqr
    rw [number_add_of_exactRat? ha.exactRat? hb.exactRat?, number_add_of_exactRat? hb.exactRat? hc.exactRat?, hx, hy]
    show SameNumber (Number.add (.ofReal x) (.ofReal c)) (Number.add (.ofReal a) (.ofReal y))
    rw [number_add_of_exactRat? hxval.exactRat? hc.exactRat?, number_add_of_exactRat? ha.exactRat? hyval.exactRat?,
      ← add_assoc]
    exact sameNumber_rational (terminates_add (terminates_add ha.terminates hb.terminates) hc.terminates) hsum
  mul_assoc hpq hqr hproduct := by
    obtain ⟨x, hx, hxval⟩ := exists_rational (terminates_mul ha.terminates hb.terminates) hpq
    obtain ⟨y, hy, hyval⟩ := exists_rational (terminates_mul hb.terminates hc.terminates) hqr
    rw [number_mul_of_exactRat? ha.exactRat? hb.exactRat?, number_mul_of_exactRat? hb.exactRat? hc.exactRat?, hx, hy]
    show SameNumber (Number.mul (.ofReal x) (.ofReal c)) (Number.mul (.ofReal a) (.ofReal y))
    rw [number_mul_of_exactRat? hxval.exactRat? hc.exactRat?, number_mul_of_exactRat? ha.exactRat? hyval.exactRat?,
      ← mul_assoc]
    exact sameNumber_rational (terminates_mul (terminates_mul ha.terminates hb.terminates) hc.terminates) hproduct
  mul_add hqr hpq hpr hsum := by
    obtain ⟨x, hx, hxval⟩ := exists_rational (terminates_add hb.terminates hc.terminates) hqr
    obtain ⟨y, hy, hyval⟩ := exists_rational (terminates_mul ha.terminates hb.terminates) hpq
    obtain ⟨z, hz, hzval⟩ := exists_rational (terminates_mul ha.terminates hc.terminates) hpr
    rw [number_add_of_exactRat? hb.exactRat? hc.exactRat?, number_mul_of_exactRat? ha.exactRat? hb.exactRat?,
      number_mul_of_exactRat? ha.exactRat? hc.exactRat?, hx, hy, hz]
    show SameNumber (Number.mul (.ofReal a) (.ofReal x)) (Number.add (.ofReal y) (.ofReal z))
    rw [number_mul_of_exactRat? ha.exactRat? hxval.exactRat?, number_add_of_exactRat? hyval.exactRat? hzval.exactRat?,
      ← mul_add]
    exact sameNumber_rational (terminates_mul ha.terminates (terminates_add hb.terminates hc.terminates)) hsum

/-! ## Exact arithmetic -/

/-- The operations give the numbers that stand for the results on rationals; there is no quotient by
zero. -/
structure ComputesExactly (x y : Number) (p q : ℚ) : Prop where
  add : x.add y = rational (p + q)
  sub : x.sub y = rational (p - q)
  mul : x.mul y = rational (p * q)
  div : q ≠ 0 → x.div y = rational (p / q)
  mod : q ≠ 0 → x.mod y = rational (p - q * towardsZero (p / q))
  div_zero : q = 0 → x.div y = fail .divisionByZero
  mod_zero : q = 0 → x.mod y = fail .divisionByZero

theorem computesExactly_of_standsFor {a b : Real} {p q : ℚ} (ha : StandsFor a p) (hb : StandsFor b q) :
    ComputesExactly (.ofReal a) (.ofReal b) p q where
  add := number_add_of_exactRat? ha.exactRat? hb.exactRat?
  sub := number_sub_of_exactRat? ha.exactRat? hb.exactRat?
  mul := number_mul_of_exactRat? ha.exactRat? hb.exactRat?
  div hq := number_div_of_exactRat? ha.exactRat? hb.exactRat? (Bool.eq_false_iff.2 (hb.isZero_iff.not.2 hq))
  mod hq := number_mod_of_exactRat? ha.exactRat? hb.exactRat? (Bool.eq_false_iff.2 (hb.isZero_iff.not.2 hq))
  div_zero hq := number_div_of_isZero (isNaN_of_exactRat? ha.exactRat?) (isNaN_of_exactRat? hb.exactRat?)
    (hb.isZero_iff.2 hq)
  mod_zero hq := number_mod_of_isZero (isNaN_of_exactRat? ha.exactRat?) (isNaN_of_exactRat? hb.exactRat?)
    (hb.isZero_iff.2 hq)

/-- Arithmetic on numbers that stand for rationals gives the numbers that stand for the exact
results. On stored decimals all but the quotient are decimals again, without trailing zeros, and the
laws of a ring hold, as far as there are decimals of the results. -/
theorem exact_arithmetic :
    (∀ {a b : Real} {p q : ℚ}, StandsFor a p → StandsFor b q → ComputesExactly (.ofReal a) (.ofReal b) p q) ∧
    (∀ {a b : Real} {p q : ℚ}, HasDecimal a p → HasDecimal b q →
      GivesDecimal (Number.add (.ofReal a) (.ofReal b)) (p + q) ∧
      GivesDecimal (Number.sub (.ofReal a) (.ofReal b)) (p - q) ∧
      GivesDecimal (Number.mul (.ofReal a) (.ofReal b)) (p * q) ∧
      (q ≠ 0 → GivesDecimal (Number.mod (.ofReal a) (.ofReal b)) (p - q * towardsZero (p / q)))) ∧
    (∀ {a b c : Real} {p q r : ℚ}, HasDecimal a p → HasDecimal b q → HasDecimal c r →
      RingLaws (.ofReal a) (.ofReal b) (.ofReal c) p q r) := by
  refine ⟨computesExactly_of_standsFor, fun ha hb => ?_, ringLaws_of_hasDecimal⟩
  have hexact := computesExactly_of_standsFor (.decimal ha) (.decimal hb)
  rw [hexact.add, hexact.sub, hexact.mul]
  refine ⟨givesDecimal_rational (terminates_add ha.terminates hb.terminates),
    givesDecimal_rational (terminates_sub ha.terminates hb.terminates),
    givesDecimal_rational (terminates_mul ha.terminates hb.terminates), fun hq => ?_⟩
  rw [hexact.mod hq]
  exact givesDecimal_rational (terminates_sub ha.terminates (terminates_mul hb.terminates (terminates_intCast _)))

/-- A third and a half: their sum repeats, and the cube of the half is the same in both orders. -/
theorem exact_arithmetic_third_half : ∃ third half : Number,
    third = .ofReal (.recurring ⟨false, 3333, -4⟩) ∧ half = .ofReal (.big ⟨false, 5, -1⟩) ∧
      ComputesExactly third half (1 / 3) (1 / 2) ∧ rational (1 / 3 + 1 / 2) = .ok (.ofReal (.recurring ⟨false, 83333, -5⟩)) ∧
      GivesDecimal (half.mul half) (1 / 2 * (1 / 2)) ∧
      SameNumber (do Number.mul (← half.mul half) half) (do half.mul (← half.mul half)) := by
  have hthird : StandsFor (.recurring ⟨false, 3333, -4⟩) (1 / 3) := by
    have hq : ¬ Terminates (1 / 3) := (terminatingPlaces?_eq_none_iff _).1 (by with_unfolding_all decide)
    have h : IsExpansion (1 / 3) 0 [] ['3'] := @isExpansion_of_ofNat (1 / 3) hq false 0 10000 _ _ (by with_unfolding_all decide)
    exact .repeating h hq (by decide) (by decide) (by with_unfolding_all decide)
  have hhalf : HasDecimal (.big ⟨false, 5, -1⟩) (1 / 2) := by
    have hvalue : Decimal.toRat ⟨false, 5, -1⟩ = 1 / 2 := by with_unfolding_all decide
    exact hvalue ▸ HasDecimal.big ⟨false, 5, -1⟩
  have hsquare : Representable (1 / 2 * (1 / 2)) := ⟨⟨false, 25, -2⟩, by with_unfolding_all decide, by with_unfolding_all decide⟩
  have hcube : Representable (1 / 2 * (1 / 2) * (1 / 2)) := ⟨⟨false, 125, -3⟩, by with_unfolding_all decide, by with_unfolding_all decide⟩
  exact ⟨_, _, rfl, rfl, exact_arithmetic.1 hthird (.decimal hhalf), by with_unfolding_all decide,
    (exact_arithmetic.2.1 hhalf hhalf).2.2.1, (exact_arithmetic.2.2 hhalf hhalf hhalf).mul_assoc hsquare hsquare hcube⟩

end Reckon.Real
