/-
What storing a repeating value afresh does to it. Digits without a visible cycle stay as they are, and a cycle
of zeros or nines becomes the exact decimal. Any other cycle is stored four times, which only cuts digits off:
the number stays the same as long as the search still splits the digits that are left as it did before, which
it does behind a lead that is short against the cycle. A cycle that the digit budget does not pay for is cut,
and with it the number is lost.
-/
import Reckon.Proofs.Decimal.Magnitude
import Reckon.Proofs.Real.Stored

namespace Reckon.Real

open Reckon.Digits Reckon.Expansion

/-- Normalizing leaves the rational as it is, and a second time leaves the number as it is. -/
structure NormalizeKeeps (x : Real) : Prop where
  value : (normalize x >>= toRat) = toRat x
  stable : (normalize x >>= normalize) = normalize x

/-- The decimal has the sign and the whole part of another and the given digits behind the point. -/
structure HasDigits (b d : Decimal) (digits : List Char) : Prop where
  negative : b.negative = d.negative
  whole : b.wholePart = d.wholePart
  fraction : b.fractionDigits = digits

section

variable {d b : Decimal} {q : ℚ} {lead cycle : List Char}

/-! ## What is read back -/

theorem recurringRat?_of_find (h : Cycle.find d.fractionDigits none = some (lead, cycle)) :
    recurringRat? d = some (value d.negative d.wholePart lead cycle) := by
  unfold recurringRat? Cycle.split
  rw [h, Option.map_some, Option.map_some, spelledRat, Decimal.integerDigits, toNat_ofNat]

theorem recurringRat?_of_find_none (h : Cycle.find d.fractionDigits none = none) : recurringRat? d = none := by
  unfold recurringRat? Cycle.split
  rw [h]
  rfl

theorem normalize_of_recurringRat? (h : recurringRat? d = some q) : normalize (.recurring d) = ofRat q := by
  unfold normalize
  simp only [h]

/-! ## What is kept -/

/-- What comes back the same from a second time is kept if its rational is. -/
theorem normalizeKeeps_of_eq {x y : Real} (h : normalize x = .ok y) (hy : normalize y = .ok y) (hrat : y.toRat = x.toRat) :
    NormalizeKeeps x := by
  constructor
  · rw [h]
    exact hrat
  · rw [h]
    exact hy

/-- Digits that show no cycle stay as they are. -/
theorem normalize_of_find_none (h : Cycle.find d.fractionDigits none = none) :
    normalize (.recurring d) = .ok (.recurring d) := by
  unfold normalize
  simp only [recurringRat?_of_find_none h]

/-- What is stored afresh and read back as the same rational is kept. -/
theorem normalizeKeeps_of_recurringRat? (h : recurringRat? d = some q) (hb : normalize (.recurring d) = .ok (.recurring b))
    (hrat : recurringRat? b = some q) : NormalizeKeeps (.recurring d) := by
  refine normalizeKeeps_of_eq hb ?_ ((toRat_recurring hrat).trans (toRat_recurring h).symm)
  rw [normalize_of_recurringRat? hrat, ← normalize_of_recurringRat? h, hb]

/-! ## Cycles of zeros or nines -/

/-- A rational with no more places than the digits that it is read from is in range unless these leave no room. -/
theorem inRange_of_recurringRat? {places : Nat} {units : ℤ} (h : IsLeastPlaces q places units) (hq : recurringRat? d = some q)
    (hplaces : places ≤ d.fractionDigits.length) (hd : d.inRange = true) (hroom : d.adjusted < Decimal.maxExponent) :
    Decimal.inRange ⟨units < 0, units.natAbs, -places⟩ = true := by
  rw [Decimal.inRange_iff] at hd ⊢
  have hmin : Decimal.minExponent ≤ 0 := by decide
  have hmax : 0 ≤ Decimal.maxExponent := by decide
  rw [Decimal.length_fractionDigits] at hplaces
  refine ⟨by simp only; omega, ?_⟩
  rcases eq_or_ne units.natAbs 0 with hzero | hne
  · rw [Decimal.adjusted_of_zero hzero]
    simp only
    omega
  · -- the value is at most a unit of the last digit above the digits
    have hlow := Decimal.tenPow_adjusted_le (d := ⟨units < 0, units.natAbs, -places⟩) hne
    rw [toRat_of_isLeastPlaces h] at hlow
    obtain ⟨t, hnonneg, hle, rfl⟩ := exists_lack_of_recurringRat? hq
    have hdigits : d.coefficient + 1 ≤ 10 ^ d.digitCount := lt_pow_width _
    have hpos : 0 < d.digitCount := width_pos _
    have hhigh : |d.toRat| + t ≤ Decimal.tenPow (d.adjusted + 1) := by
      calc |d.toRat| + t ≤ ((d.coefficient + 1 : Nat) : ℚ) * Decimal.tenPow d.exponent := by
            rw [Decimal.abs_toRat]
            push_cast
            linarith
        _ ≤ ((10 ^ d.digitCount : Nat) : ℚ) * Decimal.tenPow d.exponent :=
            mul_le_mul_of_nonneg_right (by exact_mod_cast hdigits) (Decimal.tenPow_pos _).le
        _ = Decimal.tenPow (d.adjusted + 1) := by
            rw [← Decimal.tenPow_natCast, ← Decimal.tenPow_add]
            congr 1
            unfold Decimal.adjusted
            omega
    rw [Decimal.abs_sign_mul, abs_of_nonneg (add_nonneg (abs_nonneg _) hnonneg)] at hlow
    have := Decimal.tenPow_le_tenPow.1 (hlow.trans hhigh)
    omega

/-- A cycle of zeros or nines becomes the exact decimal. -/
theorem normalize_of_constant (h : Cycle.find d.fractionDigits none = some (lead, cycle))
    (hcycle : cycle = ['0'] ∨ cycle = ['9']) : ∃ b : Decimal, toRat (.recurring d) = .ok b.toRat ∧
      (b.inRange = true → normalize (.recurring d) = .ok (.big b) ∧ NormalizeKeeps (.recurring d)) ∧
      (b.inRange = false → ∃ e, normalize (.recurring d) = .error e) ∧
      (d.inRange = true → d.adjusted < Decimal.maxExponent → b.inRange = true) := by
  have hrat := recurringRat?_of_find h
  obtain ⟨n, hn⟩ := value_mul_pow_of_constant d.negative d.wholePart lead hcycle
  generalize value d.negative d.wholePart lead cycle = q at hrat hn
  obtain ⟨places, units, hplaces⟩ := exists_isLeastPlaces ⟨lead.length, n, hn⟩
  have hlead : places ≤ d.fractionDigits.length := by
    have := hplaces.least _ _ hn
    have := (Cycle.spelled_of_find h).2.1
    omega
  have hvalue := toRat_of_isLeastPlaces hplaces
  have htoRat : toRat (.recurring d) = .ok (Decimal.toRat ⟨units < 0, units.natAbs, -places⟩) := by
    rw [hvalue, toRat_recurring hrat]
  refine ⟨⟨units < 0, units.natAbs, -places⟩, htoRat, fun hr => ?_, fun hr => ?_, inRange_of_recurringRat? hplaces hrat hlead⟩
  · have hbig := (normalize_of_recurringRat? hrat).trans (ofRat_of_inRange hplaces hr)
    exact ⟨hbig, normalizeKeeps_of_eq hbig rfl htoRat.symm⟩
  · rw [normalize_of_recurringRat? hrat]
    exact exists_ofRat_eq_error hplaces hr

/-! ## Other cycles -/

/-- A decimal with fewer digits behind the point than the shortest lead and cycle stands for another rational. -/
theorem toRat_ne_of_length_lt {whole : Nat} (h : IsExpansion q whole lead cycle) (hq : ¬ Terminates q)
    (hlength : b.fractionDigits.length < lead.length + cycle.length) : toRat (.recurring b) ≠ .ok q := by
  intro heq
  cases hrat : recurringRat? b with
  | none =>
    rw [toRat_eq_ok_iff.2 (toRat?_of_no_cycle hrat)] at heq
    exact hq ⟨_, Except.ok.inj heq ▸ b.exists_toRat_mul_pow⟩
  | some r =>
    rw [toRat_recurring hrat] at heq
    obtain rfl := Except.ok.inj heq
    obtain ⟨s, l, hvalid, hvalue⟩ := exists_valid_of_recurringRat? hrat
    have := hvalid.expansion_le hvalue.symm h
    have := hvalid.add_length_le
    omega

section

variable (h : Cycle.find d.fractionDigits none = some (lead, cycle))
include h

theorem isDigits_of_find : Notation.IsDigits lead ∧ Notation.IsDigits cycle := by
  obtain ⟨s, l, -, rfl, rfl⟩ := Cycle.exists_isFirst_of_find h
  exact ⟨fun c hc => d.fractionDigits_isDigit c (List.mem_of_mem_take hc),
    fun c hc => d.fractionDigits_isDigit c (List.mem_of_mem_drop (List.mem_of_mem_take hc))⟩

variable (hcycle : ¬ (cycle = ['0'] ∨ cycle = ['9']))
include hcycle

theorem not_terminates_of_find : ¬ Terminates (value d.negative d.wholePart lead cycle) :=
  ((Cycle.spelled_of_find h).1.terminates_iff (isDigits_of_find h).1 (isDigits_of_find h).2 _ _).not.2 hcycle

theorem isExpansion_of_find : IsExpansion (value d.negative d.wholePart lead cycle) d.wholePart lead cycle :=
  (Cycle.spelled_of_find h).1.isExpansion (isDigits_of_find h).1 (isDigits_of_find h).2 _ _ fun hnine => hcycle (.inr hnine)

/-- The digits that the cycle is read from are the first ones of the rational that is read. -/
theorem fractionDigits_eq_digitsAt : d.fractionDigits = digitsAt (value d.negative d.wholePart lead cycle).num.natAbs
    (value d.negative d.wholePart lead cycle).den 0 d.fractionDigits.length := by
  obtain ⟨hreduced, -, hspelled⟩ := Cycle.spelled_of_find h
  obtain ⟨hlead, hdigits⟩ := isDigits_of_find h
  have hspelling := hreduced.isSpelling hlead hdigits d.negative d.wholePart fun hnine => hcycle (.inr hnine)
  conv_lhs => rw [hspelled, funext (isSpelling_iff.1 hspelling).2, digitAt_eq]
  rw [Cycle.digitsAt_eq_range]

/-- Any other cycle is stored behind the same sign and whole part, with the first of the same digits. -/
theorem normalize_of_find : ∃ b, normalize (.recurring d) = .ok (.recurring b) ∧
    HasDigits b d (d.fractionDigits.take (storedPlaces lead.length cycle.length 10000)) := by
  have hrat := recurringRat?_of_find h
  have hq := not_terminates_of_find h hcycle
  have hexpansion := isExpansion_of_find h hcycle
  have hdigits := fractionDigits_eq_digitsAt h hcycle
  have hlong := (Cycle.spelled_of_find h).2.1
  generalize value d.negative d.wholePart lead cycle = q at hrat hq hexpansion hdigits
  have hnegative : decide (q < 0) = d.negative := by
    obtain ⟨t, hnonneg, -, hsign⟩ := exists_lack_of_recurringRat? hrat
    refine Decimal.decide_lt_zero_eq hsign (lt_of_le_of_ne (add_nonneg (abs_nonneg _) hnonneg) fun h0 => ?_)
    rw [← h0, mul_zero] at hsign
    exact hq ⟨0, 0, by rw [hsign]; simp⟩
  have hparts := parts_ofNat hexpansion hq (q < 0) 10000
  have hfraction := fraction_ofNat hexpansion hq (q < 0) 10000
  have hdigit : ∀ c ∈ fraction (Expansion.ofNat (q < 0) q.num.natAbs q.den 10000), Text.isAsciiDigit c = true :=
    hfraction ▸ digitsAt_isDigit _ _
  have hplaces : storedPlaces lead.length cycle.length 10000 ≤ d.fractionDigits.length := by
    unfold storedPlaces
    simp only [Cycle.repeats] at hlong ⊢
    split <;> omega
  refine ⟨_, (normalize_of_recurringRat? hrat).trans (ofRat_of_not_terminates hq), hparts.1.trans hnegative,
    (wholePart_storedDigits hdigit).trans hparts.2, ?_⟩
  rw [fractionDigits_storedDigits hdigit, hfraction, hdigits, Cycle.digitsAt_eq_range, Cycle.digitsAt_eq_range,
    ← List.map_take, List.take_range, Nat.min_eq_left hplaces]

/-- A cycle that the budget pays for is stored four times, and it is kept if these digits are split as before. -/
theorem normalize_of_short (hbudget : lead.length + cycle.length ≤ 10000) : ∃ b, normalize (.recurring d) = .ok (.recurring b) ∧
    HasDigits b d (lead ++ (List.replicate 4 cycle).flatten) ∧
    ((¬ ∃ s l, s < lead.length ∧ Cycle.Valid (lead ++ (List.replicate 4 cycle).flatten) s l) → NormalizeKeeps (.recurring d)) ∧
    (lead.length ≤ 8 * cycle.length + 7 → NormalizeKeeps (.recurring d)) := by
  obtain ⟨b, hb, hdigits⟩ := normalize_of_find h hcycle
  obtain ⟨hreduced, hlong, hspelled⟩ := Cycle.spelled_of_find h
  have htake : d.fractionDigits.take (storedPlaces lead.length cycle.length 10000) = lead ++ unrolled cycle (4 * cycle.length) := by
    rw [storedPlaces, if_pos hbudget, append_unrolled]
    conv_lhs => rw [hspelled, ← List.map_take, List.take_range, Nat.min_eq_left hlong]
    rfl
  rw [htake] at hdigits
  have hkeeps : Cycle.best (lead ++ unrolled cycle (4 * cycle.length)).toArray = some ⟨lead.length, cycle.length⟩ →
      NormalizeKeeps (.recurring d) := by
    intro hbest
    refine normalizeKeeps_of_recurringRat? (recurringRat?_of_find h) hb ?_
    have hfind : Cycle.find b.fractionDigits none = some (lead, cycle) := by
      rw [hdigits.fraction]
      exact Cycle.find_append_unrolled_none hbest (by omega)
    rw [recurringRat?_of_find hfind, hdigits.negative, hdigits.whole]
  rw [← unrolled_mul]
  exact ⟨b, hb, hdigits, fun hnone => hkeeps ((Cycle.best_append_unrolled_iff hreduced le_rfl).2 hnone),
    fun hlead => hkeeps (Cycle.best_append_unrolled hreduced le_rfl hlead)⟩

/-- A cycle that the budget does not pay for is cut, and another rational is left. -/
theorem normalize_of_long (hbudget : 10000 < lead.length + cycle.length) : ∃ b, normalize (.recurring d) = .ok (.recurring b) ∧
    HasDigits b d (d.fractionDigits.take 10000) ∧ toRat (.recurring b) ≠ toRat (.recurring d) ∧
    (Cycle.find (d.fractionDigits.take 10000) none = none → (normalize (.recurring d) >>= normalize) = normalize (.recurring d)) := by
  obtain ⟨b, hb, hdigits⟩ := normalize_of_find h hcycle
  rw [storedPlaces, if_neg (by omega)] at hdigits
  refine ⟨b, hb, hdigits, ?_, fun hnone => ?_⟩
  · rw [toRat_recurring (recurringRat?_of_find h)]
    refine toRat_ne_of_length_lt (isExpansion_of_find h hcycle) (not_terminates_of_find h hcycle) ?_
    rw [hdigits.fraction, List.length_take]
    omega
  · rw [hb]
    exact normalize_of_find_none (hdigits.fraction ▸ hnone)

end

/-! ## What normalizing does -/

/-- Without a visible cycle nothing is changed. A cycle of zeros or nines becomes the exact decimal of the same value, if it
is in range. Any other cycle that the budget pays for is stored four times, and the number is kept unless the lead hides a
split of these digits. A longer cycle is cut after the budget, and the number is another one. -/
theorem normalize_keeps (d : Decimal) :
    (Cycle.find d.fractionDigits none = none →
      normalize (.recurring d) = .ok (.recurring d) ∧ NormalizeKeeps (.recurring d)) ∧
    ∀ lead cycle, Cycle.find d.fractionDigits none = some (lead, cycle) →
      ((cycle = ['0'] ∨ cycle = ['9']) → ∃ b : Decimal, toRat (.recurring d) = .ok b.toRat ∧
        (b.inRange = true → normalize (.recurring d) = .ok (.big b) ∧ NormalizeKeeps (.recurring d)) ∧
        (b.inRange = false → ∃ e, normalize (.recurring d) = .error e) ∧
        (d.inRange = true → d.adjusted < Decimal.maxExponent → b.inRange = true)) ∧
      (¬ (cycle = ['0'] ∨ cycle = ['9']) → lead.length + cycle.length ≤ 10000 →
        ∃ b, normalize (.recurring d) = .ok (.recurring b) ∧ HasDigits b d (lead ++ (List.replicate 4 cycle).flatten) ∧
          ((¬ ∃ s l, s < lead.length ∧ Cycle.Valid (lead ++ (List.replicate 4 cycle).flatten) s l) →
            NormalizeKeeps (.recurring d)) ∧
          (lead.length ≤ 8 * cycle.length + 7 → NormalizeKeeps (.recurring d))) ∧
      (¬ (cycle = ['0'] ∨ cycle = ['9']) → 10000 < lead.length + cycle.length →
        ∃ b, normalize (.recurring d) = .ok (.recurring b) ∧ HasDigits b d (d.fractionDigits.take 10000) ∧
          toRat (.recurring b) ≠ toRat (.recurring d) ∧
          (Cycle.find (d.fractionDigits.take 10000) none = none →
            (normalize (.recurring d) >>= normalize) = normalize (.recurring d))) := by
  refine ⟨fun h => ?_, fun lead cycle h => ⟨normalize_of_constant h, normalize_of_short h, normalize_of_long h⟩⟩
  have hnormalize := normalize_of_find_none h
  exact ⟨hnormalize, normalizeKeeps_of_eq hnormalize hnormalize rfl⟩

/-- Digits without a cycle, a cycle of nines, and a cycle that is stored more often than needed. -/
theorem normalize_keeps_two_and_a_half :
    NormalizeKeeps (.recurring ⟨false, 1231, -4⟩) ∧
    (NormalizeKeeps (.recurring ⟨false, 249999, -5⟩) ∧ normalize (.recurring ⟨false, 249999, -5⟩) = .ok (.big ⟨false, 25, -1⟩)) ∧
    NormalizeKeeps (.recurring ⟨true, 25333333, -7⟩) ∧
      normalize (.recurring ⟨true, 25333333, -7⟩) = .ok (.recurring ⟨true, 253333, -5⟩) := by
  have hnines : Cycle.find (Decimal.fractionDigits ⟨false, 249999, -5⟩) none = some (['4'], ['9']) := by decide +kernel
  have hthrees : Cycle.find (Decimal.fractionDigits ⟨true, 25333333, -7⟩) none = some (['5'], ['3']) := by decide +kernel
  obtain ⟨b, hb, hkeeps, -, hrange⟩ := ((normalize_keeps ⟨false, 249999, -5⟩).2 _ _ hnines).1 (.inr rfl)
  obtain ⟨-, -, -, -, hshort⟩ := ((normalize_keeps ⟨true, 25333333, -7⟩).2 _ _ hthrees).2.1 (by decide) (by decide)
  refine ⟨((normalize_keeps ⟨false, 1231, -4⟩).1 (by decide +kernel)).2,
    ⟨(hkeeps (hrange (by decide +kernel) (by decide +kernel))).2, by decide +kernel⟩, hshort (by decide), by decide +kernel⟩

/-! ## A cycle that the budget does not pay for -/

theorem isReduced_zeros_append (n : Nat) : IsReduced [] (List.replicate n '0' ++ ['1', '2']) := by
  refine ⟨by simp, isPrimitive_of_count_one (c := '1') ?_, by simp⟩
  rw [List.count_append, List.count_replicate]
  rfl

theorem isDigits_zeros_append (n : Nat) : Notation.IsDigits (List.replicate n '0' ++ ['1', '2']) := by
  intro c hc
  rcases List.mem_append.1 hc with hc | hc
  · obtain rfl := List.eq_of_mem_replicate hc
    rfl
  · rcases List.mem_pair.1 hc with rfl | rfl <;> rfl

section

variable (hdigits : Notation.IsDigits cycle)
include hdigits

theorem fraction_isDigit_of_cycle : ∀ c ∈ fraction ⟨false, 0, [], cycle, true⟩, Text.isAsciiDigit c = true := by
  intro c hc
  obtain ⟨w, hw, hmem⟩ := List.mem_flatten.1 (show c ∈ (List.replicate Cycle.repeats cycle).flatten from hc)
  exact hdigits c (List.eq_of_mem_replicate hw ▸ hmem)

theorem inRange_storedDigits_of_cycle (hlength : cycle.length ≤ 10 ^ 17) :
    Decimal.inRange (storedDigits ⟨false, 0, [], cycle, true⟩) = true := by
  have hlt := toNat_lt (fraction_isDigit_of_cycle hdigits)
  have hcoeff : (storedDigits ⟨false, 0, [], cycle, true⟩).coefficient =
      0 * 10 ^ (fraction ⟨false, 0, [], cycle, true⟩).length + toNat (fraction ⟨false, 0, [], cycle, true⟩) := rfl
  have hexp : (storedDigits ⟨false, 0, [], cycle, true⟩).exponent = -((fraction ⟨false, 0, [], cycle, true⟩).length : ℤ) := rfl
  have hfraction : (fraction ⟨false, 0, [], cycle, true⟩).length = 4 * cycle.length := by
    rw [fraction, ← unrolled_mul, List.nil_append, length_unrolled, Cycle.repeats]
  rw [Nat.zero_mul, Nat.zero_add] at hcoeff
  rw [hfraction] at hlt hexp
  have hwidth := width_le (Nat.succ_pos (4 * cycle.length)) (hlt.trans (Nat.pow_lt_pow_right (by decide) (Nat.lt_succ_self _)))
  rw [Decimal.inRange_iff, Decimal.adjusted, Decimal.digitCount, hcoeff, hexp, Decimal.minExponent, Decimal.maxExponent]
  omega

/-- The number of a cycle that is longer than the budget is lost. -/
theorem not_normalizeKeeps_of_long (hreduced : IsReduced [] cycle) (hlong : 10000 < cycle.length) :
    ¬ NormalizeKeeps (.recurring (storedDigits ⟨false, 0, [], cycle, true⟩)) := by
  intro hkeeps
  have hbest : Cycle.best (fraction ⟨false, 0, [], cycle, true⟩).toArray = some ⟨0, cycle.length⟩ := by
    rw [fraction, ← unrolled_mul]
    exact Cycle.best_append_unrolled hreduced le_rfl (Nat.zero_le _)
  have hfind := find_storedDigits (fraction_isDigit_of_cycle hdigits) hbest none
  rw [if_pos fun k hk => absurd hk (Option.not_mem_none k)] at hfind
  have hcycle : ¬ (cycle = ['0'] ∨ cycle = ['9']) := by
    rintro (rfl | rfl) <;> simp at hlong
  obtain ⟨b, hb, -, hne, -⟩ := normalize_of_long hfind hcycle (by simpa using hlong)
  have hvalue := hkeeps.value
  rw [hb] at hvalue
  exact hne hvalue

end

/-- Four times 9999 zeros and the digits 12: the zeros use up the budget, and only a one behind them is left. -/
theorem not_normalizeKeeps_long_cycle :
    Decimal.inRange (storedDigits ⟨false, 0, [], List.replicate 9999 '0' ++ ['1', '2'], true⟩) = true ∧
      ¬ NormalizeKeeps (.recurring (storedDigits ⟨false, 0, [], List.replicate 9999 '0' ++ ['1', '2'], true⟩)) := by
  have hlength : (List.replicate 9999 '0' ++ ['1', '2']).length = 10001 := by
    rw [List.length_append, List.length_replicate]
    rfl
  have hdigits := isDigits_zeros_append 9999
  have hreduced := isReduced_zeros_append 9999
  generalize List.replicate 9999 '0' ++ ['1', '2'] = cycle at hlength hdigits hreduced ⊢
  exact ⟨inRange_storedDigits_of_cycle hdigits (by omega), not_normalizeKeeps_of_long hdigits hreduced (by omega)⟩

end

end Reckon.Real
