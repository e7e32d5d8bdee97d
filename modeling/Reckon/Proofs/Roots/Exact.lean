/-
A root or power that is reported as exact is exact. The candidate for a root is raised to the index
without rounding before it is accepted, so this holds however good the iteration is; the passage to
lowest terms, the denominator brought out of a root and the inversion at the end keep it. The root is
the principal one, because the iteration never becomes negative.
-/
import Reckon.Proofs.Real.Recurring
import Reckon.Proofs.Roots.Newton

namespace Reckon.Roots

open Reckon.Decimal Reckon.Expansion

/-! ## Roots of decimals -/

theorem round_nonneg {d r : Decimal} {places : ℤ} (h : d.round places = .ok r) (hd : 0 ≤ d.toRat) : 0 ≤ r.toRat := by
  unfold Decimal.round at h
  split at h
  · rwa [← Except.ok.inj h]
  rename_i hplaces
  obtain ⟨unit, -, h⟩ := Outcome.bind_eq_ok.1 h
  obtain ⟨k, hk⟩ : ∃ k : Nat, (-places - d.exponent).toNat = k + 1 := ⟨(-places - d.exponent).toNat - 1, by omega⟩
  simp only [hk] at h
  generalize hc : (if d.digitCount < k + 1 then 0 else (d.coefficient + 5 * 10 ^ (k + 1 - 1)) / 10 ^ (k + 1)) = c at h
  split at h
  · cases h
  rw [← Except.ok.inj h]
  cases hneg : d.negative with
  | false => exact toRat_nonneg rfl
  | true =>
    -- a zero with a sign is rounded to zero
    have hzero := coefficient_eq_zero_of_negative hneg hd
    have hten : 0 < 10 ^ k := by positivity
    have hcut : (0 + 5 * 10 ^ (k + 1 - 1)) / 10 ^ (k + 1) = 0 :=
      Nat.div_eq_of_lt (by rw [Nat.add_sub_cancel, pow_succ]; omega)
    refine ((toRat_eq_zero_iff _).2 ?_).ge
    rw [← hc, hzero, hcut, ite_self]

theorem settle_exact {a x r : Decimal} {n : Nat} {precision : ℤ} (hx : 0 ≤ x.toRat)
    (h : settle a n precision x = .ok (r, true)) : r.toRat ^ n = a.toRat ∧ 0 ≤ r.toRat := by
  obtain ⟨rounded, hrounded, h⟩ := Outcome.bind_eq_ok.1 h
  obtain ⟨power, hpower, h⟩ := Outcome.bind_eq_ok.1 h
  split at h
  · rename_i heq
    obtain rfl := (Prod.mk.inj (Except.ok.inj h)).1
    refine ⟨?_, by rw [toRat_normalize]; exact round_nonneg hrounded hx⟩
    rw [← toRat_pow hpower, ← toRat_normalize power, heq, toRat_normalize]
  · obtain ⟨cut, -, h⟩ := Outcome.bind_eq_ok.1 h
    cases (Prod.mk.inj (Except.ok.inj h)).2

theorem nthRoot_exact {a r : Decimal} {n precision : ℤ} {iterations : Option ℤ}
    (h : nthRoot a n precision iterations = .ok (r, true)) :
    1 ≤ n ∧ r.toRat ^ n.toNat = a.toRat ∧ (0 ≤ r.toRat ∨ Odd n.toNat ∧ a.toRat < 0) := by
  unfold nthRoot at h
  split at h
  · cases h
  rename_i hn
  refine ⟨by omega, ?_⟩
  split at h
  · rename_i hzero
    obtain rfl := (Prod.mk.inj (Except.ok.inj h)).1
    have hr : Decimal.zero.toRat = 0 := rfl
    rw [hr, (toRat_eq_zero_iff a).2 ((isZero_iff a).1 hzero), zero_pow (by omega)]
    exact ⟨rfl, .inl le_rfl⟩
  rename_i hzero
  split at h
  · cases h
  rename_i heven
  split at h
  · rename_i hone
    obtain rfl := (Prod.mk.inj (Except.ok.inj h)).1
    subst hone
    refine ⟨pow_one _, ?_⟩
    rcases le_or_gt 0 a.toRat with hpos | hneg
    · exact .inl hpos
    · exact .inr ⟨odd_one, hneg⟩
  rename_i hone
  obtain ⟨⟨root, exact⟩, hroot, h⟩ := Outcome.bind_eq_ok.1 h
  obtain ⟨rfl, rfl⟩ := Prod.mk.inj (Except.ok.inj h)
  obtain ⟨x, hx, hsettle⟩ := Outcome.bind_eq_ok.1 hroot
  have habs : 0 ≤ a.abs.toRat := toRat_nonneg rfl
  obtain ⟨hpow, hpos⟩ := settle_exact (iterate_nonneg (by omega) habs hx) hsettle
  -- the root of the absolute value, with the sign given back for odd indices
  cases hneg : a.negative with
  | false =>
    rw [abs_of_not_negative hneg] at hpow
    exact ⟨hpow, .inl hpos⟩
  | true =>
    have ha : a.abs.toRat = -a.toRat := by
      rw [toRat_eq_sign, toRat_eq_sign, hneg]
      simp [Decimal.abs]
    have hodd : Odd n.toNat := by
      rw [hneg, Bool.true_and, beq_iff_eq] at heven
      rw [Nat.odd_iff]
      omega
    have hvalue : root.neg.toRat ^ n.toNat = a.toRat := by
      rw [toRat_neg, hodd.neg_pow, hpow, ha, neg_neg]
    refine ⟨hvalue, .inr ⟨hodd, ?_⟩⟩
    have hne : a.toRat ≠ 0 := by rwa [Ne, toRat_eq_zero_iff, ← isZero_iff]
    exact lt_of_le_of_ne (by linarith) hne

/-! ## Roots of rationals -/

/-- The decimal radicand is the rational times a power of the divisor. -/
theorem radicand_spec {a : ℚ} {n : Nat} {r : Radicand} (hn : 1 ≤ n) (h : radicand a n = .ok r) :
    0 < r.divisor ∧ r.decimal.toRat = a * (r.divisor : ℚ) ^ n := by
  unfold radicand at h
  split at h
  · rename_i places hplaces
    obtain ⟨d, hd, h⟩ := Outcome.bind_eq_ok.1 h
    rw [← Except.ok.inj h]
    have hterminates : Terminates a := by
      by_contra hnot
      rw [(terminatingPlaces?_eq_none_iff a).2 hnot] at hplaces
      cases hplaces
    obtain ⟨places', units, hleast⟩ := exists_isLeastPlaces hterminates
    obtain rfl : places = places' := by
      rw [hleast.terminatingPlaces?_eq] at hplaces
      exact (Option.some.inj hplaces).symm
    rw [Real.num_mul_of_isLeastPlaces hleast] at hd
    obtain ⟨rfl, -⟩ := make_eq_ok_iff.1 hd
    refine ⟨Nat.one_pos, ?_⟩
    rw [Real.toRat_of_isLeastPlaces hleast, Nat.cast_one, one_pow, mul_one]
  · rw [← Except.ok.inj h]
    refine ⟨a.den_pos, ?_⟩
    have hpow : (a.den : ℚ) ^ n = a.den * (a.den : ℚ) ^ (n - 1) := by
      rw [← pow_succ', Nat.sub_add_cancel hn]
    rw [toRat_ofInt, hpow, ← mul_assoc, Rat.mul_den_eq_num]
    push_cast
    rfl

theorem rootOfRat_exact {a v : ℚ} {n : Nat} {precision : ℤ} (hn : 1 ≤ n) (h : rootOfRat a n precision = .ok (v, true)) :
    v ^ n = a ∧ (0 ≤ v ∨ Odd n ∧ a < 0) := by
  obtain ⟨r, hr, h⟩ := Outcome.bind_eq_ok.1 h
  obtain ⟨⟨root, exact⟩, hroot, h⟩ := Outcome.bind_eq_ok.1 h
  obtain ⟨rfl, rfl⟩ := Prod.mk.inj (Except.ok.inj h)
  obtain ⟨hpos, hvalue⟩ := radicand_spec hn hr
  obtain ⟨-, hpow, hsign⟩ := nthRoot_exact hroot
  have hdivisor : (0 : ℚ) < r.divisor := by exact_mod_cast hpos
  rw [Int.toNat_natCast, hvalue] at hpow hsign
  refine ⟨by rw [div_pow, hpow, mul_div_cancel_right₀ _ (by positivity)], ?_⟩
  rcases hsign with hroot0 | ⟨hodd, hneg⟩
  · exact .inl (by positivity)
  · exact .inr ⟨hodd, by
      by_contra hnot
      have : 0 ≤ a * (r.divisor : ℚ) ^ n := mul_nonneg (not_lt.1 hnot) (by positivity)
      linarith⟩

/-! ## Rational powers -/

section Power

variable {base v : ℚ} {p q p' precision : ℤ} {q' : Nat} {exact : Bool}

theorem divInt_of_coprime (hq : q ≠ 0) (hq' : 0 < q') (hcoprime : p'.natAbs.Coprime q') (hreduced : p * q' = p' * q) :
    (Rat.divInt p q).num = p' ∧ (Rat.divInt p q).den = q' := by
  have heq : Rat.divInt p q = (p' : ℚ) / ((q' : ℤ) : ℚ) := by
    rw [← Rat.divInt_eq_div, Rat.divInt_eq_divInt_iff hq (by omega)]
    exact hreduced
  have hnum := Rat.num_div_eq_of_coprime (show (0 : ℤ) < q' by omega) hcoprime
  have hden := Rat.den_div_eq_of_coprime (show (0 : ℤ) < q' by omega) hcoprime
  rw [heq]
  exact ⟨hnum, by omega⟩

/-- A power is a root of an integer power, inverted for a negative exponent. -/
theorem powRational_eq_ok (hq' : 0 < q') (hcoprime : p'.natAbs.Coprime q') (hreduced : p * q' = p' * q)
    (h : powRational base p q precision = .ok (v, exact)) : (p' < 0 → base ≠ 0) ∧ ∃ value : ℚ,
      (q' = 1 ∧ value = base ^ p'.natAbs ∧ exact = true ∨
        2 ≤ q' ∧ rootOfRat (base ^ p'.natAbs) q' precision = .ok (value, exact)) ∧
      v = if p' < 0 then 1 / value else value := by
  unfold powRational at h
  split at h
  · cases h
  rename_i hq
  obtain ⟨hnum, hden⟩ := divInt_of_coprime hq hq' hcoprime hreduced
  have hneg : Rat.divInt p q < 0 ↔ p' < 0 := by rw [← Rat.num_neg, hnum]
  simp only [hnum, hden, hneg] at h
  split at h
  · cases h
  rename_i hzero
  refine ⟨fun hp hbase => hzero ⟨hp, hbase⟩, ?_⟩
  -- both ways end with the inversion for a negative exponent
  have hinvert : ∀ {value : ℚ} {exact' : Bool}, (if p' < 0 then if value = 0 then fail .vanishedRoot else .ok (1 / value, exact')
      else .ok (value, exact') : Outcome (ℚ × Bool)) = .ok (v, exact) →
      exact' = exact ∧ v = if p' < 0 then 1 / value else value := by
    intro value exact' h
    split at h
    · split at h
      · cases h
      · obtain ⟨rfl, rfl⟩ := Prod.mk.inj (Except.ok.inj h)
        simp [*]
    · obtain ⟨rfl, rfl⟩ := Prod.mk.inj (Except.ok.inj h)
      simp [*]
  split at h
  · rename_i hone
    obtain ⟨hexact, hv⟩ := hinvert h
    exact ⟨_, .inl ⟨hone, rfl, hexact.symm⟩, hv⟩
  · rename_i hone
    obtain ⟨⟨value, exact'⟩, hroot, h⟩ := Outcome.bind_eq_ok.1 h
    obtain ⟨rfl, hv⟩ := hinvert h
    exact ⟨value, .inr ⟨by omega, hroot⟩, hv⟩

/-- An exact power is the root of the integer power, or of its inverse. -/
theorem powRational_exact (h : powRational base p q precision = .ok (v, true)) (hq' : 0 < q')
    (hcoprime : p'.natAbs.Coprime q') (hreduced : p * q' = p' * q) :
    (p' < 0 → base ≠ 0) ∧ v ^ q' = base ^ p' ∧ (0 ≤ v ∨ Odd q' ∧ base ^ p' < 0) := by
  obtain ⟨hbase, value, hvalue, rfl⟩ := powRational_eq_ok hq' hcoprime hreduced h
  refine ⟨hbase, ?_⟩
  -- the root of the integer power first, its inverse only then
  have hroot : value ^ q' = base ^ p'.natAbs ∧ (0 ≤ value ∨ Odd q' ∧ base ^ p'.natAbs < 0) := by
    rcases hvalue with ⟨rfl, rfl, -⟩ | ⟨hq, hroot⟩
    · exact ⟨pow_one _, (le_or_gt 0 _).imp_right fun hneg => ⟨odd_one, hneg⟩⟩
    · exact rootOfRat_exact (by omega) hroot
  obtain ⟨hpow, hsign⟩ := hroot
  split
  · rename_i hp
    have hzpow : base ^ p' = (base ^ p'.natAbs)⁻¹ := by
      rw [← zpow_natCast, ← zpow_neg]
      congr 1
      omega
    rw [hzpow, one_div, inv_pow, hpow, inv_nonneg, inv_lt_zero]
    exact ⟨rfl, hsign⟩
  · rename_i hp
    have hzpow : base ^ p' = base ^ p'.natAbs := by
      rw [← zpow_natCast]
      congr 1
      omega
    rw [hzpow]
    exact ⟨hpow, hsign⟩

end Power

/-- A power or root that is reported as exact is exact, and the power is the principal one. -/
theorem exact_of_reported :
    (∀ (base v : ℚ) (p q precision : ℤ), powRational base p q precision = .ok (v, true) →
      ∀ (p' : ℤ) (q' : Nat), 0 < q' → p'.natAbs.Coprime q' → p * q' = p' * q →
        (p' < 0 → base ≠ 0) ∧ v ^ q' = base ^ p' ∧ (0 ≤ v ∨ Odd q' ∧ base ^ p' < 0)) ∧
    (∀ (a r : Decimal) (n precision : ℤ) (iterations : Option ℤ), nthRoot a n precision iterations = .ok (r, true) →
      r.toRat ^ n.toNat = a.toRat) :=
  ⟨fun _ _ _ _ _ h _ _ => powRational_exact h, fun _ _ _ _ _ h => (nthRoot_exact h).2.1⟩

/-- An exponent that is not in lowest terms: the inverse of the cube root of 27/8. -/
theorem exact_of_reported_inverse_cube_root :
    powRational (27 / 8) (-2) 6 20 = .ok (2 / 3, true) ∧ (2 / 3 : ℚ) ^ 3 = (27 / 8) ^ (-1 : ℤ) ∧
      nthRoot ⟨true, 8, 0⟩ 3 20 = .ok (⟨true, 2, 0⟩, true) ∧
      Decimal.toRat ⟨true, 2, 0⟩ ^ 3 = Decimal.toRat ⟨true, 8, 0⟩ := by
  have hpower : powRational (27 / 8) (-2) 6 20 = .ok (2 / 3, true) := by decide +kernel
  have hroot : nthRoot ⟨true, 8, 0⟩ 3 20 = .ok (⟨true, 2, 0⟩, true) := by decide +kernel
  exact ⟨hpower, (exact_of_reported.1 _ _ _ _ _ hpower (-1) 3 (by decide) (by decide) (by decide)).2.1, hroot,
    exact_of_reported.2 _ _ _ _ _ hroot⟩

end Reckon.Roots
