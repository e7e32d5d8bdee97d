/-
How accurate a root is. The last iterate encloses the root if the steps of the iteration are enough,
and it is cut to the precision; an iteration that starts far off with a large index uses up its steps
before that, and then the result is no root at all. A denominator that is brought out of the root
leaves more digits than the precision asks for.
-/
import Reckon.Proofs.Roots.Convergence

namespace Reckon.Roots

open Reckon.Decimal

/-! ## Roots -/

/-- `w` is the `n`-th root of `a` to within `δ`, up to a hair above: only a root that is just above a
multiple of `δ` can escape. -/
structure IsRootWithin (n : Nat) (a δ w : ℚ) : Prop where
  tolerance_le : δ ≤ w
  below : (w - δ) ^ n ≤ a
  above : a ≤ (w + δ + δ / 10 ^ 7) ^ n
  above_of_clear : (∀ k : Nat, a ≤ (k * δ) ^ n ∨ (k * δ + δ / 10 ^ 7) ^ n < a) → a ≤ (w + δ) ^ n

theorem isRootWithin_of_pow_eq {n : Nat} (hn : 1 ≤ n) {a δ w : ℚ} (hδ : 0 < δ) (hw : 0 ≤ w) (h : w ^ n = a)
    (hroot : (5 * n * δ) ^ n ≤ a) : IsRootWithin n a δ w := by
  have hn' : (1 : ℚ) ≤ n := by exact_mod_cast hn
  have hlarge : 5 * n * δ ≤ w := le_of_pow_le_pow_left₀ (by omega) hw (h ▸ hroot)
  have hδw : δ ≤ w := by
    have := mul_le_mul_of_nonneg_right hn' hδ.le
    linarith
  refine ⟨hδw, ?_, ?_, fun _ => ?_⟩
  · exact h ▸ pow_le_pow_left₀ (by linarith) (by linarith) n
  · exact h ▸ pow_le_pow_left₀ hw (by linarith [show 0 ≤ δ / 10 ^ 7 by positivity]) n
  · exact h ▸ pow_le_pow_left₀ hw (by linarith) n

/-- Cutting an iterate keeps what it encloses. -/
theorem isRootWithin_of_encloses {n : Nat} {a y : ℚ} {precision : ℤ} (h : Encloses n a (tenPow (-precision)) y) :
    IsRootWithin n a (tenPow (-precision)) (cut precision y) := by
  obtain ⟨hlarge, hbelow, habove⟩ := h
  have hδ := tenPow_pos (-precision)
  have hinverse : tenPow precision * tenPow (-precision) = 1 := by
    rw [← tenPow_add, add_neg_cancel, tenPow_zero]
  have hy : 0 ≤ y := by linarith
  have hcut : cut precision y = (⌊y * tenPow precision⌋₊ : ℚ) * tenPow (-precision) := by
    rw [cut, if_neg (not_lt.2 hy), one_mul, abs_of_nonneg hy]
  have hunits := mul_nonneg hy (tenPow_pos precision).le
  have hle : cut precision y ≤ y := by
    have := mul_le_mul_of_nonneg_right (Nat.floor_le hunits) hδ.le
    rwa [mul_assoc, hinverse, mul_one, ← hcut] at this
  have hlt : y < cut precision y + tenPow (-precision) := by
    have := mul_lt_mul_of_pos_right (Nat.lt_floor_add_one (y * tenPow precision)) hδ
    rwa [mul_assoc, hinverse, mul_one, add_mul, one_mul, ← hcut] at this
  have habove' : a ≤ (cut precision y + tenPow (-precision) + tenPow (-precision) / 10 ^ 7) ^ n :=
    habove.trans (pow_le_pow_left₀ (by positivity) (by linarith) n)
  refine ⟨by linarith, (pow_le_pow_left₀ (by linarith) (by linarith) n).trans hbelow, habove', fun hclear => ?_⟩
  -- the hair is about the next multiple of the tolerance, where a clear root cannot be
  have hnext : cut precision y + tenPow (-precision) = ((⌊y * tenPow precision⌋₊ + 1 : Nat) : ℚ) * tenPow (-precision) := by
    rw [hcut]
    push_cast
    ring
  rw [hnext] at habove' ⊢
  exact (hclear _).resolve_right (not_lt.2 habove')

theorem nthRoot_inexact {a r : Decimal} {n : Nat} {precision : ℤ} (hn : 2 ≤ n) (ha : 0 < a.toRat)
    (h : nthRoot a n precision = .ok (r, false)) :
    ∃ x, iterate a n precision none = .ok x ∧ x.truncate precision = .ok r := by
  unfold nthRoot at h
  have hzero : a.isZero = false := by
    rw [Bool.eq_false_iff, Ne, isZero_iff, ← toRat_eq_zero_iff]
    exact ha.ne'
  have hsign := negative_eq_false_of_pos ha
  rw [if_neg (by omega), hzero, if_neg Bool.false_ne_true, hsign, Bool.false_and, if_neg Bool.false_ne_true,
    if_neg (by omega), abs_of_not_negative hsign, Int.toNat_natCast] at h
  obtain ⟨⟨root, exact⟩, hroot, h⟩ := Outcome.bind_eq_ok.1 h
  obtain ⟨rfl, rfl⟩ := Prod.mk.inj (Except.ok.inj h)
  obtain ⟨x, hx, hsettle⟩ := Outcome.bind_eq_ok.1 hroot
  obtain ⟨rounded, -, hsettle⟩ := Outcome.bind_eq_ok.1 hsettle
  obtain ⟨power, -, hsettle⟩ := Outcome.bind_eq_ok.1 hsettle
  split at hsettle
  · cases (Prod.mk.inj (Except.ok.inj hsettle)).2
  · obtain ⟨cut, hcut, hsettle⟩ := Outcome.bind_eq_ok.1 hsettle
    obtain ⟨rfl, -⟩ := Prod.mk.inj (Except.ok.inj hsettle)
    exact ⟨x, hx, hcut⟩

theorem nthRoot_isRootWithin {a r : Decimal} {n : Nat} {precision : ℤ} {exact : Bool} (hn : 2 ≤ n) (ha : 0 < a.toRat)
    (hroot : (5 * n * tenPow (-precision)) ^ n ≤ a.toRat) (h : nthRoot a n precision = .ok (r, exact))
    (hconverges : exact = true ∨ Converges a n precision) : IsRootWithin n a.toRat (tenPow (-precision)) r.toRat := by
  cases exact with
  | true =>
    obtain ⟨-, hpow, hr⟩ := nthRoot_exact h
    rw [Int.toNat_natCast] at hpow hr
    exact isRootWithin_of_pow_eq (by omega) (tenPow_pos _) (hr.resolve_right fun hneg => by linarith [hneg.2]) hpow hroot
  | false =>
    obtain ⟨x, hx, hr⟩ := nthRoot_inexact hn ha h
    rw [toRat_truncate hr]
    exact isRootWithin_of_encloses (encloses_of_converges hn ha hroot (hconverges.resolve_left Bool.false_ne_true) hx)

/-! ## Rational powers -/

/-- A root with another digit at least loses what exceeds the tolerance. -/
theorem IsRootWithin.div {n : Nat} {a δ δ' w c : ℚ} (hn : 1 ≤ n) (hδ' : 0 < δ') (hfine : 10 * δ' ≤ δ) (hc : 1 ≤ c)
    (hroot : (5 * n * δ) ^ n ≤ a) (h : IsRootWithin n (a * c ^ n) δ' w) : IsRootWithin n a δ (w / c) := by
  obtain ⟨htolerance, hbelow, habove, -⟩ := h
  have hn' : (1 : ℚ) ≤ n := by exact_mod_cast hn
  have hc0 : 0 < c := by linarith
  have hw : 0 ≤ w := by linarith
  have hshrink : δ' / c ≤ δ' := div_le_self hδ'.le hc
  have hlow : (w / c - δ' / c) ^ n ≤ a := by
    rw [← sub_div, div_pow, div_le_iff₀ (by positivity)]
    exact hbelow
  have hhigh : a ≤ (w / c + 2 * δ' / c) ^ n := by
    rw [← add_div, div_pow, le_div_iff₀ (by positivity)]
    exact habove.trans (pow_le_pow_left₀ (by positivity) (by linarith) n)
  have htwo : 2 * δ' / c ≤ δ / 5 := by
    rw [mul_div_assoc]
    linarith
  have hlarge : 5 * n * δ ≤ w / c + 2 * δ' / c :=
    le_of_pow_le_pow_left₀ (by omega) (by positivity) (hroot.trans hhigh)
  have hδn : δ ≤ n * δ := le_mul_of_one_le_left (by linarith) hn'
  have hδw : δ ≤ w / c := by linarith
  refine ⟨hδw, ?_, ?_, fun _ => ?_⟩
  · exact (pow_le_pow_left₀ (by linarith) (by linarith) n).trans hlow
  · exact hhigh.trans (pow_le_pow_left₀ (by positivity) (by linarith [show 0 ≤ δ / 10 ^ 7 by linarith]) n)
  · exact hhigh.trans (pow_le_pow_left₀ (by positivity) (by linarith) n)

theorem radicand_moreDigits {a : ℚ} {n : Nat} {r : Radicand} (h : radicand a n = .ok r) :
    r.divisor = 1 ∧ r.moreDigits = 0 ∨ 1 ≤ r.moreDigits := by
  unfold radicand at h
  split at h
  · obtain ⟨d, -, h⟩ := Outcome.bind_eq_ok.1 h
    rw [← Except.ok.inj h]
    exact .inl ⟨rfl, rfl⟩
  · rw [← Except.ok.inj h]
    exact .inr (Digits.width_pos _)

theorem rootOfRat_isRootWithin {a w : ℚ} {n : Nat} {precision : ℤ} {exact : Bool} (hn : 2 ≤ n) (ha : 0 < a)
    (hroot : (5 * n * tenPow (-precision)) ^ n ≤ a) (h : rootOfRat a n precision = .ok (w, exact))
    (hconverges : exact = true ∨ ∃ r, radicand a n = .ok r ∧ Converges r.decimal n (precision + r.moreDigits)) :
    IsRootWithin n a (tenPow (-precision)) w := by
  obtain ⟨r, hr, h⟩ := Outcome.bind_eq_ok.1 h
  obtain ⟨⟨root, exact'⟩, hnthRoot, h⟩ := Outcome.bind_eq_ok.1 h
  obtain ⟨rfl, rfl⟩ := Prod.mk.inj (Except.ok.inj h)
  obtain ⟨hdivisor, hvalue⟩ := radicand_spec (by omega) hr
  have hc : (1 : ℚ) ≤ r.divisor := by exact_mod_cast hdivisor
  have hδ := tenPow_pos (-precision)
  have hδ' := tenPow_pos (-(precision + r.moreDigits))
  have hle : tenPow (-(precision + r.moreDigits)) ≤ tenPow (-precision) := by
    rw [tenPow_le_tenPow]
    omega
  have hdecimal : (5 * n * tenPow (-(precision + r.moreDigits))) ^ n ≤ r.decimal.toRat := calc
    (5 * n * tenPow (-(precision + r.moreDigits))) ^ n ≤ (5 * n * tenPow (-precision)) ^ n := by gcongr
    _ ≤ a := hroot
    _ ≤ a * (r.divisor : ℚ) ^ n := le_mul_of_one_le_right ha.le (one_le_pow₀ hc)
    _ = r.decimal.toRat := hvalue.symm
  have hconverges' : exact' = true ∨ Converges r.decimal n (precision + r.moreDigits) := by
    refine hconverges.imp_right fun ⟨r', hr', hconverges⟩ => ?_
    rw [hr] at hr'
    rwa [Except.ok.inj hr']
  have hwithin := nthRoot_isRootWithin hn (hvalue ▸ by positivity) hdecimal hnthRoot hconverges'
  rw [hvalue] at hwithin
  -- without a divisor the hair stays; the digits for a divisor make it disappear
  rcases radicand_moreDigits hr with ⟨hone, hnone⟩ | hmore
  · rwa [hone, Nat.cast_one, one_pow, mul_one, hnone, Nat.cast_zero, add_zero, ← div_one root.toRat, ← Nat.cast_one,
      ← hone] at hwithin
  · refine hwithin.div (by omega) hδ' ?_ hc hroot
    rw [show (10 : ℚ) = tenPow 1 by norm_num [tenPow], ← tenPow_add, tenPow_le_tenPow]
    omega

/-- A power of a positive rational, before it is inverted for a negative exponent, is the root to the
precision if it is exact or the steps of the iteration are enough, and the root is not too close to
zero for the precision. -/
theorem powRational_isRootWithin {base v : ℚ} {p : ℤ} {q : Nat} {precision : ℤ} {exact : Bool} (hbase : 0 < base)
    (hq : 1 ≤ q) (hcoprime : p.natAbs.Coprime q) (h : powRational base p q precision = .ok (v, exact))
    (hroot : (5 * q * tenPow (-precision)) ^ q ≤ base ^ p.natAbs)
    (hconverges : exact = true ∨ ∃ r, radicand (base ^ p.natAbs) q = .ok r ∧
      Converges r.decimal q (precision + r.moreDigits)) :
    IsRootWithin q (base ^ p.natAbs) (tenPow (-precision)) (if p < 0 then 1 / v else v) := by
  obtain ⟨-, value, hvalue, rfl⟩ := powRational_eq_ok hq hcoprime rfl h
  have hinverse : (if p < 0 then 1 / (if p < 0 then 1 / value else value) else if p < 0 then 1 / value else value) = value := by
    split
    · exact one_div_one_div value
    · rfl
  rw [hinverse]
  rcases hvalue with ⟨rfl, rfl, -⟩ | ⟨hq2, hrootOfRat⟩
  · exact isRootWithin_of_pow_eq le_rfl (tenPow_pos _) (by positivity) (pow_one _) hroot
  · exact rootOfRat_isRootWithin hq2 (by positivity) hroot hrootOfRat hconverges

/-- The inverse of the cube root of two: the start of the iteration is the 64-bit number nearest to the
root, and seven doublings make the thirty digits that are carried. -/
theorem powRational_isRootWithin_inverse_cube_root_two :
    powRational 2 (-1) 3 20 = .ok (25000000000000000000 / 31498026247371829119, false) ∧
      (5 * (3 : Nat) * tenPow (-20)) ^ 3 ≤ (2 : ℚ) ^ 1 ∧
      IsRootWithin 3 (2 ^ 1) (tenPow (-20)) (1 / (25000000000000000000 / 31498026247371829119)) := by
  have hpower : powRational 2 (-1) 3 20 = .ok (25000000000000000000 / 31498026247371829119, false) := by decide +kernel
  have hroot : (5 * (3 : Nat) * tenPow (-20)) ^ 3 ≤ (2 : ℚ) ^ 1 := by decide +kernel
  have hradicand : radicand (2 ^ 1) 3 = .ok ⟨⟨false, 2, 0⟩, 1, 0⟩ := by decide +kernel
  have hconverges : Converges ⟨false, 2, 0⟩ 3 (20 + (0 : Nat)) :=
    ⟨30, ⟨false, 12599210498948732, -16⟩, by decide +kernel, by decide +kernel,
      .close (k := 7) (by decide) (by decide) (by decide +kernel)⟩
  exact ⟨hpower, hroot, powRational_isRootWithin (by norm_num) (by norm_num) (by decide) hpower hroot
    (.inr ⟨_, hradicand, hconverges⟩)⟩

/-- The tenth root of 10 ^ 319 is below 10 ^ 32. The radicand is outside the range of 64-bit numbers,
and after the forty steps from 10 ^ 31 the iterate is still above 10 ^ 37. -/
theorem not_isRootWithin_tenth_root : ∃ w, powRational 10 319 10 20 = .ok (w, false) ∧ tenPow 37 ≤ w ∧
    ¬ (w - tenPow (-20)) ^ 10 ≤ (10 : ℚ) ^ 319 :=
  ⟨410580085401737189014434777919811637384582440025000000171 / 25000000000000000000, by decide +kernel,
    by decide +kernel, by decide +kernel⟩

end Reckon.Roots
