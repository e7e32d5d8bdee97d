/-
What an iterate says about the root. A step of Newton's method never falls below the root, and where
it is short it ends near the root: half of the step on either side is enough to tell. So an iterate
that agrees with the one before it encloses the root.
-/
import Reckon.Proofs.Roots.Exact

namespace Reckon.Roots

open Reckon.Decimal Reckon.Decimal.Significant

/-! ## The exact step -/

section ExactStep

variable {n : Nat} {a x : ℚ}

/-- The step over the ratio of the radicand to the power of the iterate. -/
theorem exactStep_eq (hn : 1 ≤ n) (hx : 0 < x) : exactStep n a x = x * (1 + (a / x ^ n - 1) / n) := by
  obtain ⟨k, rfl⟩ : ∃ k, n = k + 1 := ⟨n - 1, by omega⟩
  unfold exactStep
  rw [Nat.add_sub_cancel, pow_succ]
  push_cast
  field_simp
  ring

/-- The exact step never falls below the root. -/
theorem le_exactStep_pow (hn : 1 ≤ n) (ha : 0 ≤ a) (hx : 0 < x) : a ≤ exactStep n a x ^ n := by
  have hn' : (1 : ℚ) ≤ n := by exact_mod_cast hn
  have hratio : 0 ≤ a / x ^ n := by positivity
  have hstart : -2 ≤ (a / x ^ n - 1) / n := by
    rw [le_div_iff₀ (by linarith)]
    linarith
  have hbernoulli := one_add_mul_le_pow hstart n
  rw [mul_div_cancel₀ _ (by positivity), add_sub_cancel] at hbernoulli
  rw [exactStep_eq hn hx, mul_pow]
  calc a = x ^ n * (a / x ^ n) := by field_simp
    _ ≤ x ^ n * (1 + (a / x ^ n - 1) / n) ^ n := by gcongr

/-- The radicand in terms of the step. -/
theorem eq_pow_mul_of_step (hn : 1 ≤ n) (hx : 0 < x) {d : ℚ} (hstep : exactStep n a x = x + d) :
    a = x ^ n * (1 + n * (d / x)) := by
  have hn' : (n : ℚ) ≠ 0 := by exact_mod_cast (by omega : n ≠ 0)
  have hpow : x ^ n ≠ 0 := by positivity
  rw [exactStep_eq hn hx, mul_add, mul_one, add_right_inj] at hstep
  rw [← hstep]
  field_simp
  ring

/-- Below the root, half of the step still leads below it. -/
theorem pow_le_of_ascent (hn : 1 ≤ n) (hx : 0 < x) {d : ℚ} (hd : 0 ≤ d) (hstep : exactStep n a x = x + d)
    (hshort : n * d ≤ 3 / 10 * x) : (x + 51 / 100 * d) ^ n ≤ a := by
  have hn' : (1 : ℚ) ≤ n := by exact_mod_cast hn
  have hratio : 0 ≤ d / x := by positivity
  have hsmall : n * (d / x) ≤ 3 / 10 := by
    rw [← mul_div_assoc, div_le_iff₀ hx]
    exact hshort
  have hle : d / x ≤ n * (d / x) := le_mul_of_one_le_left hratio hn'
  have hbound := one_add_pow_mul_le_one (show 0 ≤ 51 / 100 * (d / x) by positivity) (by linarith) n
  rw [eq_pow_mul_of_step hn hx hstep, show x + 51 / 100 * d = x * (1 + 51 / 100 * (d / x)) by field_simp, mul_pow]
  generalize d / x = t at *
  have hnt : 0 ≤ n * t := by positivity
  refine mul_le_mul_of_nonneg_left ?_ (by positivity)
  have hfactor : 1 ≤ (1 + n * t) * (1 - n * (51 / 100 * t)) := by nlinarith
  exact le_of_mul_le_mul_right (hbound.trans hfactor) (by linarith)

/-- Above the root, half of the step more leads below it. -/
theorem pow_le_of_descent (hn : 1 ≤ n) (hx : 0 < x) {d : ℚ} (hd : 0 ≤ d) (hstep : exactStep n a x = x - d)
    (hshort : n * d ≤ 21 / 100 * x) : (x - 149 / 100 * d) ^ n ≤ a := by
  have hn' : (1 : ℚ) ≤ n := by exact_mod_cast hn
  have hratio : 0 ≤ d / x := by positivity
  have hsmall : n * (d / x) ≤ 21 / 100 := by
    rw [← mul_div_assoc, div_le_iff₀ hx]
    exact hshort
  have hle : d / x ≤ n * (d / x) := le_mul_of_one_le_left hratio hn'
  have hbound := one_sub_pow_mul_le_one (show 0 ≤ 149 / 100 * (d / x) by positivity) (by linarith) n
  rw [eq_pow_mul_of_step hn hx (hstep.trans (sub_eq_add_neg x d)), neg_div,
    show x - 149 / 100 * d = x * (1 - 149 / 100 * (d / x)) by field_simp, mul_pow]
  generalize d / x = t at *
  have hnt : 0 ≤ n * t := by positivity
  refine mul_le_mul_of_nonneg_left ?_ (by positivity)
  have hfactor : 1 ≤ (1 + n * -t) * (1 + n * (149 / 100 * t)) := by nlinarith
  exact le_of_mul_le_mul_right (hbound.trans hfactor) (by linarith)

end ExactStep

/-! ## A short step -/

section ShortStep

variable {n : Nat} {a x y δ u : ℚ}

theorem exists_below_of_ascent (hn : 2 ≤ n) (hx : 0 < x) (hδ : 0 < δ) (hu : 0 < u) (hnu : n * u ≤ 1 / 10 ^ 8) {d : ℚ}
    (hd : 0 ≤ d) (hexact : exactStep n a x = x + d) (hroot : 5 * n * δ ≤ x + d) (hstep : Near (5 * u) (x + d) y)
    (hclose : y - x ≤ δ + u * (δ + x + y)) : ∃ z, 0 < z ∧ z ^ n ≤ a ∧ y ≤ z + δ / 2 + 15 * (u * z) := by
  have hn' : (2 : ℚ) ≤ n := by exact_mod_cast hn
  have hu' : u ≤ 1 / 10 ^ 8 := le_trans (by nlinarith) hnu
  obtain ⟨hlow, hhigh⟩ := (near_iff (by positivity)).1 hstep
  have hux : 0 < u * x := by positivity
  have hux' : n * (u * x) ≤ x / 10 ^ 8 := by nlinarith
  have huδ : u * δ ≤ δ / 10 ^ 8 := by nlinarith
  have hud : u * d ≤ d / 10 ^ 8 := by nlinarith
  have huy : u * y ≤ 2 * (u * x) + 2 * (u * d) := by
    have hy : y ≤ 2 * (x + d) := hhigh.trans (mul_le_mul_of_nonneg_right (by linarith) (by positivity))
    nlinarith
  have hlength : d ≤ 101 / 100 * δ + 9 * (u * x) := by linarith
  have hδn : 2 * δ ≤ n * δ := mul_le_mul_of_nonneg_right hn' hδ.le
  have hux'' : 2 * (u * x) ≤ n * (u * x) := mul_le_mul_of_nonneg_right hn' hux.le
  have hlarge : 4 * (n * δ) ≤ x := by linarith
  have hshort : n * d ≤ 3 / 10 * x := by
    have := mul_le_mul_of_nonneg_left hlength (by linarith : (0 : ℚ) ≤ n)
    linarith
  -- a little more than half of the step, so that the other half is below half of the tolerance
  refine ⟨x + 51 / 100 * d, by positivity, pow_le_of_ascent (by omega) hx hd hexact hshort, ?_⟩
  have hd' : d ≤ 15 / 100 * x := by
    have := mul_le_mul_of_nonneg_right hn' hd
    linarith
  have hud' : u * d ≤ 15 / 100 * (u * x) := by
    have := mul_le_mul_of_nonneg_left hd' hu.le
    linarith
  have huz : u * x ≤ u * (x + 51 / 100 * d) := by
    gcongr
    linarith
  linarith

theorem exists_below_of_descent (hn : 2 ≤ n) (hx : 0 < x) (hδ : 0 < δ) (hu : 0 < u) (hnu : n * u ≤ 1 / 10 ^ 8) {d : ℚ}
    (hd : 0 ≤ d) (hexact : exactStep n a x = x - d) (hroot : 5 * n * δ ≤ x - d) (hstep : Near (5 * u) (x - d) y)
    (hclose : x - y ≤ δ + u * (δ + x + y)) : ∃ z, 0 < z ∧ z ^ n ≤ a ∧ y ≤ z + δ / 2 + 15 * (u * z) := by
  have hn' : (2 : ℚ) ≤ n := by exact_mod_cast hn
  have hu' : u ≤ 1 / 10 ^ 8 := le_trans (by nlinarith) hnu
  have hexact0 : 0 ≤ x - d := le_trans (by positivity) hroot
  obtain ⟨hlow, hhigh⟩ := (near_iff hexact0).1 hstep
  have hux : 0 < u * x := by positivity
  have hux' : n * (u * x) ≤ x / 10 ^ 8 := by nlinarith
  have huδ : u * δ ≤ δ / 10 ^ 8 := by nlinarith
  have hud : 0 ≤ u * d := by positivity
  have huy : u * y ≤ 2 * (u * x) := by
    have hy : y ≤ 2 * (x - d) := hhigh.trans (mul_le_mul_of_nonneg_right (by linarith) hexact0)
    nlinarith
  have hlength : d ≤ 101 / 100 * δ + 8 * (u * x) := by linarith
  have hshort : n * d ≤ 21 / 100 * x := by
    have := mul_le_mul_of_nonneg_left hlength (by linarith : (0 : ℚ) ≤ n)
    linarith
  have hd' : d ≤ 105 / 1000 * x := by
    have := mul_le_mul_of_nonneg_right hn' hd
    linarith
  -- as much below the new iterate as it takes to pass the root, and no more
  refine ⟨x - 149 / 100 * d, by linarith, pow_le_of_descent (by omega) hx hd hexact hshort, ?_⟩
  have hud' : u * d ≤ 105 / 1000 * (u * x) := by
    have := mul_le_mul_of_nonneg_left hd' hu.le
    linarith
  linarith

/-- After a step that is short, up to the errors of the arithmetic, there is something below the root
that the new iterate exceeds by little more than half of the tolerance. -/
theorem exists_below (hn : 2 ≤ n) (ha : 0 ≤ a) (hx : 0 < x) (hδ : 0 < δ) (hu : 0 < u) (hnu : n * u ≤ 1 / 10 ^ 8)
    (hroot : (5 * n * δ) ^ n ≤ a) (hstep : Near (5 * u) (exactStep n a x) y)
    (hclose : |y - x| ≤ δ + u * (δ + x + y)) : ∃ z, 0 < z ∧ z ^ n ≤ a ∧ y ≤ z + δ / 2 + 15 * (u * z) := by
  have hroot' : 5 * n * δ ≤ exactStep n a x :=
    le_of_pow_le_pow_left₀ (by omega) (exactStep_nonneg n ha hx.le) (hroot.trans (le_exactStep_pow (by omega) ha hx))
  obtain ⟨hdown, hup⟩ := abs_le.1 hclose
  rcases le_total x (exactStep n a x) with hle | hle
  · have hexact : exactStep n a x = x + (exactStep n a x - x) := by ring
    rw [hexact] at hroot' hstep
    exact exists_below_of_ascent hn hx hδ hu hnu (sub_nonneg.2 hle) hexact hroot' hstep hup
  · have hexact : exactStep n a x = x - (x - exactStep n a x) := by ring
    rw [hexact] at hroot' hstep
    exact exists_below_of_descent hn hx hδ hu hnu (sub_nonneg.2 hle) hexact hroot' hstep (by linarith)

end ShortStep

/-! ## The last iterate -/

theorem tenPow_pow (e : ℤ) (n : Nat) : tenPow e ^ n = tenPow (e * n) := by
  rw [tenPow, tenPow, zpow_mul, zpow_natCast]

/-- What is below the root is below the power of ten behind the leading digit of the root. -/
theorem lt_of_pow_le {a : Decimal} {n : Nat} (hn : 1 ≤ n) (ha : 0 < a.toRat) {z : ℚ} (h : z ^ n ≤ a.toRat) :
    z < tenPow (a.adjusted.fdiv n + 1) := by
  refine lt_of_pow_lt_pow_left₀ n (tenPow_pos _).le (h.trans_lt ?_)
  have hlt := abs_toRat_lt a
  rw [abs_of_pos ha] at hlt
  refine hlt.trans_le ?_
  rw [tenPow_pow, tenPow_le_tenPow, Int.fdiv_eq_ediv_of_nonneg _ (by omega)]
  have := Int.lt_ediv_add_one_mul_self a.adjusted (show (0 : ℤ) < n by omega)
  omega

/-- An iterate near the root: at most `δ` above it, and hardly below it. -/
structure Encloses (n : Nat) (a δ y : ℚ) : Prop where
  large : 2 * δ ≤ y
  below : (y - δ) ^ n ≤ a
  above : a ≤ (y + δ / 10 ^ 7) ^ n

section Iterate

variable {a x next : Decimal} {n prec : Nat} {precision : ℤ}

/-- The digits behind the precision leave errors that are far below the tolerance. -/
theorem ulp_mul_le (hn : 1 ≤ n) (ha : 0 < a.toRat) (hprec : workingPrecision a n precision = .ok prec) {z : ℚ}
    (hz : z ^ n ≤ a.toRat) : ulp prec * z ≤ tenPow (-precision) / 10 ^ 8 := by
  obtain ⟨-, heq⟩ := workingPrecision_eq_ok hprec
  have hlt := lt_of_pow_le hn ha hz
  calc ulp prec * z ≤ ulp prec * tenPow (a.adjusted.fdiv n + 1) := mul_le_mul_of_nonneg_left hlt.le (ulp_pos prec).le
    _ = tenPow (1 - prec + (a.adjusted.fdiv n + 1)) := by rw [ulp, ← tenPow_add]
    _ ≤ tenPow (-precision + -8) := by
      rw [tenPow_le_tenPow, heq, guardDigits]
      omega
    _ = tenPow (-precision) / 10 ^ 8 := by
      rw [tenPow_add, show tenPow (-8) = 1 / 10 ^ 8 by norm_num [tenPow]]
      ring

theorem index_mul_ulp_le (hn : 1 ≤ n) (ha : 0 < a.toRat) (hprec : workingPrecision a n precision = .ok prec)
    (hroot : (5 * n * tenPow (-precision)) ^ n ≤ a.toRat) : n * ulp prec ≤ 1 / 10 ^ 8 := by
  have hδ := tenPow_pos (-precision)
  have hu := ulp_pos prec
  have := ulp_mul_le hn ha hprec hroot
  rw [le_div_iff₀ (by positivity)] at this ⊢
  nlinarith

theorem ulp_le_of_index_mul_ulp_le (hn : 1 ≤ n) (h : n * ulp prec ≤ 1 / 10 ^ 8) : ulp prec ≤ 1 / 10 ^ 8 :=
  (le_mul_of_one_le_left (ulp_pos prec).le (by exact_mod_cast hn)).trans h

theorem abs_toRat_lt_of_agree (h : agree prec precision x next = true) :
    |(Significant.sub prec next x).toRat| < tenPow (-precision) := by
  unfold agree at h
  rw [Bool.or_eq_true, decide_eq_true_eq] at h
  rcases h with hzero | hlt
  · rw [(toRat_eq_zero_iff _).2 ((isZero_iff _).1 hzero), abs_zero]
    exact tenPow_pos _
  · exact lt_tenPow_of_adjusted_lt hlt

/-- Where two iterates agree, the second one encloses the root. -/
theorem encloses_of_agree (hn : 2 ≤ n) (ha : 0 < a.toRat)
    (hprec : workingPrecision a n precision = .ok prec) (hx : 0 ≤ x.toRat)
    (hroot : (5 * n * tenPow (-precision)) ^ n ≤ a.toRat) (hstep : newtonStep prec n a x = .ok next)
    (hagree : agree prec precision x next = true) : Encloses n a.toRat (tenPow (-precision)) next.toRat := by
  obtain ⟨hprec1, heq⟩ := workingPrecision_eq_ok hprec
  have hδ := tenPow_pos (-precision)
  have hu := ulp_pos prec
  have hnu := index_mul_ulp_le (by omega) ha hprec hroot
  have hn' : (2 : ℚ) ≤ n := by exact_mod_cast hn
  have hu' : 2 * ulp prec ≤ 1 / 10 ^ 8 := (mul_le_mul_of_nonneg_right hn' hu.le).trans hnu
  obtain ⟨hx', hnear⟩ := newtonStep_near hprec1 (by linarith) hn ha.le hx hstep
  have hnext := newtonStep_nonneg hprec1 hn ha.le hx hstep
  have hclose : |next.toRat - x.toRat| ≤
      tenPow (-precision) + ulp prec * (tenPow (-precision) + x.toRat + next.toRat) := by
    have h1 := abs_sub_le hprec1 hnext hx
    have h2 := mul_le_mul_of_nonneg_left (abs_toRat_lt_of_agree hagree).le (by linarith : 0 ≤ 1 + ulp prec)
    linarith
  obtain ⟨z, hz, hpow, hle⟩ := exists_below hn ha.le hx' hδ hu hnu hroot hnear hclose
  have huz := ulp_mul_le (by omega) ha hprec hpow
  -- from above: the exact step is not below the root, and the iterate is near it
  have hN := exactStep_nonneg n ha.le hx
  have hNpow := le_exactStep_pow (by omega) ha.le hx' (n := n)
  have hNroot := le_of_pow_le_pow_left₀ (by omega) hN (hroot.trans hNpow)
  obtain ⟨hlow, -⟩ := (near_iff hN).1 hnear
  generalize exactStep n a.toRat x.toRat = N at *
  generalize tenPow (-precision) = δ at *
  generalize ulp prec = u at *
  generalize next.toRat = y at *
  have huN : u * N ≤ N / 10 ^ 8 := by nlinarith
  have hlarge : 2 * δ ≤ n * δ := mul_le_mul_of_nonneg_right hn' hδ.le
  have hy : 2 * δ ≤ y := by linarith
  refine ⟨hy, ?_, hNpow.trans (pow_le_pow_left₀ hN ?_ n)⟩
  · exact (pow_le_pow_left₀ (by linarith) (by linarith) n).trans hpow
  · have huy : u * y ≤ u * z + u * δ := by
      rw [← mul_add]
      exact mul_le_mul_of_nonneg_left (by linarith) hu.le
    have huδ : u * δ ≤ δ / (2 * 10 ^ 8) := by nlinarith
    have huN' : u * N ≤ 11 / 10 * (u * y) := by nlinarith
    linarith

end Iterate

end Reckon.Roots
