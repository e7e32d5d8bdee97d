/-
When the steps of the iteration are enough. From a start above the root the distance halves at each
step, and once the iterate is near the digits double; the first step from below may overshoot, by
more the greater the index is. So a start near the root needs few steps, and one that is off by up to
a digit needs a number of steps that grows with the square of the index.
-/
import Reckon.Proofs.Roots.Step

namespace Reckon.Roots

open Reckon.Decimal Reckon.Decimal.Significant

/-! ## Powers of the iterates -/

section Powers

variable {n : Nat} {a x y u v X Y t : ℚ}

theorem exactStep_pow_mul_le (hn : 1 ≤ n) (ha : 0 ≤ a) (hx : 0 < x) :
    exactStep n a x ^ n * (2 * x ^ n - a) ≤ (x ^ n) ^ 2 := by
  have hN := exactStep_nonneg n ha hx.le
  rcases le_total (2 * x ^ n) a with hlow | hhigh
  · exact (mul_nonpos_of_nonneg_of_nonpos (by positivity) (by linarith)).trans (by positivity)
  have hn' : (1 : ℚ) ≤ n := by exact_mod_cast hn
  have hX : 0 < x ^ n := by positivity
  have hratio : 0 ≤ a / x ^ n := by positivity
  have hratio' : a / x ^ n ≤ 2 := by rwa [div_le_iff₀ hX]
  rw [exactStep_eq hn hx]
  obtain ⟨s, hs⟩ : ∃ s, s = (a / x ^ n - 1) / n := ⟨_, rfl⟩
  have hns : n * s = a / x ^ n - 1 := by rw [hs, mul_div_cancel₀ _ (by positivity)]
  have hfactor : (1 + s) ^ n * (1 - n * s) ≤ 1 := by
    rcases le_total 0 s with hpos | hneg
    · exact one_add_pow_mul_le_one hpos (by nlinarith) n
    · have := one_sub_pow_mul_le_one (neg_nonneg.2 hneg) (by nlinarith) n
      rwa [sub_neg_eq_add, mul_neg, ← sub_eq_add_neg] at this
  rw [← hs, mul_pow]
  calc x ^ n * (1 + s) ^ n * (2 * x ^ n - a) = (x ^ n) ^ 2 * ((1 + s) ^ n * (1 - n * s)) := by
        rw [hns]
        field_simp
        ring
    _ ≤ (x ^ n) ^ 2 * 1 := by gcongr
    _ = (x ^ n) ^ 2 := mul_one _

theorem mul_pow_le_of_near {N : ℚ} (hn : 1 ≤ n) (hu : 0 < u) (hnu : n * u ≤ 1 / 10) (hN : 0 ≤ N)
    (h : Near (5 * u) N y) : (1 - 5 * (n * u)) * y ^ n ≤ N ^ n := by
  have hn' : (1 : ℚ) ≤ n := by exact_mod_cast hn
  have hu' : u ≤ 1 / 10 := le_trans (le_mul_of_one_le_left hu.le hn') hnu
  have hy : 0 ≤ y := near_nonneg hN (by linarith) h
  calc (1 - 5 * (n * u)) * y ^ n ≤ (1 - 5 * (n * u)) * ((1 + 5 * u) * N) ^ n := by
        gcongr
        · linarith
        · exact ((near_iff hN).1 h).2
    _ = (1 + 5 * u) ^ n * (1 - n * (5 * u)) * N ^ n := by rw [mul_pow]; ring
    _ ≤ 1 * N ^ n := by
      gcongr
      exact one_add_pow_mul_le_one (by positivity) (by linarith) n
    _ = N ^ n := one_mul _

/-- What a step with errors does to the power of the iterate. -/
theorem step_pow (hn : 1 ≤ n) (ha : 0 ≤ a) (hx : 0 < x) (hu : 0 < u) (hnu : n * u ≤ 1 / 10)
    (hstep : Near (5 * u) (exactStep n a x) y) :
    (1 - 5 * (n * u)) * a ≤ y ^ n ∧ (1 - 5 * (n * u)) * y ^ n * (2 * x ^ n - a) ≤ (x ^ n) ^ 2 := by
  have hn' : (1 : ℚ) ≤ n := by exact_mod_cast hn
  have hu' : u ≤ 1 / 10 := le_trans (le_mul_of_one_le_left hu.le hn') hnu
  have hN := exactStep_nonneg n ha hx.le
  obtain ⟨hlow, -⟩ := (near_iff hN).1 hstep
  have hpow := mul_pow_le_of_near hn hu hnu hN hstep
  have hbelow := le_exactStep_pow hn ha hx
  have habove := exactStep_pow_mul_le hn ha hx
  have hy : 0 ≤ y := near_nonneg hN (by linarith) hstep
  generalize exactStep n a x = N at *
  have hM : 0 ≤ N ^ n := by positivity
  constructor
  · have hbernoulli := one_add_mul_le_pow (show -2 ≤ -(5 * u) by linarith) n
    -- what the errors take away counts once for each factor of the power
    calc (1 - 5 * (n * u)) * a ≤ (1 - 5 * (n * u)) * N ^ n := by
          gcongr
          linarith
      _ = (1 + n * -(5 * u)) * N ^ n := by ring
      _ ≤ (1 + -(5 * u)) ^ n * N ^ n := by gcongr
      _ = ((1 - 5 * u) * N) ^ n := by rw [mul_pow, sub_eq_add_neg]
      _ ≤ y ^ n := by
        refine pow_le_pow_left₀ (mul_nonneg ?_ hN) hlow n
        linarith
  · rcases le_total (2 * x ^ n) a with hsmall | hlarge
    · refine (mul_nonpos_of_nonneg_of_nonpos (mul_nonneg ?_ (by positivity)) (by linarith)).trans (by positivity)
      linarith
    exact (mul_le_mul_of_nonneg_right hpow (by linarith)).trans habove

/-- Near the root the distance is squared. -/
theorem abs_sub_le_of_near (ha : 0 < a) (hv : 0 ≤ v) (hv' : v ≤ 1 / 10) (ht : t ≤ 1 / 5) (hX : |X - a| ≤ t * a)
    (hlow : (1 - v) * a ≤ Y) (hhigh : (1 - v) * Y * (2 * X - a) ≤ X ^ 2) :
    |Y - a| ≤ (5 / 3 * t ^ 2 + 3 * v) * a := by
  have ht0 : 0 ≤ t := by
    by_contra hneg
    have := mul_neg_of_neg_of_pos (not_le.1 hneg) ha
    linarith [abs_nonneg (X - a)]
  obtain ⟨hX1, hX2⟩ := abs_le.1 hX
  have hta : t * a ≤ 1 / 5 * a := by gcongr
  have hD : 3 / 5 * a ≤ 2 * X - a := by linarith
  have hsquare : (X - a) ^ 2 ≤ (t * a) ^ 2 := sq_le_sq' hX1 hX2
  rw [abs_le]
  constructor
  · have : 0 ≤ 5 / 3 * t ^ 2 * a := by positivity
    nlinarith
  · have hta2 : t ^ 2 * a * a ≤ t ^ 2 * a * (5 / 3 * (2 * X - a)) := by gcongr; linarith
    have hX2' : X ^ 2 ≤ (1 + 5 / 3 * t ^ 2) * a * (2 * X - a) := by nlinarith
    have hv2 : 1 + 5 / 3 * t ^ 2 ≤ (1 - v) * (1 + 5 / 3 * t ^ 2 + 3 * v) := by
      have ht2 : t ^ 2 ≤ 1 / 25 := by nlinarith
      nlinarith
    have hle : (1 - v) * (2 * X - a) * Y ≤ (1 - v) * (2 * X - a) * ((1 + 5 / 3 * t ^ 2 + 3 * v) * a) := calc
      (1 - v) * (2 * X - a) * Y = (1 - v) * Y * (2 * X - a) := by ring
      _ ≤ (1 + 5 / 3 * t ^ 2) * a * (2 * X - a) := hhigh.trans hX2'
      _ ≤ (1 - v) * (1 + 5 / 3 * t ^ 2 + 3 * v) * a * (2 * X - a) := by
        gcongr
        linarith
      _ = (1 - v) * (2 * X - a) * ((1 + 5 / 3 * t ^ 2 + 3 * v) * a) := by ring
    have hpos : 0 < (1 - v) * (2 * X - a) := mul_pos (by linarith) (by linarith)
    linarith [le_of_mul_le_mul_left hle hpos]

/-- Far above the root the distance is halved. -/
theorem sub_le_of_above (ha : 0 < a) (hv : v ≤ 1 / 2400) (hX : a / 5 ≤ X - a)
    (hhigh : (1 - v) * Y * (2 * X - a) ≤ X ^ 2) : 199 / 100 * (Y - a) ≤ X - a := by
  have hD : 0 < 2 * X - a := by linarith
  have hX2 : X ^ 2 ≤ (X + a) / 2 * (2 * X - a) := by nlinarith
  have hY : (1 - v) * Y ≤ (X + a) / 2 := le_of_mul_le_mul_right (hhigh.trans hX2) hD
  have hvX : v * (a + 100 / 199 * (X - a)) ≤ 1 / 398 * (X - a) := by
    have : v * (a + 100 / 199 * (X - a)) ≤ 1 / 2400 * (a + 100 / 199 * (X - a)) := by
      gcongr
      linarith
    linarith
  have hle : (1 - v) * Y ≤ (1 - v) * (a + 100 / 199 * (X - a)) := by linarith
  linarith [le_of_mul_le_mul_left hle (by linarith : 0 < 1 - v)]

/-- Near the root the exact step is short. -/
theorem abs_exactStep_sub_le (hn : 1 ≤ n) (ha : 0 ≤ a) (hx : 0 < x) (hnu : 0 ≤ n * u) (hnu' : n * u ≤ 1 / 10 ^ 8)
    (hnear : |x ^ n - a| ≤ 90 * (n * u) * a) : |exactStep n a x - x| ≤ 91 * (u * x) := by
  have hX : 0 < x ^ n := by positivity
  have hsmall : 90 * (n * u) * a ≤ 1 / 10 ^ 6 * a := by
    gcongr
    linarith
  have hdistance : |a / x ^ n - 1| ≤ 91 * (n * u) := by
    rw [← div_self hX.ne', ← sub_div, abs_div, abs_of_pos hX, div_le_iff₀ hX, abs_sub_comm]
    refine hnear.trans ?_
    have : 90 * a ≤ 91 * x ^ n := by linarith [(abs_le.1 hnear).1]
    nlinarith
  have heq : exactStep n a x - x = x / n * (a / x ^ n - 1) := by
    rw [exactStep_eq hn hx]
    field_simp
    ring
  rw [heq, abs_mul, abs_of_nonneg (by positivity)]
  calc x / n * |a / x ^ n - 1| ≤ x / n * (91 * (n * u)) := by gcongr
    _ = 91 * (u * x) := by field_simp

/-- From below the exact step goes too far by ten to the index at most. -/
theorem exactStep_pow_le_of_below (hn : 1 ≤ n) (ha : 0 ≤ a) (hx : 0 < x) (hbelow : x ^ n ≤ a) (hreach : a ≤ 10 ^ n * x ^ n) :
    exactStep n a x ^ n ≤ 10 ^ n ^ 2 * a := by
  have hN := exactStep_nonneg n ha hx.le
  have hovershoot : exactStep n a x ≤ x * 10 ^ n := by
    rw [exactStep_eq hn hx]
    have hratio : a / x ^ n ≤ 10 ^ n := by rwa [div_le_iff₀ (by positivity)]
    have hratio1 : 1 ≤ a / x ^ n := by rwa [one_le_div (by positivity)]
    have := div_le_self (sub_nonneg.2 hratio1) (by exact_mod_cast hn : (1 : ℚ) ≤ n)
    gcongr
    linarith
  calc exactStep n a x ^ n ≤ (x * 10 ^ n) ^ n := by gcongr
    _ = 10 ^ n ^ 2 * x ^ n := by rw [mul_pow, ← pow_mul, pow_two, mul_comm]
    _ ≤ 10 ^ n ^ 2 * a := by gcongr

/-- Four halvings for each of the digits of the power make up for an overshoot. -/
theorem six_mul_ten_pow_le (hn : 2 ≤ n) : 6 * 10 ^ n ^ 2 ≤ (199 / 100 : ℚ) ^ (4 * n ^ 2) := by
  have hsquare : 4 ≤ n ^ 2 := by nlinarith
  calc (6 : ℚ) * 10 ^ n ^ 2 ≤ (1568 / 1000) ^ 4 * 10 ^ n ^ 2 := by gcongr; norm_num
    _ ≤ (1568 / 1000) ^ n ^ 2 * 10 ^ n ^ 2 := by
      gcongr
      norm_num
    _ = (1568 / 100) ^ n ^ 2 := by rw [← mul_pow]; norm_num
    _ ≤ ((199 / 100) ^ 4) ^ n ^ 2 := by gcongr; norm_num
    _ = (199 / 100) ^ (4 * n ^ 2) := (pow_mul _ _ _).symm

end Powers

/-! ## The steps that are left -/

/-- The last iterate agrees with the one before it. -/
def IsSettled (prec n : Nat) (precision : ℤ) (a last : Decimal) : Prop :=
  ∃ x : Decimal, 0 ≤ x.toRat ∧ newtonStep prec n a x = .ok last ∧ agree prec precision x last = true

section Iterate

variable {prec n K : Nat} {precision : ℤ} {a x next last : Decimal}

theorem newton_succ_eq_ok {fuel : Nat} (h : newton prec n precision a (fuel + 1) x = .ok last) :
    ∃ next, newtonStep prec n a x = .ok next ∧
      (agree prec precision x next = true ∧ last = next ∨
        agree prec precision x next = false ∧ newton prec n precision a fuel next = .ok last) := by
  obtain ⟨next, hnext, h⟩ := Outcome.bind_eq_ok.1 h
  refine ⟨next, hnext, ?_⟩
  split at h
  · rename_i hagree
    exact .inl ⟨hagree, (Except.ok.inj h).symm⟩
  · rename_i hagree
    exact .inr ⟨Bool.eq_false_iff.2 hagree, h⟩

/-- With a step left the iteration settles at once or goes on from the next iterate. -/
theorem isSettled_or_step {fuel : Nat} (hx : 0 ≤ x.toRat) (hfuel : 1 ≤ fuel)
    (h : newton prec n precision a fuel x = .ok last) :
    IsSettled prec n precision a last ∨
      ∃ next, newtonStep prec n a x = .ok next ∧ newton prec n precision a (fuel - 1) next = .ok last := by
  obtain ⟨fuel, rfl⟩ : ∃ fuel', fuel = fuel' + 1 := ⟨fuel - 1, by omega⟩
  obtain ⟨next, hstep, h⟩ := newton_succ_eq_ok h
  rcases h with ⟨hagree, rfl⟩ | ⟨-, h⟩
  · exact .inl ⟨x, hx, hstep, hagree⟩
  · exact .inr ⟨next, hstep, h⟩

variable (hn : 2 ≤ n) (ha : 0 < a.toRat) (hprec : workingPrecision a n precision = .ok prec)
  (hroot : (5 * n * tenPow (-precision)) ^ n ≤ a.toRat)

include hn ha hprec hroot

theorem newtonStep_pow (hx : 0 ≤ x.toRat) (hstep : newtonStep prec n a x = .ok next) :
    0 ≤ next.toRat ∧ (1 - 5 * (n * ulp prec)) * a.toRat ≤ next.toRat ^ n ∧
      (1 - 5 * (n * ulp prec)) * next.toRat ^ n * (2 * x.toRat ^ n - a.toRat) ≤ (x.toRat ^ n) ^ 2 := by
  have hprec1 := (workingPrecision_eq_ok hprec).1
  have hnu := index_mul_ulp_le (by omega) ha hprec hroot
  have hu := ulp_pos prec
  have hu' := ulp_le_of_index_mul_ulp_le (by omega) hnu
  obtain ⟨hx', hnear⟩ := newtonStep_near hprec1 (by linarith) hn ha.le hx hstep
  exact ⟨newtonStep_nonneg hprec1 hn ha.le hx hstep, step_pow (by omega) ha.le hx' hu (by linarith) hnear⟩

/-- An iterate that is as near the root as the digits allow agrees with the next one. -/
theorem agree_of_near (hx : 0 ≤ x.toRat) (hnear : |x.toRat ^ n - a.toRat| ≤ 90 * (n * ulp prec) * a.toRat)
    (hstep : newtonStep prec n a x = .ok next) : agree prec precision x next = true := by
  have hprec1 := (workingPrecision_eq_ok hprec).1
  have hnu := index_mul_ulp_le (by omega) ha hprec hroot
  have hu := ulp_pos prec
  have hu' := ulp_le_of_index_mul_ulp_le (by omega) hnu
  obtain ⟨hx', hnext⟩ := newtonStep_near hprec1 (by linarith) hn ha.le hx hstep
  have hnext0 := newtonStep_nonneg hprec1 hn ha.le hx hstep
  have hX : 0 < x.toRat ^ n := by positivity
  obtain ⟨hX1, hX2⟩ := abs_le.1 hnear
  have hsmall : 90 * (n * ulp prec) * a.toRat ≤ 1 / 10 ^ 6 * a.toRat := by
    gcongr
    linarith
  have hexact := abs_exactStep_sub_le (by omega) ha.le hx' (by positivity) hnu hnear
  -- half of the iterate is below the root
  have hhalf : ulp prec * (x.toRat / 2) ≤ tenPow (-precision) / 10 ^ 8 := by
    refine ulp_mul_le (by omega) ha hprec ?_
    have htwo : (2 : ℚ) ≤ 2 ^ n := le_self_pow₀ (by norm_num) (by omega)
    rw [div_pow, div_le_iff₀ (by positivity)]
    nlinarith
  have hδ := tenPow_pos (-precision)
  have hux : ulp prec * x.toRat ≤ x.toRat / 10 ^ 8 := by nlinarith
  obtain ⟨hexact1, hexact2⟩ := abs_le.1 hexact
  obtain ⟨hlow, hhigh⟩ := (near_iff (exactStep_nonneg n ha.le hx)).1 hnext
  have huN : ulp prec * exactStep n a.toRat x.toRat ≤ 2 * (ulp prec * x.toRat) := by nlinarith
  have hmove : |next.toRat - x.toRat| ≤ 101 * (ulp prec * x.toRat) := by
    rw [abs_le]
    constructor <;> linarith
  have hsub : |(Significant.sub prec next x).toRat| < tenPow (-precision) := by
    have := sub_abs_le hprec1 hnext0 hx
    have : ulp prec * next.toRat ≤ 2 * (ulp prec * x.toRat) := by nlinarith
    linarith
  unfold agree
  rw [Bool.or_eq_true, decide_eq_true_eq, isZero_iff]
  by_cases hzero : (Significant.sub prec next x).coefficient = 0
  · exact .inl hzero
  · exact .inr (tenPow_lt_tenPow.1 ((tenPow_adjusted_le hzero).trans_lt hsub))

/-- Near the root `k` steps double the digits `k` times, and another one ends the iteration. -/
theorem isSettled_of_close (k : Nat) : ∀ {fuel : Nat} {x : Decimal} {t : ℚ}, 0 ≤ x.toRat →
    |x.toRat ^ n - a.toRat| ≤ t * a.toRat → t ≤ 1 / 5 → (2 * t) ^ 2 ^ k ≤ 180 * (n * ulp prec) → k + 1 ≤ fuel →
    newton prec n precision a fuel x = .ok last → IsSettled prec n precision a last := by
  have hnu := index_mul_ulp_le (by omega) ha hprec hroot
  have hnu0 : 0 < n * ulp prec := mul_pos (by exact_mod_cast (by omega : 0 < n)) (ulp_pos prec)
  induction k with
  | zero =>
    intro fuel x t hx hclose _ hdigits hfuel h
    obtain ⟨fuel, rfl⟩ : ∃ fuel', fuel = fuel' + 1 := ⟨fuel - 1, by omega⟩
    obtain ⟨next, hstep, h⟩ := newton_succ_eq_ok h
    rw [pow_zero, pow_one] at hdigits
    have hagree := agree_of_near hn ha hprec hroot hx (hclose.trans (by gcongr; linarith)) hstep
    rcases h with ⟨-, rfl⟩ | ⟨hnot, -⟩
    · exact ⟨x, hx, hstep, hagree⟩
    · rw [hagree] at hnot
      cases hnot
  | succ k ih =>
    intro fuel x t hx hclose ht hdigits hfuel h
    obtain hsettled | ⟨next, hstep, h⟩ := isSettled_or_step hx (by omega) h
    · exact hsettled
    have ht0 : 0 ≤ t := nonneg_of_mul_nonneg_left ((abs_nonneg _).trans hclose) ha
    obtain ⟨hnext, hlow, hhigh⟩ := newtonStep_pow hn ha hprec hroot hx hstep
    have hsquare := abs_sub_le_of_near ha (by positivity) (by linarith) ht hclose hlow hhigh
    -- either the square or the error of the arithmetic prevails
    rcases le_total (15 * (n * ulp prec)) (t ^ 2 / 3) with herror | herror
    · have htwo : (5 / 3 * t ^ 2 + 3 * (5 * (n * ulp prec))) * a.toRat ≤ 2 * t ^ 2 * a.toRat := by
        gcongr
        linarith
      refine ih hnext (hsquare.trans htwo) (by nlinarith) ?_ (by omega) h
      rwa [show 2 * (2 * t ^ 2) = (2 * t) ^ 2 by ring, ← pow_mul, ← pow_succ']
    · have hsix : (5 / 3 * t ^ 2 + 3 * (5 * (n * ulp prec))) * a.toRat ≤ 90 * (n * ulp prec) * a.toRat := by
        gcongr
        linarith
      refine ih hnext (hsquare.trans hsix) (by linarith) ?_ (by omega) h
      have hsmall : 2 * (90 * (n * ulp prec)) ≤ 1 := by linarith
      calc (2 * (90 * (n * ulp prec))) ^ 2 ^ k ≤ 2 * (90 * (n * ulp prec)) :=
            pow_le_of_le_one (by positivity) hsmall (by positivity)
        _ = 180 * (n * ulp prec) := by ring

/-- Above the root each step halves the distance, until the iterate is near the root. -/
theorem isSettled_of_above (hK : (2 / 5 : ℚ) ^ 2 ^ K ≤ 180 * (n * ulp prec)) (k : Nat) :
    ∀ {fuel : Nat} {x : Decimal}, 0 ≤ x.toRat → 4 / 5 * a.toRat ≤ x.toRat ^ n →
      x.toRat ^ n - a.toRat ≤ (199 / 100) ^ k * (a.toRat / 5) → k + K + 1 ≤ fuel →
      newton prec n precision a fuel x = .ok last → IsSettled prec n precision a last := by
  have hnu := index_mul_ulp_le (by omega) ha hprec hroot
  -- the halving may end early, so the last phase is taken up with any number of steps left
  have hnear : ∀ {fuel : Nat} {x : Decimal}, 0 ≤ x.toRat → 4 / 5 * a.toRat ≤ x.toRat ^ n →
      x.toRat ^ n - a.toRat ≤ a.toRat / 5 → K + 1 ≤ fuel → newton prec n precision a fuel x = .ok last →
      IsSettled prec n precision a last := by
    intro fuel x hx hlow hhigh hfuel h
    refine isSettled_of_close hn ha hprec hroot K hx (t := 1 / 5) ?_ le_rfl (by norm_num; exact hK) hfuel h
    rw [abs_le]
    constructor <;> linarith
  induction k with
  | zero =>
    intro fuel x hx hlow hhigh hfuel h
    rw [pow_zero, one_mul] at hhigh
    exact hnear hx hlow hhigh (by omega) h
  | succ k ih =>
    intro fuel x hx hlow hhigh hfuel h
    rcases le_total (x.toRat ^ n - a.toRat) (a.toRat / 5) with hle | hfar
    · exact hnear hx hlow hle (by omega) h
    obtain hsettled | ⟨next, hstep, h⟩ := isSettled_or_step hx (by omega) h
    · exact hsettled
    obtain ⟨hnext, hlow', hhigh'⟩ := newtonStep_pow hn ha hprec hroot hx hstep
    have hhalf := sub_le_of_above ha (by linarith) hfar hhigh'
    refine ih hnext ?_ ?_ (by omega) h
    · nlinarith
    · rw [pow_succ] at hhigh
      linarith

/-- From a start that is off by a digit at most, the first step may overshoot by as many digits as the
index, and it takes four steps for each of the digits of the power to come back. -/
theorem isSettled_of_reach (hK : (2 / 5 : ℚ) ^ 2 ^ K ≤ 180 * (n * ulp prec)) {fuel : Nat} (hx : 0 ≤ x.toRat)
    (hlow : x.toRat ^ n ≤ 10 ^ n * a.toRat) (hhigh : a.toRat ≤ 10 ^ n * x.toRat ^ n) (hfuel : 4 * n ^ 2 + K + 2 ≤ fuel)
    (h : newton prec n precision a fuel x = .ok last) : IsSettled prec n precision a last := by
  have hnu := index_mul_ulp_le (by omega) ha hprec hroot
  have htarget := mul_le_mul_of_nonneg_right (six_mul_ten_pow_le hn) (by positivity : 0 ≤ a.toRat / 5)
  -- from above no step leads away; from below the first one goes too far by ten to the index at most
  rcases le_total a.toRat (x.toRat ^ n) with habove | hbelow
  · refine isSettled_of_above hn ha hprec hroot hK (4 * n ^ 2) hx (by linarith) ?_ (by omega) h
    have hindex : (10 : ℚ) ^ n * a.toRat ≤ 10 ^ n ^ 2 * a.toRat := by
      gcongr
      · norm_num
      · nlinarith
    linarith
  obtain hsettled | ⟨next, hstep, h⟩ := isSettled_or_step hx (by omega) h
  · exact hsettled
  obtain ⟨hnext, hnextlow, -⟩ := newtonStep_pow hn ha hprec hroot hx hstep
  refine isSettled_of_above hn ha hprec hroot hK (4 * n ^ 2) hnext (by nlinarith) ?_ (by omega) h
  have hprec1 := (workingPrecision_eq_ok hprec).1
  have hu := ulp_pos prec
  have hu' := ulp_le_of_index_mul_ulp_le (by omega) hnu
  obtain ⟨hx', hnear⟩ := newtonStep_near hprec1 (by linarith) hn ha.le hx hstep
  have hN := exactStep_nonneg n ha.le hx
  have hpow := exactStep_pow_le_of_below (by omega) ha.le hx' hbelow hhigh
  have hround : (1 - 5 * (n * ulp prec)) * next.toRat ^ n ≤ exactStep n a.toRat x.toRat ^ n :=
    mul_pow_le_of_near (by omega) hu (by linarith) hN hnear
  nlinarith [pow_nonneg hnext n]

end Iterate

/-! ## Starts -/

/-- Two iterates agree within the steps. -/
def settles (prec n : Nat) (precision : ℤ) (a : Decimal) : (fuel : Nat) → Decimal → Bool
  | 0, _ => false
  | fuel + 1, x =>
    match newtonStep prec n a x with
    | .ok next => agree prec precision x next || settles prec n precision a fuel next
    | .error _ => false

/-- The steps from a start are enough: two iterates agree before they are used up. They are also enough
if each of `k` steps can double the digits, where the start is near the root, or where it is off by a
digit at most and there are steps to come back from where the first one leads. -/
inductive EnoughSteps (prec n : Nat) (precision : ℤ) (a start : Decimal) (fuel : Nat) : Prop where
  | settled : settles prec n precision a fuel start = true → EnoughSteps prec n precision a start fuel
  | close {k : Nat} : 4 * prec ≤ 2 ^ k → k + 1 ≤ fuel → |start.toRat ^ n - a.toRat| ≤ a.toRat / 5 →
      EnoughSteps prec n precision a start fuel
  | reach {k : Nat} : 4 * prec ≤ 2 ^ k → 4 * n ^ 2 + k + 2 ≤ fuel → start.toRat ^ n ≤ 10 ^ n * a.toRat →
      a.toRat ≤ 10 ^ n * start.toRat ^ n → EnoughSteps prec n precision a start fuel

/-- The steps that the iteration for a root has are enough from its start. -/
def Converges (a : Decimal) (n : Nat) (precision : ℤ) : Prop :=
  ∃ prec start, workingPrecision a n precision = .ok prec ∧ initialGuess a n = .ok start ∧
    EnoughSteps prec n precision a start (precision + extraIterations).toNat

theorem isSettled_of_settles {prec n : Nat} {precision : ℤ} {a : Decimal} (hprec : 1 ≤ prec) (hn : 2 ≤ n)
    (ha : 0 ≤ a.toRat) (fuel : Nat) : ∀ {x last : Decimal}, 0 ≤ x.toRat → settles prec n precision a fuel x = true →
      newton prec n precision a fuel x = .ok last → IsSettled prec n precision a last := by
  induction fuel with
  | zero => intro x last _ h _; cases h
  | succ fuel ih =>
    intro x last hx h hlast
    obtain ⟨next, hnext, hlast⟩ := newton_succ_eq_ok hlast
    rw [settles, hnext] at h
    rcases hlast with ⟨hagree, rfl⟩ | ⟨hagree, hlast⟩
    · exact ⟨x, hx, hnext, hagree⟩
    · simp only [hagree, Bool.false_or] at h
      exact ih (newtonStep_nonneg hprec hn ha hx hnext) h hlast

/-- Enough doublings make the digits that are carried. -/
theorem pow_le_mul_ulp {prec n k : Nat} (hn : 1 ≤ n) (h : 4 * prec ≤ 2 ^ k) : (2 / 5 : ℚ) ^ 2 ^ k ≤ 180 * (n * ulp prec) := by
  have hn' : (1 : ℚ) ≤ n := by exact_mod_cast hn
  have hu := ulp_pos prec
  calc (2 / 5 : ℚ) ^ 2 ^ k ≤ (2 / 5) ^ (4 * prec) := pow_le_pow_of_le_one (by norm_num) (by norm_num) h
    _ = ((2 / 5) ^ 4) ^ prec := pow_mul _ _ _
    _ ≤ (1 / 10) ^ prec := by gcongr; norm_num
    _ = tenPow (-prec) := by rw [tenPow, zpow_neg, zpow_natCast, one_div, inv_pow]
    _ ≤ ulp prec := by
      rw [ulp, tenPow_le_tenPow]
      omega
    _ ≤ 180 * (n * ulp prec) := by nlinarith

theorem isSettled_of_enoughSteps {prec n : Nat} {precision : ℤ} {a start last : Decimal} {fuel : Nat} (hn : 2 ≤ n)
    (ha : 0 < a.toRat) (hprec : workingPrecision a n precision = .ok prec)
    (hroot : (5 * n * tenPow (-precision)) ^ n ≤ a.toRat) (hstart : 0 ≤ start.toRat)
    (hsteps : EnoughSteps prec n precision a start fuel) (h : newton prec n precision a fuel start = .ok last) :
    IsSettled prec n precision a last := by
  cases hsteps with
  | settled hsettles =>
    exact isSettled_of_settles (workingPrecision_eq_ok hprec).1 hn ha.le fuel hstart hsettles h
  | @close k hk hfuel hclose =>
    have hdigits := pow_le_mul_ulp (show 1 ≤ n by omega) hk
    rw [show (2 / 5 : ℚ) = 2 * (1 / 5) by norm_num] at hdigits
    exact isSettled_of_close hn ha hprec hroot k hstart (by linarith) le_rfl hdigits hfuel h
  | reach hk hfuel hlow hhigh =>
    exact isSettled_of_reach hn ha hprec hroot (pow_le_mul_ulp (by omega) hk) hstart hlow hhigh hfuel h

/-- A power of ten with the exponent of the root is off by a digit at most. -/
theorem far_in_reach {a : Decimal} {n : Nat} (hn : 1 ≤ n) (ha : 0 < a.toRat) :
    Decimal.toRat ⟨false, 1, a.adjusted.fdiv n⟩ ^ n ≤ 10 ^ n * a.toRat ∧
      a.toRat ≤ 10 ^ n * Decimal.toRat ⟨false, 1, a.adjusted.fdiv n⟩ ^ n := by
  have hfar : Decimal.toRat ⟨false, 1, a.adjusted.fdiv n⟩ ^ n = tenPow (a.adjusted.fdiv n * n) := by
    rw [toRat_eq_sign, if_neg Bool.false_ne_true, one_mul, Nat.cast_one, one_mul, tenPow_pow]
  have hcoefficient : a.coefficient ≠ 0 := by rw [Ne, ← toRat_eq_zero_iff]; exact ha.ne'
  have hlow := tenPow_adjusted_le hcoefficient
  have hhigh := abs_toRat_lt a
  rw [abs_of_pos ha] at hlow hhigh
  have hdiv := Int.fdiv_eq_ediv_of_nonneg a.adjusted (show (0 : ℤ) ≤ n by omega)
  have hle := Int.ediv_mul_le a.adjusted (show (n : ℤ) ≠ 0 by omega)
  have hlt := Int.lt_ediv_add_one_mul_self a.adjusted (show (0 : ℤ) < n by omega)
  have hone : (1 : ℚ) ≤ 10 ^ n := one_le_pow₀ (by norm_num)
  rw [hfar, hdiv]
  constructor
  · exact ((tenPow_le_tenPow.2 hle).trans hlow).trans (le_mul_of_one_le_left ha.le hone)
  · refine hhigh.le.trans ?_
    rw [show (10 : ℚ) ^ n = tenPow n by rw [tenPow, zpow_natCast], ← tenPow_add, tenPow_le_tenPow]
    linarith

/-- Outside the range of 64-bit numbers a small index suffices. -/
theorem converges_of_far {a : Decimal} {n prec k : Nat} {precision : ℤ} (hn : 1 ≤ n) (ha : 0 < a.toRat)
    (hprec : workingPrecision a n precision = .ok prec) (hstart : initialGuess a n = .ok ⟨false, 1, a.adjusted.fdiv n⟩)
    (hk : 4 * prec ≤ 2 ^ k) (hindex : 4 * n ^ 2 + k + 2 ≤ (precision + extraIterations).toNat) :
    Converges a n precision :=
  have ⟨hlow, hhigh⟩ := far_in_reach hn ha
  ⟨prec, _, hprec, hstart, .reach hk hindex hlow hhigh⟩

/-- Where the steps are enough, the last iterate encloses the root. -/
theorem encloses_of_converges {a last : Decimal} {n : Nat} {precision : ℤ} (hn : 2 ≤ n) (ha : 0 < a.toRat)
    (hroot : (5 * n * tenPow (-precision)) ^ n ≤ a.toRat) (hconverges : Converges a n precision)
    (h : iterate a n precision none = .ok last) : Encloses n a.toRat (tenPow (-precision)) last.toRat := by
  obtain ⟨prec, start, hprec, hstart, hsteps⟩ := hconverges
  unfold iterate at h
  rw [hprec, hstart] at h
  obtain ⟨x, hx, hstep, hagree⟩ :=
    isSettled_of_enoughSteps hn ha hprec hroot (initialGuess_nonneg hstart) hsteps h
  exact encloses_of_agree hn ha hprec hx hroot hstep hagree

end Reckon.Roots
