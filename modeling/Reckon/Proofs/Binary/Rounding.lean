/-
Rounding to binary numbers. A rational is rounded to a whole number of units, and the unit is the
power of two that leaves the significand its full precision, or the least one there is. From this
follow the error, at most half a unit, and that a power of two is never passed.
-/
import Reckon.Real.Roots
import Reckon.Proofs.Decimal.Significant

namespace Reckon

/-! ## Values -/

namespace FiniteBinary

variable {f : Format}

theorem unit_pos (f : Format) : 0 < f.unit := by cases f <;> decide

theorem absRat_eq (x : FiniteBinary f) : x.absRat = x.significand * (2 : ℚ) ^ x.quantum := by
  unfold absRat
  split
  · rename_i h
    conv_rhs => rw [show x.quantum = (x.quantum.natAbs : ℤ) by omega, zpow_natCast]
    push_cast
    rfl
  · rename_i h
    conv_rhs => rw [show x.quantum = -(x.quantum.natAbs : ℤ) by omega, zpow_neg, zpow_natCast]
    rw [Rat.mkRat_eq_div, div_eq_mul_inv]
    push_cast
    rfl

theorem absRat_nonneg (x : FiniteBinary f) : 0 ≤ x.absRat := by
  rw [absRat_eq]
  positivity

theorem abs_toRat (x : FiniteBinary f) : |x.toRat| = x.absRat := by
  unfold toRat
  split
  · rw [abs_neg, abs_of_nonneg x.absRat_nonneg]
  · exact abs_of_nonneg x.absRat_nonneg

theorem significand_lt_unit (x : FiniteBinary f) : x.significand < 2 * f.unit := by
  have := Nat.mod_lt x.magnitude (unit_pos f)
  unfold significand
  split <;> omega

/-- The magnitude of `m` units of 2 ^ `e`, where a full significand may carry into the next bit. -/
theorem absRat_of_magnitude {x : FiniteBinary f} {m : Nat} {e : ℤ} (he : f.minQuantum ≤ e) (hm : m ≤ 2 * f.unit)
    (hfull : e = f.minQuantum ∨ f.unit ≤ m) (hx : x.magnitude = (e - f.minQuantum).toNat * f.unit + m) :
    x.absRat = m * (2 : ℚ) ^ e := by
  have hunit := unit_pos f
  obtain ⟨k, hk⟩ : ∃ k : Nat, e = f.minQuantum + k := ⟨(e - f.minQuantum).toNat, by omega⟩
  rw [show (e - f.minQuantum).toNat = k by omega] at hx
  rw [absRat_eq]
  unfold significand quantum
  -- below the unit the number is subnormal, so it is in the first binade
  rcases lt_or_ge m f.unit with hsub | hnormal
  · obtain rfl : k = 0 := by omega
    rw [Nat.zero_mul, Nat.zero_add] at hx
    rw [hx, if_pos hsub, if_pos hsub, hk]
    simp
  have hlarge : ¬ x.magnitude < f.unit := by rw [hx]; omega
  rw [if_neg hlarge, if_neg hlarge]
  rcases Nat.lt_or_eq_of_le hm with hlt | rfl
  · have hsplit : x.magnitude = (k + 1) * f.unit + (m - f.unit) := by
      rw [hx, Nat.add_mul]
      omega
    have hdiv : x.magnitude / f.unit = k + 1 := by
      rw [hsplit, Nat.add_comm, Nat.add_mul_div_right _ _ hunit, Nat.div_eq_of_lt (by omega), Nat.zero_add]
    have hmod : x.magnitude % f.unit = m - f.unit := by
      rw [hsplit, Nat.add_comm, Nat.add_mul_mod_self_right, Nat.mod_eq_of_lt (by omega)]
    rw [hdiv, hmod, Nat.sub_add_cancel hnormal, Nat.add_sub_cancel, hk]
  -- two units carry into the next binade
  · have hsplit : x.magnitude = (k + 2) * f.unit := by
      rw [hx, Nat.add_mul]
    rw [hsplit, Nat.mul_mod_left, Nat.mul_div_cancel _ hunit, Nat.zero_add, hk,
      show f.minQuantum + ((k + 2 - 1 : Nat) : ℤ) = f.minQuantum + k + 1 by omega, zpow_add_one₀ (by norm_num)]
    push_cast
    ring

/-- A number from a power of two on is a whole number of units of its precision there. -/
theorem exists_units_of_le {x : FiniteBinary .double} {a : ℤ} (h : (2 : ℚ) ^ a ≤ x.absRat) :
    ∃ n : Nat, x.absRat = n * (2 : ℚ) ^ (a - 52) := by
  have hsig : (x.significand : ℚ) < 2 ^ (53 : ℤ) := by
    have := x.significand_lt_unit
    rw [show (2 : ℚ) ^ (53 : ℤ) = ((2 * Format.unit .double : Nat) : ℚ) by norm_num [Format.unit, Format.precision]]
    exact_mod_cast this
  have hlt : (2 : ℚ) ^ a < 2 ^ (53 + x.quantum) := calc
    (2 : ℚ) ^ a ≤ x.significand * 2 ^ x.quantum := x.absRat_eq ▸ h
    _ < 2 ^ (53 : ℤ) * 2 ^ x.quantum := by gcongr
    _ = 2 ^ (53 + x.quantum) := (zpow_add₀ (by norm_num) _ _).symm
  have hexp := (zpow_lt_zpow_iff_right₀ (by norm_num : (1 : ℚ) < 2)).1 hlt
  refine ⟨x.significand * 2 ^ (x.quantum - (a - 52)).toNat, ?_⟩
  rw [absRat_eq]
  push_cast
  rw [mul_assoc, ← zpow_natCast, ← zpow_add₀ (by norm_num)]
  congr 2
  omega

theorem toRat_largest : (largest .double).toRat = (2 ^ 53 - 1 : Nat) * 2 ^ (971 : ℤ) := by
  rw [toRat, if_neg (by decide), absRat_eq, show (largest .double).significand = 2 ^ 53 - 1 by decide,
    show (largest .double).quantum = 971 by decide]

theorem toRat_largest_lt : (largest .double).toRat < 2 ^ (1024 : ℤ) := calc
  (largest .double).toRat = (2 ^ 53 - 1 : Nat) * 2 ^ (971 : ℤ) := toRat_largest
  _ < 2 ^ (53 : ℤ) * 2 ^ (971 : ℤ) := by
    gcongr
    norm_num
  _ = 2 ^ (1024 : ℤ) := by rw [← zpow_add₀ (by norm_num), show (53 + 971 : ℤ) = 1024 by norm_num]

theorem two_zpow_le_largest {a : ℤ} (ha : a ≤ 1023) : (2 : ℚ) ^ a ≤ (largest .double).toRat := calc
  (2 : ℚ) ^ a ≤ 2 ^ (52 + 971 : ℤ) := zpow_le_zpow_right₀ (by norm_num) (by omega)
  _ = 2 ^ (52 : ℤ) * 2 ^ (971 : ℤ) := zpow_add₀ (by norm_num) _ _
  _ ≤ (2 ^ 53 - 1 : Nat) * 2 ^ (971 : ℤ) := by
    gcongr
    norm_num
  _ = (largest .double).toRat := toRat_largest.symm

end FiniteBinary

/-! ## Rounding a quotient -/

namespace Binary

variable {f : Format}

theorem overQuantum_spec (num : Nat) {den : Nat} (hden : 0 < den) (q : ℤ) : 0 < (overQuantum num den q).2 ∧
    ((overQuantum num den q).1 : ℚ) / (overQuantum num den q).2 = (num : ℚ) / den / 2 ^ q := by
  unfold overQuantum
  split
  · rename_i h
    refine ⟨Nat.mul_pos hden (by positivity), ?_⟩
    conv_rhs => rw [show q = (q.natAbs : ℤ) by omega, zpow_natCast]
    push_cast
    rw [div_div]
  · rename_i h
    refine ⟨hden, ?_⟩
    conv_rhs => rw [show q = -(q.natAbs : ℤ) by omega, zpow_neg, zpow_natCast, div_inv_eq_mul]
    push_cast
    ring

/-- The value `v` is rounded to `m` units of 2 ^ `e`. -/
structure Rounds (f : Format) (v : ℚ) (m : Nat) (e : ℤ) : Prop where
  least : f.minQuantum ≤ e
  low : e = f.minQuantum ∨ (f.unit : ℚ) * 2 ^ e ≤ v
  high : v < 2 * f.unit * 2 ^ e
  near : |m * (2 : ℚ) ^ e - v| ≤ 2 ^ e / 2

namespace Rounds

variable {v : ℚ} {m : Nat} {e : ℤ}

theorem le_of_units_le (h : Rounds f v m e) {n : Nat} (hn : n * (2 : ℚ) ^ e ≤ v) : n ≤ m := by
  have hpow : (0 : ℚ) < 2 ^ e := by positivity
  have hnear := (abs_le.1 h.near).1
  have : (n : ℚ) * 2 ^ e < (m + 1) * 2 ^ e := by linarith
  have := lt_of_mul_lt_mul_right this hpow.le
  exact Nat.lt_succ_iff.1 (by exact_mod_cast this)

theorem units_le (h : Rounds f v m e) {n : Nat} (hn : v ≤ n * (2 : ℚ) ^ e) : m ≤ n := by
  have hpow : (0 : ℚ) < 2 ^ e := by positivity
  have hnear := (abs_le.1 h.near).2
  have : (m : ℚ) * 2 ^ e < (n + 1) * 2 ^ e := by linarith
  have := lt_of_mul_lt_mul_right this hpow.le
  exact Nat.lt_succ_iff.1 (by exact_mod_cast this)

theorem le_two_units (h : Rounds f v m e) : m ≤ 2 * f.unit := by
  refine h.units_le ?_
  push_cast
  exact h.high.le

theorem full (h : Rounds f v m e) : e = f.minQuantum ∨ f.unit ≤ m :=
  h.low.imp_right fun hlow => h.le_of_units_le hlow

end Rounds

theorem two_pow_log2_le {n : Nat} (h : 0 < n) : ((2 : ℚ) ^ (n.log2 : ℤ)) ≤ n ∧ (n : ℚ) < 2 ^ ((n.log2 : ℤ) + 1) := by
  rw [zpow_natCast, zpow_add_one₀ (by norm_num), zpow_natCast, ← pow_succ]
  exact ⟨by exact_mod_cast Nat.log2_self_le h.ne', by exact_mod_cast Nat.lt_log2_self⟩

theorem unit_eq (f : Format) : (f.unit : ℚ) = 2 ^ ((f.precision : ℤ) - 1) := by
  cases f <;> norm_num [Format.unit, Format.precision]

theorem unit_mul_zpow (f : Format) (e : ℤ) : (f.unit : ℚ) * 2 ^ e = 2 ^ ((f.precision : ℤ) - 1 + e) := by
  rw [unit_eq, ← zpow_add₀ (by norm_num)]

theorem two_unit_mul_zpow (f : Format) (e : ℤ) : 2 * (f.unit : ℚ) * 2 ^ e = 2 ^ ((f.precision : ℤ) + e) := by
  rw [mul_assoc, unit_mul_zpow, ← zpow_one_add₀ (by norm_num)]
  congr 1
  ring

/-- There is one unit that leaves a value its full precision or is the least one. -/
theorem unit_unique {v : ℚ} {e e' : ℤ} (hleast : f.minQuantum ≤ e) (hhigh : v < 2 * f.unit * 2 ^ e)
    (hlow : e' = f.minQuantum ∨ (f.unit : ℚ) * 2 ^ e' ≤ v) : e' ≤ e := by
  rcases hlow with hmin | hlow
  · exact hmin.trans_le hleast
  · rw [unit_mul_zpow] at hlow
    rw [two_unit_mul_zpow] at hhigh
    have := (zpow_lt_zpow_iff_right₀ (by norm_num : (1 : ℚ) < 2)).1 (hlow.trans_lt hhigh)
    omega

/-- The lengths of numerator and denominator give a quotient up to a factor of two. -/
theorem log2_sub_bounds {num den : Nat} (hnum : 0 < num) (hden : 0 < den) :
    (2 : ℚ) ^ ((num.log2 : ℤ) - den.log2 - 1) ≤ (num : ℚ) / den ∧
      (num : ℚ) / den < 2 ^ ((num.log2 : ℤ) - den.log2 + 1) := by
  obtain ⟨hnlow, hnhigh⟩ := two_pow_log2_le hnum
  obtain ⟨hdlow, hdhigh⟩ := two_pow_log2_le hden
  have hdpos : (0 : ℚ) < den := by exact_mod_cast hden
  constructor
  · rw [le_div_iff₀ hdpos]
    calc (2 : ℚ) ^ ((num.log2 : ℤ) - den.log2 - 1) * den
        ≤ 2 ^ ((num.log2 : ℤ) - den.log2 - 1) * 2 ^ ((den.log2 : ℤ) + 1) := by gcongr
      _ = 2 ^ (num.log2 : ℤ) := by
        rw [← zpow_add₀ (by norm_num)]
        congr 1
        ring
      _ ≤ num := hnlow
  · rw [div_lt_iff₀ hdpos]
    calc (num : ℚ) < 2 ^ ((num.log2 : ℤ) + 1) := hnhigh
      _ = 2 ^ ((num.log2 : ℤ) - den.log2 + 1) * 2 ^ (den.log2 : ℤ) := by
        rw [← zpow_add₀ (by norm_num)]
        congr 1
        ring
      _ ≤ 2 ^ ((num.log2 : ℤ) - den.log2 + 1) * den := by gcongr

theorem overQuantum_div_lt_iff (num : Nat) {den : Nat} (hden : 0 < den) (q : ℤ) (k : Nat) :
    (overQuantum num den q).1 / (overQuantum num den q).2 < 2 ^ k ↔ (num : ℚ) / den < 2 ^ ((k : ℤ) + q) := by
  obtain ⟨hpos, hvalue⟩ := overQuantum_spec num hden q
  have hd : (0 : ℚ) < (overQuantum num den q).2 := by exact_mod_cast hpos
  rw [zpow_add₀ (by norm_num), ← div_lt_iff₀ (by positivity : (0 : ℚ) < 2 ^ q), ← hvalue, div_lt_iff₀ hd,
    Nat.div_lt_iff_lt_mul hpos, zpow_natCast]
  exact_mod_cast Iff.rfl

/-- The unit of a quotient leaves its significand the full precision, or it is the least one. -/
theorem quantumOf_spec (f : Format) {num den : Nat} (hnum : 0 < num) (hden : 0 < den) :
    f.minQuantum ≤ quantumOf f num den ∧
      (quantumOf f num den = f.minQuantum ∨ (f.unit : ℚ) * 2 ^ quantumOf f num den ≤ (num : ℚ) / den) ∧
      (num : ℚ) / den < 2 * f.unit * 2 ^ quantumOf f num den := by
  obtain ⟨hlow, hhigh⟩ := log2_sub_bounds hnum hden
  unfold quantumOf
  simp only
  generalize hq : max ((num.log2 : ℤ) - den.log2 - f.precision) f.minQuantum = q
  have hiff := overQuantum_div_lt_iff num hden q f.precision
  split
  · rename_i hlt
    refine ⟨by omega, ?_, by rw [two_unit_mul_zpow]; exact hiff.1 hlt⟩
    by_cases hmin : q = f.minQuantum
    · exact .inl hmin
    · right
      rw [unit_mul_zpow]
      exact le_trans (zpow_le_zpow_right₀ (by norm_num) (by omega)) hlow
  · rename_i hge
    rw [hiff, not_lt] at hge
    refine ⟨by omega, .inr ?_, ?_⟩
    · rw [unit_mul_zpow, show (f.precision : ℤ) - 1 + (q + 1) = f.precision + q by ring]
      exact hge
    · rw [two_unit_mul_zpow]
      exact lt_of_lt_of_le hhigh (zpow_le_zpow_right₀ (by norm_num) (by omega))

theorem roundHalfEven_near {num den : Nat} (hden : 0 < den) {v s : ℚ} (hs : 0 < s) (hv : (num : ℚ) / den = v / s) :
    |(roundHalfEven num den : ℚ) * s - v| ≤ s / 2 := by
  have hd : (0 : ℚ) < den := by exact_mod_cast hden
  have herror : 2 * |(roundHalfEven num den : ℚ) * den - num| ≤ den := by
    exact_mod_cast Decimal.Significant.roundHalfEven_error num hden
  have hdiff : (roundHalfEven num den : ℚ) * s - v = (roundHalfEven num den * den - num) / den * s := by
    rw [eq_div_iff hs.ne'] at hv
    rw [← hv]
    field_simp
  rw [hdiff, abs_mul, abs_of_pos hs, abs_div, abs_of_pos hd]
  calc |(roundHalfEven num den : ℚ) * den - num| / den * s ≤ 1 / 2 * s := by
        refine mul_le_mul_of_nonneg_right ?_ hs.le
        rw [div_le_div_iff₀ hd (by norm_num)]
        linarith
    _ = s / 2 := by ring

/-- Rounding a positive quotient, and whether the result is finite. -/
theorem ofQuotient_eq (negative : Bool) {num den : Nat} (hnum : 0 < num) (hden : 0 < den) : ∃ m e,
    Rounds f ((num : ℚ) / den) m e ∧ (ofQuotient negative num den : Binary f) =
      if h : (e - f.minQuantum).toNat * f.unit + m < f.limit then .finite ⟨negative, _, h⟩ else .infinite negative := by
  obtain ⟨hleast, hlow, hhigh⟩ := quantumOf_spec f hnum hden
  obtain ⟨hdpos, hvalue⟩ := overQuantum_spec num hden (quantumOf f num den)
  refine ⟨roundHalfEven (overQuantum num den (quantumOf f num den)).1 (overQuantum num den (quantumOf f num den)).2,
    quantumOf f num den, ⟨hleast, hlow, hhigh, roundHalfEven_near hdpos (by positivity) hvalue⟩, ?_⟩
  unfold ofQuotient
  rw [if_neg hnum.ne']

/-- A finite result has the rounded value. -/
theorem exists_rounds_of_finite {negative : Bool} {num den : Nat} {x : FiniteBinary f} (hnum : 0 < num) (hden : 0 < den)
    (h : ofQuotient negative num den = .finite x) :
    ∃ m e, Rounds f ((num : ℚ) / den) m e ∧ x.negative = negative ∧ x.absRat = m * (2 : ℚ) ^ e := by
  obtain ⟨m, e, hrounds, heq⟩ := ofQuotient_eq (f := f) negative hnum hden
  rw [heq] at h
  split at h
  · obtain rfl := Binary.finite.inj h
    exact ⟨m, e, hrounds, rfl, FiniteBinary.absRat_of_magnitude hrounds.least hrounds.le_two_units hrounds.full rfl⟩
  · cases h

/-! ## Doubles -/

namespace Rounds

variable {v : ℚ} {m : Nat} {e : ℤ}

theorem error (h : Rounds .double v m e) (hv : 0 ≤ v) : |m * (2 : ℚ) ^ e - v| ≤ v / 2 ^ 53 + 2 ^ (-1075 : ℤ) := by
  refine le_trans h.near ?_
  rcases h.low with rfl | hlow
  · rw [show Format.minQuantum .double = -1074 from rfl, div_eq_mul_inv, ← zpow_sub_one₀ (by norm_num),
      show (-1074 - 1 : ℤ) = -1075 by norm_num]
    exact le_add_of_nonneg_left (by positivity)
  · have hunit : (Format.unit .double : ℚ) = 2 ^ 52 := by norm_num [Format.unit, Format.precision]
    rw [hunit] at hlow
    have : (0 : ℚ) ≤ 2 ^ (-1075 : ℤ) := by positivity
    linarith

/-- A power of two below the value stays below the rounded value. -/
theorem two_zpow_le (h : Rounds .double v m e) {a : ℤ} (ha : -1000 ≤ a) (hv : (2 : ℚ) ^ a ≤ v) :
    (2 : ℚ) ^ a ≤ m * 2 ^ e := by
  rcases le_or_gt e a with he | he
  · have hunits : (((2 ^ (a - e).toNat : Nat) : ℚ)) * 2 ^ e = 2 ^ a := by
      push_cast
      rw [← zpow_natCast, ← zpow_add₀ (by norm_num)]
      congr 1
      omega
    rw [← hunits]
    gcongr
    exact_mod_cast h.le_of_units_le (hunits.trans_le hv)
  · have hfull := h.full.resolve_left fun hmin => by
      rw [hmin, show Format.minQuantum .double = -1074 from rfl] at he
      omega
    have hone : (1 : ℚ) ≤ m := by exact_mod_cast le_trans (FiniteBinary.unit_pos .double) hfull
    calc (2 : ℚ) ^ a ≤ 2 ^ e := zpow_le_zpow_right₀ (by norm_num) he.le
      _ ≤ m * 2 ^ e := le_mul_of_one_le_left (by positivity) hone

/-- The unit of a value below a power of two. -/
theorem exponent_le (h : Rounds .double v m e) {b : ℤ} (hb : -1000 ≤ b) (hv : v ≤ (2 : ℚ) ^ b) : e ≤ b - 52 := by
  rcases h.low with hmin | hlow
  · rw [hmin, show Format.minQuantum .double = -1074 from rfl]
    omega
  · rw [unit_mul_zpow] at hlow
    have := (zpow_le_zpow_iff_right₀ (by norm_num : (1 : ℚ) < 2)).1 (hlow.trans hv)
    rw [show ((Format.precision .double : Nat) : ℤ) = 53 from rfl] at this
    omega

/-- A power of two above the value stays above the rounded value. -/
theorem le_two_zpow (h : Rounds .double v m e) {b : ℤ} (hb : -1000 ≤ b) (hv : v ≤ (2 : ℚ) ^ b) :
    m * (2 : ℚ) ^ e ≤ 2 ^ b := by
  have he := h.exponent_le hb hv
  have hunits : (((2 ^ (b - e).toNat : Nat) : ℚ)) * 2 ^ e = 2 ^ b := by
    push_cast
    rw [← zpow_natCast, ← zpow_add₀ (by norm_num)]
    congr 1
    omega
  rw [← hunits]
  gcongr
  exact_mod_cast h.units_le (hv.trans hunits.ge)

/-- A value with no more bits than a significand is not rounded. -/
theorem eq_of_units (h : Rounds .double v m e) {n : Nat} {k : ℤ} (hn : n < 2 ^ 53) (hk : -1074 ≤ k)
    (hv : v = n * (2 : ℚ) ^ k) : m * (2 : ℚ) ^ e = v := by
  have he : e ≤ k := by
    rcases h.low with hmin | hlow
    · rw [hmin]
      exact hk
    · have hlt : (2 : ℚ) ^ (53 - 1 + e) < 2 ^ (53 + k) := calc
        (2 : ℚ) ^ (53 - 1 + e) = Format.unit .double * 2 ^ e := (unit_mul_zpow .double e).symm
        _ ≤ n * 2 ^ k := hv ▸ hlow
        _ < 2 ^ (53 : ℤ) * 2 ^ k := by
          gcongr
          exact_mod_cast hn
        _ = 2 ^ (53 + k) := (zpow_add₀ (by norm_num) _ _).symm
      have := (zpow_lt_zpow_iff_right₀ (by norm_num : (1 : ℚ) < 2)).1 hlt
      omega
  -- the value is itself a whole number of units, so the nearest one is no other
  have hunits : ((n * 2 ^ (k - e).toNat : Nat) : ℚ) * 2 ^ e = v := by
    rw [hv]
    push_cast
    rw [mul_assoc, ← zpow_natCast, ← zpow_add₀ (by norm_num), show (((k - e).toNat : ℕ) : ℤ) + e = k by omega]
  have heq : m = n * 2 ^ (k - e).toNat := le_antisymm (h.units_le hunits.ge) (h.le_of_units_le hunits.le)
  rw [heq, hunits]

/-- Up to the largest double nothing overflows. -/
theorem magnitude_lt (h : Rounds .double v m e) (hv : v ≤ (FiniteBinary.largest .double).toRat) :
    (e - Format.minQuantum .double).toNat * Format.unit .double + m < Format.limit .double := by
  have hunit : Format.unit .double = 2 ^ 52 := rfl
  have hlimit : Format.limit .double = 2047 * 2 ^ 52 := rfl
  have hmin : Format.minQuantum .double = -1074 := rfl
  have he : e ≤ 971 := by
    rcases h.low with hleast | hlow
    · rw [hleast, hmin]
      norm_num
    · have hlt : (2 : ℚ) ^ (53 - 1 + e) < 2 ^ (1024 : ℤ) := calc
        (2 : ℚ) ^ (53 - 1 + e) = Format.unit .double * 2 ^ e := (unit_mul_zpow .double e).symm
        _ ≤ (FiniteBinary.largest .double).toRat := hlow.trans hv
        _ < 2 ^ (1024 : ℤ) := FiniteBinary.toRat_largest_lt
      have := (zpow_lt_zpow_iff_right₀ (by norm_num : (1 : ℚ) < 2)).1 hlt
      omega
  have hm := h.le_two_units
  rw [hmin, hunit, hlimit]
  rw [hunit] at hm
  rcases he.lt_or_eq with hlt | rfl
  · have hsteps : (e - -1074).toNat ≤ 2044 := by omega
    have := Nat.mul_le_mul_right (2 ^ 52) hsteps
    omega
  · -- in the last binade a carry would leave the format, but the largest double is no carry
    have hlast : m ≤ 2 ^ 53 - 1 := h.units_le (FiniteBinary.toRat_largest ▸ hv)
    have hsteps : ((971 : ℤ) - -1074).toNat = 2045 := by decide
    rw [hsteps]
    omega

end Rounds

/-- A value up to the largest double has a finite one next to it. -/
theorem exists_ofQuotient_finite (negative : Bool) {num den : Nat} (hnum : 0 < num) (hden : 0 < den)
    (h : (num : ℚ) / den ≤ (FiniteBinary.largest .double).toRat) :
    ∃ x, (ofQuotient negative num den : Double) = .finite x := by
  obtain ⟨m, e, hrounds, heq⟩ := ofQuotient_eq (f := .double) negative hnum hden
  rw [heq, dif_pos (hrounds.magnitude_lt h)]
  exact ⟨_, rfl⟩

theorem ofRat_of_ne_zero {q : ℚ} (hq : q ≠ 0) (zeroSign : Bool) :
    (ofRat q zeroSign : Binary f) = ofQuotient (q < 0) q.num.natAbs q.den := by
  unfold ofRat
  rw [if_neg (Rat.num_ne_zero.2 hq)]
  simp only [Rat.num_neg]

theorem exists_ofRat_finite {q : ℚ} (h : |q| ≤ (FiniteBinary.largest .double).toRat) :
    ∃ x, (ofRat q : Double) = .finite x := by
  by_cases hq : q = 0
  · subst hq
    exact ⟨_, rfl⟩
  · rw [ofRat_of_ne_zero hq]
    rw [abs_eq_natAbs_div] at h
    exact exists_ofQuotient_finite _ (Int.natAbs_pos.2 (Rat.num_ne_zero.2 hq)) q.den_pos h

/-- A finite result without its sign is the rounded quotient. -/
theorem ofQuotient_error {negative : Bool} {num den : Nat} {x : FiniteBinary .double} (hnum : 0 < num) (hden : 0 < den)
    (h : ofQuotient negative num den = .finite x) :
    |x.toRat - (if negative then -1 else 1) * ((num : ℚ) / den)| ≤ (num : ℚ) / den / 2 ^ 53 + 2 ^ (-1075 : ℤ) := by
  obtain ⟨m, e, hrounds, hsign, hvalue⟩ := exists_rounds_of_finite hnum hden h
  have herror := hrounds.error (by positivity)
  unfold FiniteBinary.toRat
  rw [hsign, hvalue]
  cases negative with
  | false => simpa using herror
  | true =>
    rw [if_pos rfl, if_pos rfl, neg_one_mul, neg_sub_neg, abs_sub_comm]
    exact herror

theorem toRat_zero (negative : Bool) : (FiniteBinary.zero negative : FiniteBinary .double).toRat = 0 := by
  cases negative <;> decide +kernel

/-- Far outside the range a decimal is not rounded; else it is rounded as a quotient. -/
theorem ofDecimal_cases (d : Decimal) :
    (|d.toRat| < Decimal.tenPow (-399) ∧ (ofDecimal d : Binary f) = .finite (.zero d.negative)) ∨
      (Decimal.tenPow 401 ≤ |d.toRat| ∧ (ofDecimal d : Binary f) = .infinite d.negative) ∨
      ∃ num den : Nat, 0 < num ∧ 0 < den ∧ |d.toRat| = (num : ℚ) / den ∧
        (ofDecimal d : Binary f) = ofQuotient d.negative num den := by
  unfold ofDecimal
  split
  · rename_i hzero
    rw [(Decimal.toRat_eq_zero_iff d).2 ((Decimal.isZero_iff d).1 hzero), abs_zero]
    exact .inl ⟨Decimal.tenPow_pos _, rfl⟩
  rename_i hzero
  rw [Decimal.isZero_iff] at hzero
  split
  · rename_i hsmall
    exact .inl ⟨(Decimal.abs_toRat_lt d).trans_le (Decimal.tenPow_le_tenPow.2 (by omega)), rfl⟩
  split
  · rename_i hlarge
    exact .inr (.inl ⟨(Decimal.tenPow_le_tenPow.2 (by omega)).trans (Decimal.tenPow_adjusted_le hzero), rfl⟩)
  -- between the two bounds a quotient of whole numbers is rounded, with the power of ten above or below
  right
  right
  split
  · rename_i hexp
    refine ⟨_, 1, Nat.mul_pos (Nat.pos_of_ne_zero hzero) (by positivity), Nat.one_pos, ?_, rfl⟩
    rw [Decimal.abs_toRat]
    conv_lhs => rw [show d.exponent = (d.exponent.natAbs : ℤ) by omega, Decimal.tenPow_natCast]
    rw [Nat.cast_one, div_one, Nat.cast_mul]
  · rename_i hexp
    refine ⟨_, _, Nat.pos_of_ne_zero hzero, by positivity, ?_, rfl⟩
    rw [Decimal.abs_toRat]
    conv_lhs => rw [show d.exponent = -(d.exponent.natAbs : ℤ) by omega, Decimal.tenPow_neg_natCast]
    rw [div_eq_mul_inv]

theorem tenPow_neg_le : Decimal.tenPow (-399) ≤ 2 ^ (-1100 : ℤ) :=
  Decimal.tenPow_le_two_zpow (by norm_num) (by norm_num)

theorem ofDecimal_error {d : Decimal} {x : FiniteBinary .double} (h : ofDecimal d = .finite x) :
    |x.toRat - d.toRat| ≤ |d.toRat| / 2 ^ 53 + 2 ^ (-1000 : ℤ) := by
  have htiny : ∀ {e : ℤ}, e ≤ -1000 → (2 : ℚ) ^ e ≤ 2 ^ (-1000 : ℤ) := zpow_le_zpow_right₀ (by norm_num)
  rcases ofDecimal_cases (f := .double) d with ⟨hsmall, hzero⟩ | ⟨-, hinfinite⟩ | ⟨num, den, hnum, hden, hvalue, heq⟩
  · rw [hzero] at h
    obtain rfl := Binary.finite.inj h
    have hlimit := tenPow_neg_le.trans (htiny (by norm_num))
    have hsum : 0 ≤ |d.toRat| / 2 ^ 53 := by positivity
    rw [toRat_zero, zero_sub, abs_neg]
    linarith
  · rw [hinfinite] at h
    cases h
  · rw [heq] at h
    have herror := ofQuotient_error hnum hden h
    rw [← hvalue, ← d.toRat_eq_sign_mul_abs] at herror
    linarith [htiny (e := -1075) (by norm_num)]

end Binary

/-! ## The nearest double -/

namespace Roots

open Binary

theorem nearest_of_finite {q : ℚ} {x : FiniteBinary .double} (h : (ofRat q : Double) = .finite x) :
    nearest q = x.toRat := by
  unfold nearest
  rw [h]

/-- Beyond the doubles a rational stands for itself; else it is rounded without its sign. -/
theorem nearest_cases (q : ℚ) : nearest q = q ∨
    ∃ m e, Rounds .double |q| m e ∧ nearest q = (if q < 0 then -1 else 1) * (m * (2 : ℚ) ^ e) := by
  by_cases hq : q = 0
  · subst hq
    exact .inl (by decide +kernel)
  cases h : (ofRat q : Double) with
  | finite x =>
    right
    rw [nearest_of_finite h]
    rw [ofRat_of_ne_zero hq] at h
    obtain ⟨m, e, hrounds, hsign, hvalue⟩ :=
      exists_rounds_of_finite (Int.natAbs_pos.2 (Rat.num_ne_zero.2 hq)) q.den_pos h
    rw [abs_eq_natAbs_div]
    refine ⟨m, e, hrounds, ?_⟩
    unfold FiniteBinary.toRat
    rw [hsign, hvalue]
    simp only [decide_eq_true_eq]
    split <;> ring
  | infinite s => exact .inl (by unfold nearest; rw [h])
  | nan => exact .inl (by unfold nearest; rw [h])

theorem nearest_zero : nearest 0 = 0 := by decide +kernel

theorem nearest_error (q : ℚ) : |nearest q - q| ≤ |q| / 2 ^ 53 + 2 ^ (-1075 : ℤ) := by
  rcases nearest_cases q with h | ⟨m, e, hrounds, h⟩
  · rw [h, sub_self, abs_zero]
    positivity
  · have herror := hrounds.error (abs_nonneg q)
    rw [h]
    rcases lt_or_ge q 0 with hneg | hpos
    · rw [abs_of_neg hneg] at herror ⊢
      rw [if_pos hneg, show -1 * (m * (2 : ℚ) ^ e) - q = -(m * 2 ^ e - -q) by ring, abs_neg]
      exact herror
    · rw [abs_of_nonneg hpos] at herror ⊢
      rwa [if_neg (not_lt.2 hpos), one_mul]

section

variable {q : ℚ}

theorem nearest_nonneg (hq : 0 ≤ q) : 0 ≤ nearest q := by
  rcases nearest_cases q with h | ⟨m, e, -, h⟩
  · rwa [h]
  · rw [h, if_neg (not_lt.2 hq), one_mul]
    positivity

theorem two_zpow_le_nearest {a : ℤ} (ha : -1000 ≤ a) (hq : (2 : ℚ) ^ a ≤ q) : (2 : ℚ) ^ a ≤ nearest q := by
  have hpos : 0 < q := lt_of_lt_of_le (by positivity) hq
  rcases nearest_cases q with h | ⟨m, e, hrounds, h⟩
  · rwa [h]
  · rw [abs_of_pos hpos] at hrounds
    rw [h, if_neg hpos.not_gt, one_mul]
    exact hrounds.two_zpow_le ha hq

theorem nearest_le_two_zpow {b : ℤ} (hb : -1000 ≤ b) (hq : 0 ≤ q) (hle : q ≤ (2 : ℚ) ^ b) : nearest q ≤ (2 : ℚ) ^ b := by
  rcases nearest_cases q with h | ⟨m, e, hrounds, h⟩
  · rwa [h]
  · rw [abs_of_nonneg hq] at hrounds
    rw [h, if_neg hq.not_gt, one_mul]
    exact hrounds.le_two_zpow hb hle

end

end Roots

end Reckon
