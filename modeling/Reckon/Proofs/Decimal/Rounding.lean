/-
Rounding to decimal places. A rational is scaled until the last place is the unit, and a stored decimal
has its digits shifted; both give the same multiple of the last place, the nearest one with a half away
from zero, or the greatest one that is not beyond the number. They fail only where the last place or the
result leaves the range of exponents.
-/
import Reckon.Proofs.Decimal.Magnitude

namespace Reckon.Decimal

open Reckon.Digits

/-! ## Multiples of a unit -/

/-- `r` is the multiple of the unit `u` nearest to `q`; of two that are equally near, the one farther from
zero. -/
structure IsNearestMultiple (u q r : ℚ) : Prop where
  multiple : ∃ n : ℤ, r = n * u
  near : ∀ n : ℤ, |q - r| ≤ |q - n * u|
  away : ∀ n : ℤ, |q - n * u| = |q - r| → |n * u| ≤ |r|

/-- `r` is the multiple of the unit `u` of greatest magnitude that is not beyond `q`, on its side of zero. -/
structure IsCutMultiple (u q r : ℚ) : Prop where
  multiple : ∃ n : ℤ, r = n * u
  le : |r| ≤ |q|
  greatest : ∀ n : ℤ, |n * u| ≤ |q| → |n * u| ≤ |r|
  sign : r ≠ 0 → (r < 0 ↔ q < 0)

theorem IsNearestMultiple.unique {u q r s : ℚ} (hr : IsNearestMultiple u q r) (hs : IsNearestMultiple u q s) : r = s := by
  obtain ⟨n, hn⟩ := hr.multiple
  obtain ⟨m, hm⟩ := hs.multiple
  have hdistance : |q - r| = |q - s| := le_antisymm (hm ▸ hr.near m) (hn ▸ hs.near n)
  have hsize : |r| = |s| := le_antisymm (hn ▸ hs.away n (hn ▸ hdistance)) (hm ▸ hr.away m (hm ▸ hdistance.symm))
  rcases abs_eq_abs.1 hsize with h | rfl
  · exact h
  · -- multiples on both sides are equally near to zero only, which is a multiple itself
    rw [sub_neg_eq_add] at hdistance
    have hzero : s = 0 := by
      rcases abs_eq_abs.1 hdistance with h | h
      · linarith
      · have hq : q = 0 := by linarith
        have hnear := hs.near 0
        rw [hq, zero_sub, abs_neg, Int.cast_zero, zero_mul, sub_zero, abs_zero] at hnear
        exact abs_eq_zero.1 (le_antisymm hnear (abs_nonneg s))
    rw [hzero, neg_zero]

theorem isNearestMultiple_self {u r : ℚ} (h : ∃ n : ℤ, r = n * u) : IsNearestMultiple u r r where
  multiple := h
  near n := by
    rw [sub_self, abs_zero]
    exact abs_nonneg _
  away n hn := by
    rw [sub_self, abs_zero, abs_eq_zero, sub_eq_zero] at hn
    rw [← hn]

theorem IsCutMultiple.unique {u q r s : ℚ} (hr : IsCutMultiple u q r) (hs : IsCutMultiple u q s) : r = s := by
  obtain ⟨n, hn⟩ := hr.multiple
  obtain ⟨m, hm⟩ := hs.multiple
  have hsize : |r| = |s| := le_antisymm (hn ▸ hs.greatest n (hn ▸ hr.le)) (hm ▸ hr.greatest m (hm ▸ hs.le))
  rcases abs_eq_abs.1 hsize with h | h
  · exact h
  by_cases hzero : s = 0
  · rw [h, hzero, neg_zero]
  · -- on different sides of zero only one of them is on the side of the number
    have hr0 : r ≠ 0 := by rwa [h, neg_ne_zero]
    have hside := (hr.sign hr0).trans (hs.sign hzero).symm
    rw [h, neg_lt_zero] at hside
    rcases lt_or_gt_of_ne hzero with hneg | hpos
    · exact absurd (hside.2 hneg) hneg.not_gt
    · exact absurd (hside.1 hpos) hpos.not_gt

theorem isCutMultiple_self {u r : ℚ} (h : ∃ n : ℤ, r = n * u) : IsCutMultiple u r r where
  multiple := h
  le := le_rfl
  greatest _ hn := hn
  sign _ := Iff.rfl

/-- Distances to multiples, in units and away from the sign. -/
theorem abs_sub_mul_unit {u q x : ℚ} (hu : 0 < u) (hq : |q| = x * u) (n : ℤ) :
    |q - n * u| = |x - ((if q < 0 then -n else n : ℤ) : ℚ)| * u := by
  rw [← abs_of_pos hu, ← abs_mul, abs_of_pos hu, sub_mul, ← hq]
  split
  · rename_i hneg
    rw [abs_of_neg hneg, Int.cast_neg, ← abs_neg]
    congr 1
    ring
  · rename_i hpos
    rw [abs_of_nonneg (not_lt.1 hpos)]

/-! ## Rounding a rational -/

/-- A rational rounded to a number of places, a half away from zero. -/
def rounded (places : ℤ) (q : ℚ) : ℚ :=
  (if q < 0 then -1 else 1) * (⌊|q| * tenPow places + 1 / 2⌋₊ * tenPow (-places))

theorem abs_eq_scaled (places : ℤ) (q : ℚ) : |q| = |q| * tenPow places * tenPow (-places) := by
  rw [mul_assoc, ← tenPow_add, add_neg_cancel, tenPow_zero, mul_one]

theorem signed_units (places : ℤ) (q : ℚ) (n : Nat) : (if q < 0 then -1 else 1) * (n * tenPow (-places)) =
    ((if q < 0 then -n else n : ℤ) : ℚ) * tenPow (-places) := by
  split
  · push_cast
    ring
  · push_cast
    ring

theorem abs_signed_units (places : ℤ) (q : ℚ) (n : Nat) :
    |(if q < 0 then -1 else 1) * (n * tenPow (-places))| = n * tenPow (-places) := by
  rw [abs_sign_mul, abs_of_nonneg (mul_nonneg (Nat.cast_nonneg n) (tenPow_pos _).le)]

/-- Of the integers that are nearest to a number that is not negative, the floor of half more is farthest
from zero. -/
theorem floor_add_half_spec {x : ℚ} (hx : 0 ≤ x) (n : ℤ) :
    |x - (⌊x + 1 / 2⌋₊ : Nat)| ≤ |x - n| ∧ (|x - n| = |x - (⌊x + 1 / 2⌋₊ : Nat)| → |n| ≤ (⌊x + 1 / 2⌋₊ : Nat)) := by
  have hlow := Nat.floor_le (show 0 ≤ x + 1 / 2 by linarith)
  have hhigh := Nat.lt_floor_add_one (x + 1 / 2)
  generalize ⌊x + 1 / 2⌋₊ = m at hlow hhigh
  have hhalf : |x - m| ≤ 1 / 2 := abs_le.2 ⟨by linarith, by linarith⟩
  rcases lt_trichotomy n m with hlt | rfl | hgt
  · have hn : (n : ℚ) ≤ m - 1 := by exact_mod_cast Int.le_sub_one_of_lt hlt
    have hdistance := le_abs_self (x - n)
    refine ⟨by linarith, fun heq => abs_le.2 ⟨?_, hlt.le⟩⟩
    -- on the other side of zero the distance would be a whole unit
    by_contra hfar
    have hn' : (n : ℚ) ≤ -m - 1 := by exact_mod_cast Int.le_sub_one_of_lt (not_le.1 hfar)
    have hm : (0 : ℚ) ≤ m := Nat.cast_nonneg m
    linarith
  · exact ⟨le_rfl, fun _ => by rw [Nat.abs_cast]⟩
  · have hn : (m : ℚ) + 1 ≤ n := by exact_mod_cast Int.add_one_le_of_lt hgt
    have hdistance := neg_abs_le (x - n)
    exact ⟨by linarith, fun heq => by linarith⟩

theorem isNearestMultiple_rounded (places : ℤ) (q : ℚ) : IsNearestMultiple (tenPow (-places)) q (rounded places q) := by
  have hpos := tenPow_pos (-places)
  have hx : 0 ≤ |q| * tenPow places := mul_nonneg (abs_nonneg q) (tenPow_pos places).le
  have hscaled := abs_sub_mul_unit hpos (abs_eq_scaled places q)
  have hspec := fun n : ℤ => floor_add_half_spec hx (if q < 0 then -n else n)
  unfold rounded
  generalize ⌊|q| * tenPow places + 1 / 2⌋₊ = m at hspec
  have hown : |q - (if q < 0 then -1 else 1) * (m * tenPow (-places))| = |(|q| * tenPow places) - m| * tenPow (-places) := by
    rw [signed_units, hscaled]
    split <;> simp
  refine ⟨⟨_, signed_units places q m⟩, fun n => ?_, fun n hn => ?_⟩
  · rw [hown, hscaled]
    exact mul_le_mul_of_nonneg_right (hspec n).1 hpos.le
  · rw [hown, hscaled] at hn
    have hsize := (hspec n).2 (mul_right_cancel₀ hpos.ne' hn)
    have hsign : |(if q < 0 then -n else n : ℤ)| = |n| := by split <;> simp
    rw [hsign] at hsize
    rw [abs_signed_units, abs_mul, abs_of_pos hpos]
    exact mul_le_mul_of_nonneg_right (by exact_mod_cast hsize) hpos.le

theorem isCutMultiple_cut (places : ℤ) (q : ℚ) : IsCutMultiple (tenPow (-places)) q (cut places q) := by
  have hpos := tenPow_pos (-places)
  have hx : 0 ≤ |q| * tenPow places := mul_nonneg (abs_nonneg q) (tenPow_pos places).le
  have hsize : |cut places q| = ⌊|q| * tenPow places⌋₊ * tenPow (-places) := abs_signed_units places q _
  refine ⟨⟨_, signed_units places q _⟩, ?_, fun n hn => ?_, fun hne => ?_⟩
  · rw [hsize]
    conv_rhs => rw [abs_eq_scaled places q]
    exact mul_le_mul_of_nonneg_right (Nat.floor_le hx) hpos.le
  · rw [abs_mul, abs_of_pos hpos, abs_eq_scaled places q] at hn
    have hle := le_of_mul_le_mul_right hn hpos
    rw [← Int.cast_abs, Int.abs_eq_natAbs, Int.cast_natCast] at hle
    rw [hsize, abs_mul, abs_of_pos hpos, ← Int.cast_abs, Int.abs_eq_natAbs, Int.cast_natCast]
    exact mul_le_mul_of_nonneg_right (by exact_mod_cast Nat.le_floor hle) hpos.le
  · have hunits : 0 < (⌊|q| * tenPow places⌋₊ : ℚ) * tenPow (-places) := by
      rw [← hsize]
      exact abs_pos.2 hne
    unfold cut
    split
    · rename_i hneg
      exact iff_of_true (by linarith) hneg
    · rename_i hneg
      exact iff_of_false (by linarith) hneg

/-- The cut takes away less than a unit of the last place. -/
theorem abs_cut_sub_lt (places : ℤ) (q : ℚ) : |cut places q - q| < tenPow (-places) := by
  have hpos := tenPow_pos (-places)
  have hx : 0 ≤ |q| * tenPow places := mul_nonneg (abs_nonneg q) (tenPow_pos places).le
  have hbelow := mul_le_mul_of_nonneg_right (Nat.floor_le hx) hpos.le
  have habove := mul_lt_mul_of_pos_right (Nat.lt_floor_add_one (|q| * tenPow places)) hpos
  rw [← abs_eq_scaled] at hbelow habove
  unfold cut
  conv_lhs => enter [1, 2]; rw [← sign_mul_abs q]
  rw [← mul_sub, abs_sign_mul, abs_lt]
  constructor <;> linarith

/-! ## Cutting keeps the order -/

theorem cut_neg (places : ℤ) (q : ℚ) : cut places (-q) = -cut places q := by
  rcases lt_trichotomy q 0 with h | rfl | h
  · rw [cut, cut, abs_neg, if_neg (by linarith), if_pos h]
    ring
  · rw [neg_zero, cut, abs_zero, zero_mul, Nat.floor_zero, Nat.cast_zero, zero_mul, mul_zero, neg_zero]
  · rw [cut, cut, abs_neg, if_pos (by linarith), if_neg (by linarith)]
    ring

theorem cut_of_nonneg (places : ℤ) {q : ℚ} (h : 0 ≤ q) : cut places q = ⌊q * tenPow places⌋₊ * tenPow (-places) := by
  rw [cut, if_neg (not_lt.2 h), abs_of_nonneg h, one_mul]

theorem cut_nonneg (places : ℤ) {q : ℚ} (h : 0 ≤ q) : 0 ≤ cut places q := by
  rw [cut_of_nonneg places h]
  exact mul_nonneg (Nat.cast_nonneg _) (tenPow_pos _).le

theorem cut_nonpos (places : ℤ) {q : ℚ} (h : q ≤ 0) : cut places q ≤ 0 := by
  have := cut_nonneg places (neg_nonneg.2 h)
  rw [cut_neg] at this
  exact neg_nonneg.1 this

/-- The cut goes towards zero. -/
theorem cut_le_of_nonneg (places : ℤ) {q : ℚ} (h : 0 ≤ q) : cut places q ≤ q := by
  have hle := (isCutMultiple_cut places q).le
  rwa [abs_of_nonneg h, abs_of_nonneg (cut_nonneg places h)] at hle

theorem le_cut_of_nonpos (places : ℤ) {q : ℚ} (h : q ≤ 0) : q ≤ cut places q := by
  have := cut_le_of_nonneg places (neg_nonneg.2 h)
  rw [cut_neg] at this
  exact neg_le_neg_iff.1 this

theorem cut_le_cut_of_nonneg (places : ℤ) {p q : ℚ} (hp : 0 ≤ p) (h : p ≤ q) : cut places p ≤ cut places q := by
  rw [cut_of_nonneg places hp, cut_of_nonneg places (hp.trans h)]
  have hfloor := Nat.floor_mono (mul_le_mul_of_nonneg_right h (tenPow_pos places).le)
  exact mul_le_mul_of_nonneg_right (by exact_mod_cast hfloor) (tenPow_pos _).le

theorem cut_le_cut (places : ℤ) {p q : ℚ} (h : p ≤ q) : cut places p ≤ cut places q := by
  rcases le_total 0 p with hp | hp
  · exact cut_le_cut_of_nonneg places hp h
  rcases le_total 0 q with hq | hq
  · exact (cut_nonpos places hp).trans (cut_nonneg places hq)
  · have := cut_le_cut_of_nonneg places (neg_nonneg.2 hq) (neg_le_neg h)
    rw [cut_neg, cut_neg] at this
    exact neg_le_neg_iff.1 this

/-! ## The range of the results -/

/-- The last place and the value are not above the range of exponents. -/
def WithinRange (places : ℤ) (v : ℚ) : Prop := -places ≤ maxExponent ∧ |v| < tenPow (maxExponent + 1)

/-- The outcome is a decimal of the value on the condition, else it is a failure. -/
structure GivesValue (x : Outcome Decimal) (p : Prop) (v : ℚ) : Prop where
  ok : p → ∃ r, x = .ok r ∧ r.toRat = v
  error : ¬ p → ∃ e, x = .error e

theorem adjusted_le_iff (d : Decimal) (e : ℤ) : d.adjusted ≤ e ↔ d.exponent ≤ e ∧ |d.toRat| < tenPow (e + 1) := by
  have hexponent := d.exponent_le_adjusted
  constructor
  · intro h
    exact ⟨by omega, (abs_toRat_lt d).trans_le (tenPow_le_tenPow.2 (by omega))⟩
  · rintro ⟨he, hlt⟩
    by_cases hzero : d.coefficient = 0
    · exact (adjusted_of_zero hzero).trans_le he
    · have := tenPow_lt_tenPow.1 ((tenPow_adjusted_le hzero).trans_lt hlt)
      omega

theorem inRange_iff_withinRange (d : Decimal) :
    d.inRange = true ↔ minExponent ≤ d.exponent ∧ WithinRange (-d.exponent) d.toRat := by
  rw [inRange_iff, adjusted_le_iff, WithinRange, neg_neg]

theorem givesValue_ofScaled (n : ℤ) (places : ℤ) :
    GivesValue (ofScaled n (-places)) (places ≤ -minExponent ∧ WithinRange places (n * tenPow (-places)))
      (n * tenPow (-places)) := by
  have hrange := inRange_iff_withinRange ⟨n < 0, n.natAbs, -places⟩
  rw [toRat_ofSigned, neg_neg, show minExponent ≤ -places ↔ places ≤ -minExponent by omega] at hrange
  constructor
  · intro h
    exact ⟨_, make_eq_ok_iff.2 ⟨rfl, hrange.2 h⟩, toRat_ofSigned n (-places)⟩
  · intro h
    exact exists_make_eq_error (Bool.eq_false_iff.2 (hrange.not.2 h))

theorem givesValue_ofUnits (q : ℚ) (n : Nat) (places : ℤ) :
    GivesValue (ofUnits q n places)
      (places ≤ -minExponent ∧ WithinRange places ((if q < 0 then -1 else 1) * (n * tenPow (-places))))
      ((if q < 0 then -1 else 1) * (n * tenPow (-places))) := by
  rw [signed_units]
  exact givesValue_ofScaled _ places

theorem floor_toNat (x : ℚ) : x.floor.toNat = ⌊x⌋₊ := by
  rw [← Int.floor_toNat]
  rfl

theorem givesValue_roundRat (q : ℚ) (places : ℤ) :
    GivesValue (roundRat q places) (places ≤ -minExponent ∧ WithinRange places (rounded places q)) (rounded places q) := by
  rw [roundRat, scaled_eq, floor_toNat]
  exact givesValue_ofUnits q _ places

theorem givesValue_truncateRat (q : ℚ) (places : ℤ) :
    GivesValue (truncateRat q places) (places ≤ -minExponent ∧ WithinRange places (cut places q)) (cut places q) := by
  rw [truncateRat, scaled_eq, floor_toNat]
  exact givesValue_ofUnits q _ places

/-! ## Rounding stored digits -/

section Stored

variable {d : Decimal} {places : ℤ}

/-- A decimal that is coarse enough is a multiple of the last place. -/
theorem rounded_of_le (h : -places ≤ d.exponent) : rounded places d.toRat = d.toRat :=
  (isNearestMultiple_rounded places _).unique (isNearestMultiple_self ⟨_, (coefficientAt_mul_tenPow h).symm⟩)

theorem adjusted_unit (e : ℤ) : adjusted ⟨false, 1, e⟩ = e := by
  rw [adjusted, digitCount, (width_eq_one_iff 1).2 (by decide)]
  exact Int.add_zero e

theorem make_unit (hmin : minExponent ≤ -places) (hmax : -places ≤ maxExponent) :
    make false 1 (-places) = .ok ⟨false, 1, -places⟩ :=
  make_eq_ok_iff.2 ⟨rfl, (inRange_iff _).2 ⟨hmin, (adjusted_unit _).trans_le hmax⟩⟩

theorem exists_make_unit_error (hmax : ¬ -places ≤ maxExponent) : ∃ e, make false 1 (-places) = .error e := by
  refine exists_make_eq_error (Bool.eq_false_iff.2 ?_)
  rw [Ne, inRange_iff, adjusted_unit]
  exact fun h => hmax h.2

/-- A number in range is cut wherever the place is not above the range. -/
theorem givesValue_truncate (h : d.inRange = true) (places : ℤ) :
    GivesValue (d.truncate places) (WithinRange places (cut places d.toRat)) (cut places d.toRat) := by
  obtain ⟨hmin, hexponent, hsize⟩ := (inRange_iff_withinRange d).1 h
  have hcut : |cut places d.toRat| < tenPow (maxExponent + 1) := (isCutMultiple_cut places _).le.trans_lt hsize
  have hvalue : ∀ {r}, d.truncate places = .ok r → r.toRat = cut places d.toRat := toRat_truncate
  unfold truncate at hvalue ⊢
  split
  · rename_i hle
    rw [if_pos hle] at hvalue
    exact ⟨fun _ => ⟨d, rfl, hvalue rfl⟩, fun hnot => absurd ⟨by omega, hcut⟩ hnot⟩
  · rename_i hlt
    rw [if_neg hlt] at hvalue
    constructor
    · intro hin
      rw [make_unit (by omega) hin.1] at hvalue ⊢
      exact ⟨_, rfl, hvalue rfl⟩
    · intro hnot
      obtain ⟨e, he⟩ := exists_make_unit_error fun hmax => hnot ⟨hmax, hcut⟩
      rw [he]
      exact ⟨e, rfl⟩

theorem rounded_sign_mul (places : ℤ) (negative : Bool) {x : ℚ} (hx : 0 ≤ x) :
    rounded places ((if negative then -1 else 1) * x) =
      (if negative then -1 else 1) * (⌊x * tenPow places + 1 / 2⌋₊ * tenPow (-places)) := by
  unfold rounded
  rw [abs_sign_mul, abs_of_nonneg hx]
  cases negative with
  | false => rw [if_neg (by simpa using hx)]; rfl
  | true =>
    rcases hx.eq_or_lt with rfl | hpos
    · norm_num
    · rw [if_pos (by simpa using hpos)]; rfl

/-- Half a unit of a place is five of the next digit, and digits that end below it do not count. -/
theorem floor_add_half_eq (c : Nat) {k : Nat} (hk : 0 < k) : ⌊(c : ℚ) * tenPow (-(k : ℤ)) + 1 / 2⌋₊ =
    if width c < k then 0 else (c + 5 * 10 ^ (k - 1)) / 10 ^ k := by
  obtain ⟨j, rfl⟩ : ∃ j, k = j + 1 := ⟨k - 1, by omega⟩
  have hsum : (c : ℚ) * tenPow (-((j + 1 : Nat) : ℤ)) + 1 / 2 = ((c + 5 * 10 ^ j : Nat) : ℚ) / ((10 ^ (j + 1) : Nat) : ℚ) := by
    rw [tenPow_neg_natCast]
    push_cast
    field_simp
    ring
  rw [hsum, Nat.floor_div_eq_div, Nat.add_sub_cancel]
  split
  · rename_i hshort
    have hc : c < 10 ^ j := (lt_pow_width c).trans_le (Nat.pow_le_pow_right (by decide) (by omega))
    refine Nat.div_eq_of_lt ?_
    rw [pow_succ]
    omega
  · rfl

theorem rounded_of_lt {k : Nat} (hk : -places = d.exponent + k) (hpos : 0 < k) :
    rounded places d.toRat = toRat ⟨d.negative,
      if d.digitCount < k then 0 else (d.coefficient + 5 * 10 ^ (k - 1)) / 10 ^ k, -places⟩ := by
  have hx : 0 ≤ (d.coefficient : ℚ) * tenPow d.exponent := mul_nonneg (Nat.cast_nonneg _) (tenPow_pos _).le
  rw [toRat_eq_sign d, rounded_sign_mul places _ hx, mul_assoc, ← tenPow_add,
    show d.exponent + places = -(k : ℤ) by omega, floor_add_half_eq _ hpos, toRat_eq_sign]
  rfl

/-- A number in range is rounded wherever neither the place nor the result is above the range. -/
theorem givesValue_round (h : d.inRange = true) (places : ℤ) :
    GivesValue (d.round places) (WithinRange places (rounded places d.toRat)) (rounded places d.toRat) := by
  obtain ⟨hmin, hexponent, hsize⟩ := (inRange_iff_withinRange d).1 h
  unfold round
  split
  · rename_i hle
    rw [rounded_of_le hle]
    exact ⟨fun _ => ⟨d, rfl, rfl⟩, fun hnot => absurd ⟨by omega, hsize⟩ hnot⟩
  · rename_i hlt
    have hvalue := rounded_of_lt (d := d) (show -places = d.exponent + (-places - d.exponent).toNat by omega) (by omega)
    by_cases hmax : -places ≤ maxExponent
    · rw [make_unit (by omega) hmax, hvalue]
      simp only [bind, Except.bind]
      generalize (if d.digitCount < (-places - d.exponent).toNat then 0
        else (d.coefficient + 5 * 10 ^ ((-places - d.exponent).toNat - 1)) / 10 ^ (-places - d.exponent).toNat) = c
      have hcarry := adjusted_le_iff ⟨d.negative, c, -places⟩ maxExponent
      split
      · rename_i hover
        exact ⟨fun hin => absurd (hcarry.2 hin) (not_le.2 hover), fun _ => ⟨_, rfl⟩⟩
      · rename_i hfits
        exact ⟨fun _ => ⟨_, rfl, rfl⟩, fun hnot => absurd (hcarry.1 (not_lt.1 hfits)) hnot⟩
    · obtain ⟨e, he⟩ := exists_make_unit_error hmax
      rw [he]
      exact ⟨fun hin => absurd hin.1 hmax, fun _ => ⟨e, rfl⟩⟩

end Stored

/-! ## Both ways to round -/

/-- An operation on rationals and one on stored decimals round to the same value. It is a multiple of the
last place, and multiples of the last place stay as they are. A rational cannot be rounded to more places
than the least exponent has. -/
structure RoundsTo (exact : ℚ → ℤ → Outcome Decimal) (stored : Decimal → ℤ → Outcome Decimal) (value : ℤ → ℚ → ℚ) :
    Prop where
  exact : ∀ q places, GivesValue (exact q places) (places ≤ -minExponent ∧ WithinRange places (value places q)) (value places q)
  stored : ∀ d places, d.inRange = true →
    GivesValue (stored d places) (WithinRange places (value places d.toRat)) (value places d.toRat)
  multiple : ∀ places q, ∃ n : ℤ, value places q = n * tenPow (-places)
  self : ∀ places q, (∃ n : ℤ, q = n * tenPow (-places)) → value places q = q

theorem roundsTo_nearest : RoundsTo roundRat round rounded where
  exact := givesValue_roundRat
  stored _ places h := givesValue_round h places
  multiple places q := (isNearestMultiple_rounded places q).multiple
  self places q h := (isNearestMultiple_rounded places q).unique (isNearestMultiple_self h)

theorem roundsTo_cut : RoundsTo truncateRat truncate cut where
  exact := givesValue_truncateRat
  stored _ places h := givesValue_truncate h places
  multiple places q := (isCutMultiple_cut places q).multiple
  self places q h := (isCutMultiple_cut places q).unique (isCutMultiple_self h)

/-- What stands for an integer has its integer part. -/
theorem toInt_of_toRat {d : Decimal} {n : ℤ} (h : d.toRat = n) : d.toInt = n := by
  have hwhole : d.wholePart = n.natAbs := by
    rw [wholePart_eq, h, ← Int.cast_abs, Int.abs_eq_natAbs, Int.cast_natCast, Nat.floor_natCast]
  have hsign := toRat_eq_sign_mul_abs d
  rw [h, ← Int.cast_abs, Int.abs_eq_natAbs] at hsign
  rw [toInt, hwhole]
  split
  · rename_i hnegative
    rw [if_pos hnegative] at hsign
    have : n = -1 * (n.natAbs : ℤ) := by exact_mod_cast hsign
    omega
  · rename_i hnegative
    rw [if_neg hnegative, one_mul] at hsign
    exact_mod_cast hsign.symm

end Reckon.Decimal
