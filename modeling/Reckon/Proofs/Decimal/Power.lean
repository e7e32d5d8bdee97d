/-
Powers by repeated squaring. What the loop multiplies are powers of the base, and a value that some decimal
holds has no lower power that none holds. So the power is found exactly if some decimal has its value. It has the
sign of the parity and the multiple of the exponent, or the exponent in range that is nearest to it.
-/
import Reckon.Proofs.Real.Cutting
import Reckon.Proofs.Real.Failures

namespace Reckon.Decimal

open Reckon.Outcome Reckon.Real

/-! ## Results in range -/

/-- The exponent in range that is nearest to an exponent. -/
def nearestExponent (e : ℤ) : ℤ := max minExponent (min maxExponent e)

theorem nearestExponent_of_mem {e : ℤ} (hmin : minExponent ≤ e) (hmax : e ≤ maxExponent) : nearestExponent e = e := by
  rw [nearestExponent, min_eq_right hmax, max_eq_right hmin]

/-- On one side of zero it does not matter when exponents are brought into the range. -/
theorem nearestExponent_add {e f : ℤ} (h : 0 ≤ e ∧ 0 ≤ f ∨ e ≤ 0 ∧ f ≤ 0) :
    nearestExponent (nearestExponent e + nearestExponent f) = nearestExponent (e + f) := by
  unfold nearestExponent minExponent maxExponent
  omega

/-- Value, sign and exponent determine the digits. -/
theorem eq_of_toRat_eq {c d : Decimal} (hvalue : c.toRat = d.toRat) (hnegative : c.negative = d.negative)
    (hexponent : c.exponent = d.exponent) : c = d := by
  have hsize : |c.toRat| = |d.toRat| := by rw [hvalue]
  rw [abs_toRat, abs_toRat, hexponent] at hsize
  have hcoefficient : c.coefficient = d.coefficient := by
    exact_mod_cast mul_right_cancel₀ (tenPow_ne_zero _) hsize
  cases c
  cases d
  simp_all

theorem exponent_of_fit {d r : Decimal} (h : fit d = .ok r) : r.negative = d.negative ∧
    r.exponent = nearestExponent d.exponent := by
  unfold fit at h
  split at h
  · rename_i hd
    obtain rfl := Except.ok.inj h
    obtain ⟨hmin, hmax⟩ := (inRange_iff d).1 hd
    exact ⟨rfl, (nearestExponent_of_mem hmin (d.exponent_le_adjusted.trans hmax)).symm⟩
  split at h
  · obtain rfl := Except.ok.inj h
    exact ⟨rfl, rfl⟩
  split at h
  · cases h
  rename_i hd _ hadjusted
  simp only at h
  split at h
  · obtain rfl := Except.ok.inj h
    -- out of range without being too large, the exponent is too low
    have hlow : ¬ minExponent ≤ d.exponent := fun hmin => hd ((inRange_iff d).2 ⟨hmin, not_lt.1 hadjusted⟩)
    refine ⟨rfl, (max_eq_left ?_).symm⟩
    exact (min_le_right _ _).trans (not_le.1 hlow).le
  · cases h

/-- Restoring the range keeps value and sign and moves the exponent no farther than it has to. -/
theorem fit_eq_ok_iff {d r : Decimal} : fit d = .ok r ↔
    r.inRange = true ∧ r.toRat = d.toRat ∧ r.negative = d.negative ∧ r.exponent = nearestExponent d.exponent := by
  constructor
  · exact fun h => ⟨inRange_of_fit h, toRat_fit h, exponent_of_fit h⟩
  · rintro ⟨hr, hvalue, hnegative, hexponent⟩
    obtain ⟨s, hs, hsvalue⟩ := (givesValue_fit d).ok ⟨r, hr, hvalue⟩
    obtain ⟨hsnegative, hsexponent⟩ := exponent_of_fit hs
    rw [hs, eq_of_toRat_eq (hvalue.trans hsvalue.symm) (hnegative.trans hsnegative.symm)
      (hexponent.trans hsexponent.symm)]

/-! ## Values that have a decimal -/

/-- Decimals hold the values of limited size that are whole in units of the least exponent. -/
theorem representable_iff (q : ℚ) :
    Representable q ↔ |q| < tenPow (maxExponent + 1) ∧ ∃ n : ℤ, q = n * tenPow minExponent := by
  constructor
  · rintro ⟨d, hd, rfl⟩
    obtain ⟨hmin, -, hsize⟩ := (inRange_iff_withinRange d).1 hd
    exact ⟨hsize, _, (coefficientAt_mul_tenPow hmin).symm⟩
  · rintro ⟨hsize, n, rfl⟩
    have hmax : -(-minExponent) ≤ maxExponent := by decide
    exact ⟨_, (inRange_iff_withinRange _).2 ⟨le_rfl, hmax, by rwa [toRat_ofSigned]⟩, toRat_ofSigned n minExponent⟩

/-- A root of a whole number is whole if it is rational. -/
theorem exists_intCast_of_pow {x : ℚ} {n : Nat} (hn : n ≠ 0) {k : ℤ} (h : x ^ n = k) : ∃ m : ℤ, x = m := by
  have hden : x.den ^ n = 1 := by rw [← Rat.den_pow, h, Rat.den_intCast]
  exact ⟨x.num, (Rat.coe_int_num_of_den_eq_one ((Nat.pow_eq_one.1 hden).resolve_right hn)).symm⟩

/-- If a power is whole in some unit below one, so are the lower powers: counted in that unit, a lower power is a
rational root of a whole number. -/
theorem exists_units_of_pow {q u : ℚ} {N m n : Nat} (hN : N ≠ 0) (hu : u = (N : ℚ)⁻¹) (hmn : m ≤ n)
    (h : ∃ k : ℤ, q ^ n = k * u) : ∃ k : ℤ, q ^ m = k * u := by
  obtain ⟨k, hk⟩ := h
  have hN' : (N : ℚ) ≠ 0 := Nat.cast_ne_zero.2 hN
  have hwhole : q ^ n * N = k := by rw [hk, hu, mul_assoc, inv_mul_cancel₀ hN', mul_one]
  by_cases hn : n = 0
  · obtain rfl : m = n := by omega
    exact ⟨k, hk⟩
  have hpow : (q ^ m * N) ^ n = ((k ^ m * (N : ℤ) ^ (n - m) : ℤ) : ℚ) := by
    calc (q ^ m * N) ^ n = (q ^ n * N) ^ m * (N : ℚ) ^ (n - m) := by
          conv_lhs => rw [mul_pow, show (N : ℚ) ^ n = N ^ m * N ^ (n - m) by rw [← pow_add, Nat.add_sub_cancel' hmn]]
          rw [mul_pow, ← pow_mul, ← pow_mul, Nat.mul_comm, mul_assoc]
      _ = _ := by
          rw [hwhole]
          push_cast
          rfl
  obtain ⟨l, hl⟩ := exists_intCast_of_pow hn hpow
  exact ⟨l, by rw [← hl, hu, mul_assoc, mul_inv_cancel₀ hN', mul_one]⟩

theorem representable_pow_of_le {q : ℚ} {m n : Nat} (hmn : m ≤ n) (h : Representable (q ^ n)) : Representable (q ^ m) := by
  rw [representable_iff] at h ⊢
  obtain ⟨hsize, hunits⟩ := h
  constructor
  · have hone : tenPow 0 < tenPow (maxExponent + 1) := tenPow_lt_tenPow.2 (by decide)
    rw [tenPow_zero] at hone
    rw [abs_pow] at hsize ⊢
    rcases le_total |q| 1 with hle | hle
    · exact (pow_le_one₀ (abs_nonneg q) hle).trans_lt hone
    · exact (pow_le_pow_right₀ hle hmn).trans_lt hsize
  · obtain ⟨K, hK⟩ := Int.eq_ofNat_of_zero_le (show 0 ≤ -minExponent by decide)
    rw [← neg_neg minExponent, hK] at hunits ⊢
    exact exists_units_of_pow (pow_ne_zero K (by decide)) (tenPow_neg_natCast K) hmn hunits

/-! ## Powers -/

/-- A power of a decimal: the exact value with the sign that the parity leaves, over the multiple of the exponent
as far as exponents go. -/
structure IsPower (a : Decimal) (n : Nat) (d : Decimal) : Prop where
  value : d.toRat = a.toRat ^ n
  negative : d.negative = true ↔ a.negative = true ∧ n % 2 = 1
  exponent : d.exponent = nearestExponent (n * a.exponent)
  inRange : d.inRange = true

namespace IsPower

variable {a d x y : Decimal} {i j m n : Nat}

theorem unique (h : IsPower a n x) (h' : IsPower a n y) : x = y := by
  refine eq_of_toRat_eq (h.value.trans h'.value.symm) ?_ (h.exponent.trans h'.exponent.symm)
  rw [Bool.eq_iff_iff, h.negative, h'.negative]

theorem zero (a : Decimal) : IsPower a 0 one where
  value := by
    rw [pow_zero]
    with_unfolding_all decide
  negative := iff_of_false Bool.false_ne_true fun h => absurd h.2 (by decide)
  exponent := by
    rw [Nat.cast_zero, zero_mul]
    decide
  inRange := by with_unfolding_all decide

theorem one (ha : a.inRange = true) : IsPower a 1 a where
  value := (pow_one _).symm
  negative := (and_iff_left rfl).symm
  exponent := by
    obtain ⟨hmin, hmax⟩ := (inRange_iff a).1 ha
    rw [Nat.cast_one, one_mul, nearestExponent_of_mem hmin (a.exponent_le_adjusted.trans hmax)]
  inRange := ha

/-- The product of two powers is the power with the sum of their exponents, if there is one. -/
theorem mul_eq_ok_iff (hx : IsPower a i x) (hy : IsPower a j y) : mul x y = .ok d ↔ IsPower a (i + j) d := by
  have hnegative : (product x y).negative = true ↔ a.negative = true ∧ (i + j) % 2 = 1 := by
    rw [product, bne_iff_ne, Ne, Bool.eq_iff_iff, hx.negative, hy.negative]
    by_cases ha : a.negative = true
    · simp only [ha, true_and]
      omega
    · simp [ha]
  have hexponent : nearestExponent (product x y).exponent = nearestExponent ((i + j : Nat) * a.exponent) := by
    rw [product, hx.exponent, hy.exponent, nearestExponent_add, ← add_mul, Nat.cast_add]
    rcases le_total 0 a.exponent with he | he
    · exact .inl ⟨mul_nonneg (Int.natCast_nonneg i) he, mul_nonneg (Int.natCast_nonneg j) he⟩
    · exact .inr ⟨mul_nonpos_of_nonneg_of_nonpos (Int.natCast_nonneg i) he,
        mul_nonpos_of_nonneg_of_nonpos (Int.natCast_nonneg j) he⟩
  rw [mul, fit_eq_ok_iff, toRat_product, hx.value, hy.value, ← pow_add, hexponent,
    Bool.eq_iff_iff (a := d.negative), hnegative]
  exact ⟨fun ⟨hd, hv, hs, he⟩ => ⟨hv, hs, he, hd⟩, fun h => ⟨h.inRange, h.value, h.negative, h.exponent⟩⟩

/-- There is a power if some decimal has its value. -/
theorem exists_of_representable (ha : a.inRange = true) (h : Representable (a.toRat ^ n)) : ∃ d, IsPower a n d := by
  induction n with
  | zero => exact ⟨_, zero a⟩
  | succ n ih =>
    obtain ⟨x, hx⟩ := ih (representable_pow_of_le (Nat.le_succ n) h)
    obtain ⟨d, hd, -⟩ := (givesValue_mul x a).ok (by rwa [hx.value, ← pow_succ])
    exact ⟨d, (hx.mul_eq_ok_iff (one ha)).1 hd⟩

/-- The lower powers of a base exist with a higher one. -/
theorem exists_of_le (ha : a.inRange = true) (h : IsPower a n d) (hmn : m ≤ n) : ∃ x, IsPower a m x :=
  exists_of_representable ha (representable_pow_of_le hmn ⟨d, h.inRange, h.value⟩)

theorem ok_eq_ok_iff (h : IsPower a n x) : (.ok x : Outcome Decimal) = .ok d ↔ IsPower a n d :=
  ⟨fun heq => Except.ok.inj heq ▸ h, fun hd => congrArg Except.ok (h.unique hd)⟩

/-- The square is a factor if the lowest bit of the exponent is set. -/
theorem bit_eq_ok_iff (hx : IsPower a i x) (hy : IsPower a m y) (n : Nat) :
    (if n % 2 = 1 then mul x y else .ok x) = .ok d ↔ IsPower a (i + m * (n % 2)) d := by
  split
  · rename_i hodd
    rw [hodd, Nat.mul_one, hx.mul_eq_ok_iff hy]
  · rename_i heven
    rw [show n % 2 = 0 by omega, Nat.mul_zero, Nat.add_zero, hx.ok_eq_ok_iff]

/-- What is left for the loop is to multiply by the power of the square. All that it forms on the way are lower
powers than the result, so it finds the result if there is one. -/
theorem powLoop_eq_ok_iff (ha : a.inRange = true) (n : Nat) : ∀ {i m : Nat} {x y : Decimal}, IsPower a i x → IsPower a m y →
    (powLoop x y n = .ok d ↔ IsPower a (i + m * n) d) := by
  induction n using Nat.strong_induction_on with
  | _ n ih =>
    intro i m x y hx hy
    by_cases hn : n = 0
    · rw [powLoop, dif_pos hn, hn, Nat.mul_zero, Nat.add_zero, hx.ok_eq_ok_iff]
    -- accumulator and square stand for two powers; the bit moves from one to the other
    have hsplit : i + m * n = i + m * (n % 2) + (m + m) * (n / 2) := by
      conv_lhs => rw [← Nat.mod_add_div n 2]
      ring
    have hrest : ∀ z, IsPower a (i + m * (n % 2)) z → ((if n / 2 = 0 then .ok z
        else mul y y >>= fun square => powLoop z square (n / 2)) = .ok d ↔ IsPower a (i + m * n) d) := by
      intro z hz
      rw [hsplit]
      split
      · rename_i hlast
        rw [hlast, Nat.mul_zero, Nat.add_zero, hz.ok_eq_ok_iff]
      · rename_i hmore
        rw [bind_eq_ok]
        constructor
        · rintro ⟨square, hsquare, h⟩
          exact (ih (n / 2) (by omega) hz ((hy.mul_eq_ok_iff hy).1 hsquare)).1 h
        · intro h
          have hle : m + m ≤ i + m * (n % 2) + (m + m) * (n / 2) :=
            (Nat.le_mul_of_pos_right _ (Nat.pos_of_ne_zero hmore)).trans (Nat.le_add_left _ _)
          obtain ⟨square, hsquare⟩ := h.exists_of_le ha hle
          exact ⟨square, (hy.mul_eq_ok_iff hy).2 hsquare, (ih (n / 2) (by omega) hz hsquare).2 h⟩
    rw [powLoop_eq x y hn, bind_eq_ok]
    constructor
    · rintro ⟨z, hz, h⟩
      exact (hrest z ((hx.bit_eq_ok_iff hy n).1 hz)).1 h
    · intro h
      have hle : i + m * (n % 2) ≤ i + m * n := Nat.add_le_add_left (Nat.mul_le_mul_left m (Nat.mod_le n 2)) i
      obtain ⟨z, hz⟩ := h.exists_of_le ha hle
      exact ⟨z, (hx.bit_eq_ok_iff hy n).2 hz, (hrest z hz).2 h⟩

end IsPower

theorem pow_eq_ok_iff {a d : Decimal} (ha : a.inRange = true) (n : Nat) : pow a n = .ok d ↔ IsPower a n d := by
  rw [pow, IsPower.powLoop_eq_ok_iff ha n (.zero a) (.one ha), Nat.zero_add, Nat.one_mul]

/-- The outcome is the power if some decimal has its value; else the value is too large or has digits below the
least exponent. -/
structure GivesPower (a : Decimal) (n : Nat) (x : Outcome Decimal) : Prop where
  ok : Representable (a.toRat ^ n) → ∃ d, x = .ok d ∧ IsPower a n d
  error : ¬ Representable (a.toRat ^ n) → x = .error .decimalOverflow ∨ x = .error .decimalInexact

theorem givesPower_pow {a : Decimal} (ha : a.inRange = true) (n : Nat) : GivesPower a n (pow a n) where
  ok h := by
    obtain ⟨d, hd⟩ := IsPower.exists_of_representable ha h
    exact ⟨d, (pow_eq_ok_iff ha n).2 hd, hd⟩
  error hnot := by
    cases hpow : pow a n with
    | ok d =>
      have hd := (pow_eq_ok_iff ha n).1 hpow
      exact absurd ⟨d, hd.inRange, hd.value⟩ hnot
    | error e =>
      rcases pow_unfit a n e hpow with rfl | rfl
      · exact .inl rfl
      · exact .inr rfl

/-- A power is found exactly if some decimal has its value, and negative exponents are refused. -/
theorem powInt_givesPower (a : Decimal) (ha : a.inRange = true) :
    (∀ n : Nat, GivesPower a n (powInt a n)) ∧ ∀ n : ℤ, n < 0 → powInt a n = .error .negativeDecimalPower := by
  refine ⟨fun n => ?_, fun n hn => if_pos hn⟩
  rw [powInt, if_neg (Int.natCast_nonneg n).not_gt, Int.toNat_natCast]
  exact givesPower_pow ha n

/-- The cube of minus three halves, written with a zero behind. -/
theorem powInt_givesPower_minus_three_halves : inRange ⟨true, 150, -2⟩ = true ∧
    powInt ⟨true, 150, -2⟩ 3 = .ok ⟨true, 3375000, -6⟩ ∧ IsPower ⟨true, 150, -2⟩ 3 ⟨true, 3375000, -6⟩ := by
  have ha : inRange ⟨true, 150, -2⟩ = true := by with_unfolding_all decide
  have hpower : IsPower ⟨true, 150, -2⟩ 3 ⟨true, 3375000, -6⟩ :=
    ⟨by with_unfolding_all decide, by decide, by decide, by with_unfolding_all decide⟩
  obtain ⟨d, hd, h⟩ := ((powInt_givesPower ⟨true, 150, -2⟩ ha).1 3).ok ⟨_, hpower.inRange, hpower.value⟩
  obtain rfl := h.unique hpower
  exact ⟨ha, hd, hpower⟩

/-- The exponent of a square need not be twice that of its base where this is out of range, and a square that is
too large is none. -/
theorem powInt_leaves_range :
    inRange ⟨false, 1000, -1000000000000000000⟩ = true ∧
    powInt ⟨false, 1000, -1000000000000000000⟩ 2 = .ok ⟨false, 1000, -1999999999999999997⟩ ∧
    (-1999999999999999997 : ℤ) ≠ 2 * -1000000000000000000 ∧
    inRange ⟨false, 1, 600000000000000000⟩ = true ∧
    powInt ⟨false, 1, 600000000000000000⟩ 2 = .error .decimalOverflow := by
  refine ⟨by with_unfolding_all decide, by with_unfolding_all decide, by decide, by with_unfolding_all decide,
    by with_unfolding_all decide⟩

end Reckon.Decimal
