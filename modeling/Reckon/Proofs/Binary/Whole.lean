/-
Whole numbers as doubles. Below 2 ^ 53 an integer is its own double. From there on the last bit of the
significand stands for two or more, so the nearest double is an even integer, or infinite, and the parity
of the integer is lost. A power of plus or minus one is decided by this parity.
-/
import Reckon.Binary.Functions
import Reckon.Proofs.Binary.Rounding

namespace Reckon

namespace FiniteBinary

variable {x : FiniteBinary .double}

theorem eq_zero_of_isZero (h : x.isZero = true) : x = .zero x.negative := by
  obtain ⟨negative, magnitude, hlt⟩ := x
  obtain rfl : magnitude = 0 := beq_iff_eq.1 h
  rfl

theorem isZero_eq_false (h : x.toRat ≠ 0) : x.isZero = false := by
  refine Bool.eq_false_iff.2 fun hzero => h ?_
  rw [eq_zero_of_isZero hzero]
  exact Binary.toRat_zero x.negative

end FiniteBinary

namespace Binary

namespace Rounds

variable {n m : Nat} {e : ℤ}

/-- An integer with no more bits than a significand is not rounded. -/
theorem eq_of_lt (h : Rounds .double n m e) (hn : n < 2 ^ 53) : m * (2 : ℚ) ^ e = n :=
  h.eq_of_units hn (by norm_num : (-1074 : ℤ) ≤ 0) (by rw [zpow_zero, mul_one])

/-- An integer with more bits than a significand is rounded to an even integer. -/
theorem even_of_le (h : Rounds .double n m e) (hn : 2 ^ 53 ≤ n) :
    ∃ k : ℤ, k ≠ 0 ∧ m * (2 : ℚ) ^ e = (2 * k : ℤ) := by
  have he : 1 ≤ e := by
    have hlt : (2 : ℚ) ^ (53 : ℤ) < 2 ^ (53 + e) := calc
      (2 : ℚ) ^ (53 : ℤ) ≤ n := by exact_mod_cast hn
      _ < 2 * Format.unit .double * 2 ^ e := h.high
      _ = 2 ^ (53 + e) := two_unit_mul_zpow .double e
    have := (zpow_lt_zpow_iff_right₀ (by norm_num : (1 : ℚ) < 2)).1 hlt
    omega
  obtain ⟨k, rfl⟩ : ∃ k : Nat, e = k + 1 := ⟨(e - 1).toNat, by omega⟩
  have hm : m ≠ 0 := by
    have hfull := h.full.resolve_left fun hmin => by
      rw [hmin] at he
      exact absurd he (by decide)
    exact (lt_of_lt_of_le (FiniteBinary.unit_pos .double) hfull).ne'
  refine ⟨m * 2 ^ k, by positivity, ?_⟩
  rw [zpow_add_one₀ (by norm_num), zpow_natCast]
  push_cast
  ring

end Rounds

/-! ## The double of an integer -/

/-- What the double next to an integer other than zero is. -/
inductive WholeDouble (n : ℤ) : Double → Prop
  | exact {x : FiniteBinary .double} (hn : n.natAbs < 2 ^ 53) (hx : x.toRat = n) : WholeDouble n (.finite x)
  | even {x : FiniteBinary .double} {k : ℤ} (hn : 2 ^ 53 ≤ n.natAbs) (hk : k ≠ 0) (hx : x.toRat = (2 * k : ℤ)) :
      WholeDouble n (.finite x)
  | infinite {negative : Bool} (hn : 2 ^ 53 ≤ n.natAbs) : WholeDouble n (.infinite negative)

theorem intCast_eq_sign (n : ℤ) : (n : ℚ) = (if n < 0 then -1 else 1) * (n.natAbs : ℚ) := by
  rw [Nat.cast_natAbs, Int.cast_abs]
  split
  · rw [abs_of_neg (by exact_mod_cast ‹n < 0›), neg_one_mul, neg_neg]
  · rw [abs_of_nonneg (by exact_mod_cast not_lt.1 ‹_›), one_mul]

theorem wholeDouble_ofQuotient {n : ℤ} (hn : n ≠ 0) : WholeDouble n (ofQuotient (n < 0) n.natAbs 1) := by
  have hpos : 0 < n.natAbs := Int.natAbs_pos.2 hn
  cases h : (ofQuotient (n < 0) n.natAbs 1 : Double) with
  | finite x =>
    obtain ⟨m, e, hrounds, hnegative, hvalue⟩ := exists_rounds_of_finite hpos Nat.one_pos h
    rw [Nat.cast_one, div_one] at hrounds
    have hx : x.toRat = (if n < 0 then -1 else 1) * (m * (2 : ℚ) ^ e) := by
      unfold FiniteBinary.toRat
      simp only [hnegative, hvalue, decide_eq_true_eq]
      split <;> ring
    -- below 2 ^ 53 the integer is a double itself, from there on doubles are even
    rcases lt_or_ge n.natAbs (2 ^ 53) with hsmall | hlarge
    · refine .exact hsmall ?_
      rw [hx, hrounds.eq_of_lt hsmall, ← intCast_eq_sign]
    · obtain ⟨k, hk, hvalue⟩ := hrounds.even_of_le hlarge
      rw [hvalue] at hx
      refine .even (k := if n < 0 then -k else k) hlarge (by split <;> omega) ?_
      rw [hx]
      split <;> push_cast <;> ring
  | infinite s =>
    refine .infinite (not_lt.1 fun hsmall => ?_)
    have hbound : (n.natAbs : ℚ) / (1 : Nat) ≤ (FiniteBinary.largest .double).toRat := by
      rw [Nat.cast_one, div_one]
      calc (n.natAbs : ℚ) ≤ 2 ^ (53 : ℤ) := by exact_mod_cast hsmall.le
        _ ≤ (FiniteBinary.largest .double).toRat := FiniteBinary.two_zpow_le_largest (by norm_num)
    obtain ⟨x, hx⟩ := exists_ofQuotient_finite (decide (n < 0)) hpos Nat.one_pos hbound
    rw [hx] at h
    cases h
  | nan =>
    obtain ⟨m, e, -, heq⟩ := ofQuotient_eq (f := .double) (decide (n < 0)) hpos Nat.one_pos
    rw [h] at heq
    split at heq <;> cases heq

/-- The double next to an integer is exact, or even, or infinite. -/
theorem wholeDouble_ofDecimal {n : ℤ} (hn : n ≠ 0) : WholeDouble n (ofDecimal (.ofInt n)) := by
  have hzero : ¬ (Decimal.ofInt n).isZero = true := by
    rw [Decimal.isZero_iff]
    exact Int.natAbs_ne_zero.2 hn
  have hadjusted : (Decimal.ofInt n).adjusted = (Digits.width n.natAbs - 1 : Nat) := by
    rw [Decimal.ofInt, Decimal.adjusted, Decimal.digitCount, zero_add]
  unfold ofDecimal
  rw [if_neg hzero, if_neg (by omega)]
  split
  · rename_i hlong
    refine .infinite (not_lt.1 fun hsmall => ?_)
    have hwidth := Digits.width_le (by decide : 0 < 16) (hsmall.trans (by norm_num : 2 ^ 53 < 10 ^ 16))
    omega
  · rw [if_pos (show (0 : ℤ) ≤ (Decimal.ofInt n).exponent from le_rfl)]
    show WholeDouble n (ofQuotient (n < 0) (n.natAbs * 10 ^ 0) 1)
    rw [pow_zero, Nat.mul_one]
    exact wholeDouble_ofQuotient hn

namespace WholeDouble

variable {n : ℤ} {y : Double}

theorem exists_exact (h : WholeDouble n y) (hn : n.natAbs < 2 ^ 53) : ∃ x, y = .finite x ∧ x.toRat = n := by
  cases h with
  | exact _ hx => exact ⟨_, rfl, hx⟩
  | even hlarge => exact absurd hn (not_lt.2 hlarge)
  | infinite hlarge => exact absurd hn (not_lt.2 hlarge)

/-- Only an integer below 2 ^ 53 has an odd double. -/
theorem isOddInteger_iff (h : WholeDouble n y) : isOddInteger y = true ↔ Odd n ∧ n.natAbs < 2 ^ 53 := by
  have hodd : ∀ {x : FiniteBinary .double} {k : ℤ}, x.toRat = k → (isOddInteger (.finite x) = true ↔ Odd k) := by
    intro x k hx
    unfold isOddInteger
    simp only [hx, Rat.den_intCast, Rat.num_intCast, beq_self_eq_true, Bool.true_and, beq_iff_eq, Int.odd_iff]
  cases h with
  | exact hn hx => rw [hodd hx, and_iff_left hn]
  | even hn hk hx =>
    rw [hodd hx]
    exact iff_of_false (Int.not_odd_iff_even.2 (even_two_mul _)) fun h => absurd h.2 (not_lt.2 hn)
  | infinite hn => exact iff_of_false Bool.false_ne_true fun h => absurd h.2 (not_lt.2 hn)

theorem isZero_eq_false (h : WholeDouble n y) (hn : n ≠ 0) : y.isZero = false := by
  cases h with
  | exact _ hx => exact FiniteBinary.isZero_eq_false (by rwa [hx, Int.cast_ne_zero])
  | even _ hk hx => exact FiniteBinary.isZero_eq_false (by rw [hx, Int.cast_ne_zero]; omega)
  | infinite _ => rfl

/-- The power of plus or minus one to an integer has the sign of the parity that is left. -/
theorem pow_of_unit (h : WholeDouble n y) (hn : n ≠ 0) {b : FiniteBinary .double} (hb : b.absRat = 1) :
    pow (.finite b) y = ofRat (if b.negative = true ∧ Odd n ∧ n.natAbs < 2 ^ 53 then -1 else 1) := by
  have hbase : b.isZero = false := FiniteBinary.isZero_eq_false (by rw [← abs_ne_zero, b.abs_toRat, hb]; exact one_ne_zero)
  have hodd := h.isOddInteger_iff
  have hsign : ∀ {x : FiniteBinary .double} {k : ℤ}, x.toRat = k → (b.negative && x.toRat.den != 1) = false :=
    fun hx => by rw [hx, Rat.den_intCast]; simp
  -- every finite double here is an integer, so the power is never refused for a negative base
  have hfinite : ∀ {x : FiniteBinary .double} {k : ℤ}, y = .finite x → x.toRat = k →
      pow (.finite b) y = ofRat (if b.negative && isOddInteger y then -1 else 1) := by
    rintro x k rfl hx
    unfold pow
    rw [h.isZero_eq_false hn]
    simp only [hbase, hsign hx, if_pos hb, Bool.false_eq_true, if_false]
  have hparity : (if b.negative && isOddInteger y then -1 else 1 : ℚ) =
      if b.negative = true ∧ Odd n ∧ n.natAbs < 2 ^ 53 then -1 else 1 := by
    simp only [Bool.and_eq_true, hodd]
  rw [← hparity]
  cases h with
  | exact _ hx => exact hfinite rfl hx
  | even _ _ hx => exact hfinite rfl hx
  | infinite _ =>
    -- the power of plus or minus one to an infinity is one
    rw [show isOddInteger (.infinite _) = false from rfl, Bool.and_false]
    exact if_pos hb

end WholeDouble

end Binary

end Reckon
