/-
Powers of integers and of their promotions. Both are exact where the power of an integer succeeds, but
their limits differ: an integer is refused only for a base other than zero and plus or minus one, while a
promoted integer to a large exponent is a power of doubles. There an odd exponent past 2 ^ 53 is rounded
to an even one, so that plus one is taken for the power of minus one.
-/
import Reckon.Proofs.Binary.Whole
import Reckon.Proofs.Number.Promotion
import Reckon.Proofs.Real.ExactPower

namespace Reckon

open Outcome

namespace Integer

/-- A power that succeeds is exact, and it is short or that of zero or plus or minus one. -/
theorem power_eq_ok {x n r : ℤ} (h : power x n = .ok r) : 0 ≤ n ∧
    (1 < x.natAbs → n.natAbs * Real.bitLength x.natAbs ≤ Real.maxPowerBits) ∧ r = x ^ n.natAbs := by
  unfold power at h
  split at h
  · cases h
  rename_i hn
  split at h
  · cases h
  rename_i hbits
  refine ⟨not_lt.1 hn, fun hx => not_lt.1 fun hlong => hbits ⟨hx, hlong⟩, ?_⟩
  split at h
  · rename_i hsmall
    have hr := (Except.ok.inj h).symm
    obtain rfl | rfl | rfl : x = 0 ∨ x = 1 ∨ x = -1 := by omega
    · by_cases hzero : n = 0
      · rw [hr, hzero]
        rfl
      · rw [hr, if_pos rfl, if_neg hzero, zero_pow (Int.natAbs_ne_zero.2 hzero)]
    · rw [hr, one_pow, if_neg one_ne_zero, ite_self]
    · rw [hr, if_neg (by decide)]
      split
      · rw [Even.neg_one_pow (Int.natAbs_even.2 (Int.even_iff.2 ‹_›))]
      · rw [Odd.neg_one_pow (Int.natAbs_odd.2 (Int.odd_iff.2 (by omega)))]
  · exact (Except.ok.inj h).symm

end Integer

namespace Real

/-- The exponent is odd and too long for the significand of a double, which rounds it to an even number
and so loses the sign of a power of minus one. -/
def LosesSign (x n : ℤ) : Prop := x = -1 ∧ Odd n ∧ 2 ^ 53 < n

instance (x n : ℤ) : Decidable (LosesSign x n) := inferInstanceAs (Decidable (_ ∧ _ ∧ _))

theorem lt_two_pow_bitLength (n : Nat) : n < 2 ^ bitLength n := by
  unfold bitLength
  split
  · rename_i hzero
    rw [hzero]
    exact Nat.one_pos
  · exact Nat.lt_log2_self

/-- A power has at most as many bits as the base has, as often as the exponent says. -/
theorem pow_lt_two_pow {n m k : Nat} (hk : k ≠ 0) (hn : bitLength n ≤ m) : n ^ k < 2 ^ (k * m) := calc
  n ^ k < (2 ^ m) ^ k :=
    Nat.pow_lt_pow_left ((lt_two_pow_bitLength n).trans_le (Nat.pow_le_pow_right two_pos hn)) hk
  _ = 2 ^ (k * m) := by rw [← pow_mul, Nat.mul_comm]

/-- A power of bounded length is a decimal. -/
theorem width_pow_le {x k : Nat} (hx : x ≠ 0) (hk : k ≠ 0) (h : k * bitLength x ≤ maxPowerBits) :
    Digits.width (x ^ k) ≤ 10 ^ 18 := by
  have hlt : x ^ k < 10 ^ (k * bitLength x) := calc
    x ^ k < 2 ^ (k * bitLength x) := pow_lt_two_pow hk le_rfl
    _ ≤ 10 ^ (k * bitLength x) := Nat.pow_le_pow_left (by decide) _
  have hpos : 0 < k * bitLength x := Nat.mul_pos (Nat.pos_of_ne_zero hk) (one_le_bitLength hx)
  exact (Digits.width_le hpos hlt).trans (h.trans (by decide))

section

variable {x n : ℤ}

theorem exists_double_of_unit (hx : x.natAbs = 1) : ∃ b : FiniteBinary .double,
    Binary.ofDecimal (.ofInt x) = .finite b ∧ b.absRat = 1 ∧ (b.negative = true ↔ x = -1) := by
  obtain ⟨b, hb, hvalue⟩ := (Binary.wholeDouble_ofDecimal (by omega : x ≠ 0)).exists_exact (by omega)
  have habs : b.absRat = 1 := by
    rw [← b.abs_toRat, hvalue, ← Int.cast_abs, Int.abs_eq_natAbs, hx]
    rfl
  refine ⟨b, hb, habs, ?_⟩
  unfold FiniteBinary.toRat at hvalue
  rw [habs] at hvalue
  cases hsign : b.negative <;> rw [hsign] at hvalue
  · obtain rfl : (1 : ℤ) = x := by exact_mod_cast hvalue
    decide
  · obtain rfl : (-1 : ℤ) = x := by exact_mod_cast hvalue
    decide

/-- The sign of a power of plus or minus one as doubles see it: the exponents that are odd and have an odd
double are those below 2 ^ 53. -/
theorem unit_pow_eq (hx : x.natAbs = 1) (hn : 0 < n) : (if LosesSign x n then 1 else x ^ n.natAbs) =
    if x = -1 ∧ Odd n ∧ n.natAbs < 2 ^ 53 then -1 else 1 := by
  obtain rfl | rfl : x = 1 ∨ x = -1 := by omega
  · rw [one_pow, ite_self, if_neg (fun h => absurd h.1 (by decide))]
  rcases Int.even_or_odd n with heven | hodd
  · have hparity := Int.not_odd_iff_even.2 heven
    rw [Even.neg_one_pow (Int.natAbs_even.2 heven), ite_self, if_neg (fun h => hparity h.2.1)]
  · -- the bound itself is even
    have hne : n ≠ 2 ^ 53 := fun h => absurd (h ▸ hodd) (by decide)
    rw [Odd.neg_one_pow (Int.natAbs_odd.2 hodd)]
    rcases lt_or_gt_of_ne hne with hsmall | hlarge
    · rw [if_neg (fun h => h.2.2.not_gt hsmall), if_pos ⟨rfl, hodd, by omega⟩]
    · rw [if_pos ⟨rfl, hodd, hlarge⟩, if_neg (fun h => absurd h.2.2 (by omega))]

/-- The 64-bit power of plus or minus one. -/
theorem nativePower_of_unit (hx : x.natAbs = 1) (hn : 0 < n) :
    nativePower (ofInt x) (ofInt n) = .ok (ofInt (if LosesSign x n then 1 else x ^ n.natAbs)) := by
  obtain ⟨b, hb, habs, hnegative⟩ := exists_double_of_unit hx
  have hpow := (Binary.wholeDouble_ofDecimal hn.ne').pow_of_unit hn.ne' habs
  simp only [hnegative] at hpow
  have hproject : ∀ k : ℤ, (ofInt k).project = .ok (Binary.ofDecimal (.ofInt k)) := fun _ => rfl
  unfold nativePower
  rw [hproject, hproject, ok_bind, ok_bind, hb, hpow, unit_pow_eq hx hn]
  by_cases hminus : x = -1 ∧ Odd n ∧ n.natAbs < 2 ^ 53
  · rw [if_pos hminus, if_pos hminus]
    decide +kernel
  · rw [if_neg hminus, if_neg hminus]
    decide +kernel

/-- Only powers of plus and minus one, which are never too long as integers, are left to doubles. -/
theorem integerPower_ofInt (hx : x ≠ 0) (hn : 0 < n)
    (hbits : 1 < x.natAbs → n.natAbs * bitLength x.natAbs ≤ maxPowerBits) :
    integerPower (ofInt x) n = .ok (ofInt (if LosesSign x n then 1 else x ^ n.natAbs)) := by
  have hx' : x.natAbs ≠ 0 := Int.natAbs_ne_zero.2 hx
  unfold integerPower
  rw [(standsFor_ofInt x).exactRat?]
  simp only [Rat.num_intCast, Rat.den_intCast, show bitLength 1 = 1 from rfl, max_eq_left (one_le_bitLength hx'),
    not_lt.2 hn.le, if_false]
  split
  · rename_i hsmall
    -- the exponents of exact powers stay far below 2 ^ 53
    have hkeeps : ¬ LosesSign x n := fun ⟨hbase, _, hlarge⟩ => by
      rw [hbase, show bitLength (-1 : ℤ).natAbs = 1 from rfl, show maxPowerBits = 2 ^ 24 from rfl] at hsmall
      omega
    have hwidth := width_pow_le hx' (Int.natAbs_ne_zero.2 hn.ne') hsmall
    rw [← Int.natAbs_pow] at hwidth
    rw [← Int.cast_pow, ofRat_intCast, if_pos hwidth, if_neg hkeeps]
  · rename_i hlarge
    have hunit : ¬ 1 < x.natAbs := fun h => hlarge (hbits h)
    exact nativePower_of_unit (by omega) hn

theorem isZero_ofInt_iff (n : ℤ) : (ofInt n).isZero = true ↔ n = 0 := by
  rw [(standsFor_ofInt n).isZero_iff, Int.cast_eq_zero]

theorem isInteger_ofInt (n : ℤ) : (ofInt n).isInteger = true := by
  show (!(Decimal.ofInt n).hasFraction) = true
  rw [Bool.not_eq_true', Bool.eq_false_iff, Ne, Decimal.hasFraction_iff, Decimal.toRat_ofInt, Rat.den_intCast]
  exact not_not.2 rfl

/-- The power of whole numbers. -/
theorem power_ofInt (hn : 0 ≤ n) (hbits : 1 < x.natAbs → n.natAbs * bitLength x.natAbs ≤ maxPowerBits) :
    power (ofInt x) (ofInt n) = .ok (ofInt (if LosesSign x n then 1 else x ^ n.natAbs)) := by
  have hfinite : ∀ k : ℤ, ¬ (ofInt k).isInfinite = true := fun _ => Bool.false_ne_true
  unfold power
  by_cases hzero : n = 0
  · rw [if_pos ((isZero_ofInt_iff n).2 hzero), hzero, if_neg (fun h => absurd h.2.2 (by decide)), Int.natAbs_zero,
      pow_zero]
    rfl
  rw [if_neg ((isZero_ofInt_iff n).not.2 hzero), if_neg (hfinite x), if_neg (hfinite n)]
  by_cases hbase : x = 0
  · have hsign : ¬ (ofInt n).isNegative = true := by
      show ¬ decide (n < 0) = true
      rw [decide_eq_true_eq]
      omega
    rw [if_pos ((isZero_ofInt_iff x).2 hbase), if_neg hsign, hbase, if_neg (fun h => absurd h.1 (by decide)),
      zero_pow (Int.natAbs_ne_zero.2 hzero)]
    rfl
  · rw [if_neg ((isZero_ofInt_iff x).not.2 hbase), if_pos (isInteger_ofInt n), toRat_eq_ok_iff.2 (toRat?_ofInt n), ok_bind,
      Rat.floor_intCast]
    exact integerPower_ofInt hbase (by omega) hbits

end

end Real

namespace Number

open Reckon.Real

/-- The power of integers is that of their promotions, unless the promoted exponent loses its parity and
with it the sign of a power of minus one. -/
theorem power_promotes {m n : Integer} {r : Number} (h : (integer m).power (integer n) = .ok r) :
    ∃ d, (promotion m).power (promotion n) = .ok (.ofReal (.big d)) ∧
      d.toRat = (if LosesSign m.value n.value then 1 else m.value ^ n.value.natAbs : ℤ) ∧
      (r.equals (.ofReal (.big d)) = .ok true ↔ ¬ LosesSign m.value n.value) := by
  obtain ⟨s, hpower, rfl⟩ := map_eq_ok.1 h
  obtain ⟨hn, hbits, rfl⟩ := Integer.power_eq_ok hpower
  refine ⟨.ofInt (if LosesSign m.value n.value then 1 else m.value ^ n.value.natAbs), ?_, Decimal.toRat_ofInt _, ?_⟩
  · exact (number_power_ofReal rfl rfl).trans (map_eq_ok.2 ⟨_, power_ofInt hn hbits, rfl⟩)
  · refine (equals_promotion_iff ⟨_, none⟩ ⟨_, none⟩).trans ?_
    show (m.value ^ n.value.natAbs = if LosesSign m.value n.value then 1 else m.value ^ n.value.natAbs) ↔ _
    split
    · rename_i hloses
      have hminus : m.value ^ n.value.natAbs = -1 := by
        rw [hloses.1, Odd.neg_one_pow (Int.natAbs_odd.2 hloses.2.1)]
      rw [hminus]
      exact iff_of_false (by decide) (not_not.2 hloses)
    · rename_i hkeeps
      exact iff_of_true rfl hkeeps

/-- Seven is an odd exponent that every double holds. -/
theorem power_promotes_minus_two : ∃ r d, power (integer ⟨-2, some .i8⟩) (ofInt 7) = .ok r ∧
    (promotion ⟨-2, some .i8⟩).power (promotion ⟨7, none⟩) = .ok (.ofReal (.big d)) ∧ d.toRat = (-128 : ℤ) ∧
      r.equals (.ofReal (.big d)) = .ok true := by
  have hpower : power (integer ⟨-2, some .i8⟩) (ofInt 7) = .ok (ofInt (-128)) := by decide +kernel
  obtain ⟨d, hd, hvalue, hequal⟩ := power_promotes hpower
  exact ⟨_, d, hpower, hd, hvalue, hequal.2 (by decide)⟩

/-- At the least odd exponent that no double holds, the promoted power of minus one is one. -/
theorem power_minus_one_loses_sign :
    power (ofInt (-1)) (ofInt (2 ^ 53 + 1)) = .ok (ofInt (-1)) ∧
    (promotion ⟨-1, none⟩).power (promotion ⟨2 ^ 53 + 1, none⟩) = .ok (.ofReal (.ofInt 1)) ∧
      (ofInt (-1)).equals (.ofReal (.ofInt 1)) = .ok false :=
  ⟨by decide +kernel, by decide +kernel, by decide +kernel⟩

end Number

end Reckon
