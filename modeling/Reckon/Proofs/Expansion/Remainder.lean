/-
The digits of a quotient and the remainders of its long division. A remainder decides all digits
after it and is decided by them, so the digits repeat exactly where a remainder comes back; when
that is, the denominator tells: its twos and fives give the lead, its other factors the cycle.
-/
import Reckon.Expansion.Division
import Reckon.Proofs.Digits
import Reckon.Proofs.Expansion.Period

namespace Reckon.Expansion

open Reckon.Digits

/-! ## Digits and remainders -/

/-- The remainder of the long division of `num` by `den` before the digit `i` after the point. -/
def remainderAt (num den i : Nat) : Nat := num * 10 ^ i % den

/-- The digit `i` of `num / den` after the point. -/
def digitOf (num den i : Nat) : Nat := num * 10 ^ (i + 1) / den % 10

/-- The `k` digits from `i` on, as they are written. -/
def digitsAt (num den i k : Nat) : List Char := (List.range k).map fun j => digitChar (digitOf num den (i + j))

section

variable {num den : Nat}

theorem digitOf_lt (i : Nat) : digitOf num den i < 10 := Nat.mod_lt _ (by decide)

theorem remainderAt_lt (hd : 0 < den) (i : Nat) : remainderAt num den i < den := Nat.mod_lt _ hd

theorem remainderAt_add (i k : Nat) : remainderAt num den (i + k) = remainderAt num den i * 10 ^ k % den := by
  unfold remainderAt
  rw [pow_add, ← Nat.mul_assoc, Nat.mod_mul_mod]

theorem remainderAt_succ (i : Nat) : remainderAt num den (i + 1) = remainderAt num den i * 10 % den := by
  rw [remainderAt_add, pow_one]

theorem digitOf_eq (hd : 0 < den) (i : Nat) : digitOf num den i = remainderAt num den i * 10 / den := by
  unfold digitOf
  have hlt : remainderAt num den i * 10 / den < 10 := by
    rw [Nat.div_lt_iff_lt_mul hd, Nat.mul_comm]
    exact Nat.mul_lt_mul_of_pos_left (remainderAt_lt hd i) (by decide)
  have hsplit : num * 10 ^ (i + 1) = remainderAt num den i * 10 + num * 10 ^ i / den * 10 * den := by
    unfold remainderAt
    have := Nat.mod_add_div (num * 10 ^ i) den
    rw [pow_succ, ← Nat.mul_assoc]
    conv_lhs => rw [← this]
    ring
  rw [hsplit, Nat.add_mul_div_right _ _ hd, Nat.add_mul_mod_self_right, Nat.mod_eq_of_lt hlt]

@[simp] theorem length_digitsAt (i k : Nat) : (digitsAt num den i k).length = k := by simp [digitsAt]

theorem digitsAt_isDigit (i k : Nat) : ∀ c ∈ digitsAt num den i k, Text.isAsciiDigit c = true := by
  intro c hc
  obtain ⟨j, -, rfl⟩ := List.mem_map.1 hc
  exact isAsciiDigit_digitChar (digitOf_lt _)

theorem digitsAt_zero (i : Nat) : digitsAt num den i 0 = [] := rfl

theorem digitsAt_succ (i k : Nat) :
    digitsAt num den i (k + 1) = digitChar (digitOf num den i) :: digitsAt num den (i + 1) k := by
  unfold digitsAt
  rw [List.range_succ_eq_map, List.map_cons, List.map_map, Nat.add_zero]
  congr 1
  refine List.map_congr_left fun j _ => ?_
  simp only [Function.comp_apply, Nat.succ_eq_add_one]
  rw [Nat.add_assoc, Nat.add_comm 1 j]

theorem digitsAt_add (i k l : Nat) :
    digitsAt num den i (k + l) = digitsAt num den i k ++ digitsAt num den (i + k) l := by
  induction k generalizing i with
  | zero => simp [digitsAt_zero]
  | succ k ih =>
    rw [show k + 1 + l = (k + l) + 1 by omega, digitsAt_succ, digitsAt_succ, ih, Nat.add_assoc, Nat.add_comm 1 k,
      List.cons_append]

theorem digitsAt_congr {i j k : Nat} (h : ∀ t, t < k → digitOf num den (i + t) = digitOf num den (j + t)) :
    digitsAt num den i k = digitsAt num den j k :=
  List.map_congr_left fun t ht => by rw [h t (List.mem_range.1 ht)]

/-- The digits up to a place are the quotient there. -/
theorem quotient_eq (i k : Nat) :
    num * 10 ^ (i + k) / den = num * 10 ^ i / den * 10 ^ k + toNat (digitsAt num den i k) := by
  induction k generalizing i with
  | zero => simp [digitsAt_zero]
  | succ k ih =>
    have hstep : num * 10 ^ (i + 1) / den = num * 10 ^ i / den * 10 + digitOf num den i := by
      unfold digitOf
      have := Nat.div_add_mod (num * 10 ^ (i + 1) / den) 10
      have h10 : num * 10 ^ (i + 1) / den / 10 = num * 10 ^ i / den := by
        rw [Nat.div_div_eq_div_mul, pow_succ, ← Nat.mul_assoc, Nat.mul_div_mul_right _ _ (by decide)]
      omega
    rw [show i + (k + 1) = (i + 1) + k by omega, ih, hstep, digitsAt_succ, toNat_cons, length_digitsAt,
      digitValue_digitChar (digitOf_lt i), pow_succ]
    ring

/-- A remainder over a power of ten is made of the digits after it. -/
theorem remainderAt_mul_pow (i k : Nat) :
    remainderAt num den i * 10 ^ k = den * toNat (digitsAt num den i k) + remainderAt num den (i + k) := by
  have h1 := Nat.div_add_mod (num * 10 ^ i) den
  have h2 := Nat.div_add_mod (num * 10 ^ (i + k)) den
  rw [quotient_eq] at h2
  unfold remainderAt
  have h3 : num * 10 ^ (i + k) = num * 10 ^ i * 10 ^ k := by rw [pow_add, Nat.mul_assoc]
  generalize num * 10 ^ i = x at *
  generalize x / den = a at *
  generalize x % den = r at *
  generalize num * 10 ^ (i + k) % den = s at *
  rw [h3] at h2
  have : (den * a + r) * 10 ^ k = x * 10 ^ k := by rw [h1]
  nlinarith

theorem remainderAt_eq_iff (hd : 0 < den) (i j : Nat) :
    remainderAt num den i = remainderAt num den j ↔ ∀ k, digitOf num den (i + k) = digitOf num den (j + k) := by
  constructor
  · intro h k
    rw [digitOf_eq hd, digitOf_eq hd, remainderAt_add, remainderAt_add, h]
  · intro h
    -- equal digits leave less than a denominator between the remainders, at every power of ten
    have hi := @remainderAt_mul_pow num den i den
    have hj := @remainderAt_mul_pow num den j den
    rw [digitsAt_congr fun t _ => h t] at hi
    have hpow : den < 10 ^ den := Nat.lt_pow_self (by decide)
    have hlt1 := @remainderAt_lt num den hd (i + den)
    have hlt2 := @remainderAt_lt num den hd (j + den)
    rcases Nat.lt_trichotomy (remainderAt num den i) (remainderAt num den j) with hc | hc | hc
    · have := Nat.mul_le_mul_right (10 ^ den) (Nat.succ_le_of_lt hc)
      rw [Nat.succ_mul] at this; omega
    · exact hc
    · have := Nat.mul_le_mul_right (10 ^ den) (Nat.succ_le_of_lt hc)
      rw [Nat.succ_mul] at this; omega

/-- Digits repeat from a place on exactly if its remainder comes back. -/
theorem repeatsFrom_iff (hd : 0 < den) (p c : Nat) :
    RepeatsFrom (digitOf num den) p c ↔ remainderAt num den (p + c) = remainderAt num den p := by
  rw [remainderAt_eq_iff hd]
  constructor
  · intro h k
    rw [Nat.add_right_comm]; exact h (p + k) (by omega)
  · intro h i hi
    have := h (i - p)
    rwa [show p + c + (i - p) = i + c by omega, show p + (i - p) = i by omega] at this

/-! ## Denominators -/

/-- A remainder comes back by the denominator in lowest terms alone. -/
theorem remainderAt_back_iff (hd : 0 < den) (p c : Nat) :
    remainderAt num den (p + c) = remainderAt num den p ↔ den / num.gcd den ∣ 10 ^ p * (10 ^ c - 1) := by
  have hg : 0 < num.gcd den := Nat.gcd_pos_of_pos_right num hd
  have hle : num * 10 ^ p ≤ num * 10 ^ (p + c) :=
    Nat.mul_le_mul_left num (Nat.pow_le_pow_right (by decide) (by omega))
  have hsub : num * 10 ^ (p + c) - num * 10 ^ p = num * (10 ^ p * (10 ^ c - 1)) := by
    rw [pow_add, Nat.mul_sub, Nat.mul_one, Nat.mul_sub]
  unfold remainderAt
  rw [eq_comm, ← Nat.ModEq, Nat.modEq_iff_dvd' hle, hsub]
  obtain ⟨g, n, m, hpos, hco, rfl, rfl⟩ := Nat.exists_coprime' hg
  rw [Nat.gcd_mul_right, hco.gcd_eq_one, Nat.one_mul, Nat.mul_div_cancel _ hpos, Nat.mul_right_comm,
    Nat.mul_dvd_mul_iff_right hpos, hco.symm.dvd_mul_left]

theorem factorOut_spec {p n : Nat} (hp : 1 < p) (hn : 0 < n) :
    n = p ^ (factorOut p n).1 * (factorOut p n).2 ∧ ¬ p ∣ (factorOut p n).2 := by
  induction n using Nat.strong_induction_on with
  | _ n ih =>
    unfold factorOut
    split
    · rename_i h
      have hdvd : p ∣ n := Nat.dvd_of_mod_eq_zero h.2.2
      obtain ⟨h1, h2⟩ := ih (n / p) (Nat.div_lt_self hn hp) (Nat.div_pos (Nat.le_of_dvd hn hdvd) (by omega))
      refine ⟨?_, h2⟩
      simp only
      rw [pow_succ, Nat.mul_right_comm, ← h1, Nat.div_mul_cancel hdvd]
    · rename_i h
      exact ⟨by simp, fun hdvd => h ⟨hp, hn, Nat.mod_eq_zero_of_dvd hdvd⟩⟩

/-- Factoring out a prime gives its exponent in the factorization. -/
theorem factorOut_eq {p n : Nat} (hp : p.Prime) (hn : 0 < n) :
    factorOut p n = (n.factorization p, n / p ^ n.factorization p) := by
  obtain ⟨h1, h2⟩ := factorOut_spec hp.one_lt hn
  have hm : (factorOut p n).2 ≠ 0 := fun h => h2 (h ▸ dvd_zero p)
  have hk : n.factorization p = (factorOut p n).1 := by
    conv_lhs => rw [h1]
    rw [Nat.factorization_mul (pow_ne_zero _ hp.ne_zero) hm, hp.factorization_pow, Finsupp.add_apply,
      Finsupp.single_eq_same, Nat.factorization_eq_zero_of_not_dvd h2, Nat.add_zero]
  refine Prod.ext hk.symm ?_
  rw [hk]
  exact (Nat.div_eq_of_eq_mul_right (pow_pos hp.pos _) h1).symm

theorem leadLength_eq {n : Nat} (hn : 0 < n) : leadLength n = max (n.factorization 2) (n.factorization 5) := by
  rw [leadLength, factorOut_eq Nat.prime_two hn, factorOut_eq Nat.prime_five hn]

theorem factorization_pow_ten_mul {r : Nat} (hr : r.Coprime 10) (i : Nat) {p : Nat} (hp : p.Prime) :
    (10 ^ i * r).factorization p = if p = 2 ∨ p = 5 then i else r.factorization p := by
  have hr0 : r ≠ 0 := by rintro rfl; exact absurd hr (by decide)
  have h10 : Nat.factorization 10 = Finsupp.single 2 1 + Finsupp.single 5 1 := by
    rw [show 10 = 2 * 5 from rfl, Nat.factorization_mul (by decide) (by decide), Nat.prime_two.factorization,
      Nat.prime_five.factorization]
  rw [Nat.factorization_mul (by positivity) hr0, Nat.factorization_pow, h10]
  simp only [Finsupp.add_apply, Finsupp.smul_apply, smul_eq_mul]
  split
  · rename_i h
    have hdvd : ¬ p ∣ r := fun hpr => by
      have := Nat.dvd_gcd hpr (show p ∣ 10 by rcases h with rfl | rfl <;> decide)
      rw [hr.gcd_eq_one] at this
      exact hp.one_lt.ne' (Nat.dvd_one.1 this)
    rw [Nat.factorization_eq_zero_of_not_dvd hdvd]
    rcases h with rfl | rfl <;> simp
  · rename_i h
    rw [not_or] at h
    rw [Finsupp.single_eq_of_ne h.1, Finsupp.single_eq_of_ne h.2]
    simp

/-- A divisor of a power of ten, up to a factor without twos and fives, is one at its lead. -/
theorem leadLength_le_of_dvd {n r i : Nat} (hn : 0 < n) (hr : r.Coprime 10) (h : n ∣ 10 ^ i * r) :
    leadLength n ≤ i ∧ n ∣ 10 ^ leadLength n * r := by
  have hr0 : r ≠ 0 := by rintro rfl; exact absurd hr (by decide)
  have hle := (Nat.factorization_prime_le_iff_dvd hn.ne' (by positivity)).2 h
  rw [leadLength_eq hn]
  constructor
  · have h2 := hle 2 Nat.prime_two
    have h5 := hle 5 Nat.prime_five
    rw [factorization_pow_ten_mul hr i Nat.prime_two, if_pos (.inl rfl)] at h2
    rw [factorization_pow_ten_mul hr i Nat.prime_five, if_pos (.inr rfl)] at h5
    exact max_le h2 h5
  · refine (Nat.factorization_prime_le_iff_dvd hn.ne' (by positivity)).1 fun p hp => ?_
    have := hle p hp
    rw [factorization_pow_ten_mul hr _ hp] at this ⊢
    split at this
    · rename_i h25
      rw [if_pos h25]
      rcases h25 with rfl | rfl
      · exact le_max_left _ _
      · exact le_max_right _ _
    · rename_i h25
      rwa [if_neg h25]

theorem coprime_nines {c : Nat} (hc : 0 < c) : (10 ^ c - 1).Coprime 10 := by
  have h1 : 1 ≤ 10 ^ c := Nat.one_le_pow c 10 (by decide)
  have h : (10 ^ c - 1).Coprime (10 ^ c) := by
    have := Nat.coprime_self_add_right (m := 10 ^ c - 1) (n := 1)
    rw [Nat.sub_add_cancel h1] at this
    exact this.2 (Nat.coprime_one_right _)
  exact Nat.Coprime.coprime_dvd_right (dvd_pow_self 10 hc.ne') h

/-- A denominator terminates if it divides a power of ten, and its lead is the least one. -/
theorem terminatingPlaces?_eq {n : Nat} (hn : 0 < n) :
    terminatingPlaces? n = if n ∣ 10 ^ leadLength n then some (leadLength n) else none := by
  have h2 : 0 < n / 2 ^ n.factorization 2 := Nat.ordCompl_pos 2 hn.ne'
  have h52 : (n / 2 ^ n.factorization 2).factorization 5 = n.factorization 5 := by
    rw [Nat.factorization_ordCompl, Finsupp.erase_ne (by decide)]
  have hsplit : n = 2 ^ n.factorization 2 * (5 ^ n.factorization 5 *
      (n / 2 ^ n.factorization 2 / 5 ^ n.factorization 5)) := by
    have := Nat.ordProj_mul_ordCompl_eq_self (n / 2 ^ n.factorization 2) 5
    rw [h52] at this
    rw [this, Nat.ordProj_mul_ordCompl_eq_self]
  unfold terminatingPlaces?
  rw [factorOut_eq Nat.prime_two hn]
  simp only
  rw [factorOut_eq Nat.prime_five h2, h52]
  simp only [leadLength_eq hn]
  refine if_congr ⟨fun h => ?_, fun h => ?_⟩ rfl rfl
  · rw [h, Nat.mul_one] at hsplit
    conv_lhs => rw [hsplit]
    rw [show (10 : Nat) = 2 * 5 from rfl, mul_pow]
    exact Nat.mul_dvd_mul (pow_dvd_pow 2 (le_max_left _ _)) (pow_dvd_pow 5 (le_max_right _ _))
  · -- the cofactor divides a power of ten and has neither two nor five
    have hc2 : ¬ 2 ∣ n / 2 ^ n.factorization 2 / 5 ^ n.factorization 5 := fun hdvd =>
      Nat.not_dvd_ordCompl Nat.prime_two hn.ne' (hdvd.trans (Nat.div_dvd_of_dvd (h52 ▸ Nat.ordProj_dvd _ 5)))
    have hc5 : ¬ 5 ∣ n / 2 ^ n.factorization 2 / 5 ^ n.factorization 5 := by
      have := Nat.not_dvd_ordCompl Nat.prime_five h2.ne'
      rwa [h52] at this
    have hco : (n / 2 ^ n.factorization 2 / 5 ^ n.factorization 5).Coprime 10 :=
      Nat.Coprime.mul_right ((Nat.prime_two.coprime_iff_not_dvd.2 hc2).symm)
        ((Nat.prime_five.coprime_iff_not_dvd.2 hc5).symm)
    refine Nat.Coprime.eq_one_of_dvd (hco.pow_right _) (dvd_trans ?_ h)
    conv_rhs => rw [hsplit]
    rw [← Nat.mul_assoc]
    exact Nat.dvd_mul_left _ _

end

end Reckon.Expansion
