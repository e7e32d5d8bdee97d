/-
Long division finds the minimal expansion. The lead is as long as the denominator says, the block
that `cycleFrom` closes is the shortest cycle, and a division whose lead and cycle do not fit its
budget returns the digits it paid for. The minimal expansion itself is stated on the rational, and
the rational is its value.
-/
import Reckon.Proofs.Expansion.Remainder

namespace Reckon.Expansion

open Reckon.Digits

/-! ## The cycle of a quotient -/

section

variable {num den : Nat}

theorem exists_cycle (hd : 0 < den) : ∃ c, 0 < c ∧ den ∣ 10 ^ leadLength den * (10 ^ c - 1) := by
  -- two of the infinitely many powers of ten leave the same remainder
  obtain ⟨i, j, hne, h⟩ := Finite.exists_ne_map_eq_of_infinite
    fun i : Nat => (⟨remainderAt 1 den i, remainderAt_lt hd i⟩ : Fin den)
  have hback : ∀ i j, i < j → remainderAt 1 den i = remainderAt 1 den j →
      ∃ c, 0 < c ∧ den ∣ 10 ^ leadLength den * (10 ^ c - 1) := by
    intro i j hij h
    have := (@remainderAt_back_iff 1 den hd i (j - i)).1 (by rw [Nat.add_sub_cancel' hij.le, h])
    rw [Nat.gcd_one_left, Nat.div_one] at this
    have hc : 0 < j - i := by omega
    exact ⟨j - i, hc, (leadLength_le_of_dvd hd (coprime_nines hc) this).2⟩
  rcases Nat.lt_or_gt_of_ne hne with hij | hij
  · exact hback i j hij (congrArg Fin.val h)
  · exact hback j i hij (congrArg Fin.val h).symm

/-- The lead of a quotient is known from its denominator, and some cycle is the shortest. -/
theorem exists_isShortest (hd : 0 < den) (num : Nat) :
    ∃ c, IsShortest (digitOf num den) (leadLength (den / num.gcd den)) c := by
  have hm : 0 < den / num.gcd den :=
    Nat.div_pos (Nat.le_of_dvd hd (Nat.gcd_dvd_right num den)) (Nat.gcd_pos_of_pos_right num hd)
  have hex := exists_cycle hm
  refine ⟨Nat.find hex, (Nat.find_spec hex).1, ?_, fun p c hc hrep => ?_⟩
  · rw [repeatsFrom_iff hd, remainderAt_back_iff hd]
    exact (Nat.find_spec hex).2
  · rw [repeatsFrom_iff hd, remainderAt_back_iff hd] at hrep
    obtain ⟨h1, h2⟩ := leadLength_le_of_dvd hm (coprime_nines hc) hrep
    exact ⟨h1, Nat.find_min' hex ⟨hc, h2⟩⟩

theorem lead_eq_leadLength (hd : 0 < den) {p c : Nat} (h : IsShortest (digitOf num den) p c) :
    leadLength (den / num.gcd den) = p := by
  obtain ⟨c', h'⟩ := exists_isShortest hd num
  exact (h'.unique h).1

/-! ## The loops -/

theorem digitsFrom_eq (hd : 0 < den) (count i : Nat) (acc : List Char) :
    digitsFrom den count (remainderAt num den i) acc =
      ((digitsAt num den i count).reverse ++ acc, remainderAt num den (i + count)) := by
  induction count generalizing i acc with
  | zero => rfl
  | succ count ih =>
    rw [digitsFrom, ← digitOf_eq hd, ← remainderAt_succ, ih, digitsAt_succ, List.reverse_cons,
      List.append_assoc, List.singleton_append, Nat.add_assoc, Nat.add_comm 1 count]

/-- The block ends where the first remainder comes back, after a shortest cycle; the budget may run
out before. -/
theorem cycleFrom_eq (hd : 0 < den) {p c : Nat} (h : IsShortest (digitOf num den) p c) (budget : Nat)
    {k : Nat} (hk : k < c) (acc : List Char) :
    cycleFrom den (remainderAt num den p) budget (remainderAt num den (p + k)) acc =
      if c ≤ k + budget then ((digitsAt num den (p + k) (c - k)).reverse ++ acc, true)
      else ((digitsAt num den (p + k) budget).reverse ++ acc, false) := by
  induction budget generalizing k acc with
  | zero => rw [if_neg (by omega)]; rfl
  | succ budget ih =>
    simp only [cycleFrom]
    rw [← digitOf_eq hd, ← remainderAt_succ, Nat.add_assoc]
    split
    · -- a remainder that comes back ends a cycle
      rename_i hback
      have hc := (h.least p (k + 1) (by omega) ((repeatsFrom_iff hd p (k + 1)).2 hback)).2
      rw [if_pos (by omega), show c - k = 0 + 1 by omega, digitsAt_succ, digitsAt_zero]
      rfl
    · rename_i hback
      -- the cycle cannot end here, since its remainder would be back
      have hlt : k + 1 < c := by
        rcases Nat.lt_or_ge (k + 1) c with hlt | hge
        · exact hlt
        · rw [show k + 1 = c by omega] at hback
          exact absurd ((repeatsFrom_iff hd p c).1 h.repeats) hback
      rw [ih hlt]
      by_cases hb : c ≤ k + 1 + budget
      · rw [if_pos hb, if_pos (by omega), show c - k = (c - (k + 1)) + 1 by omega, digitsAt_succ,
          List.reverse_cons, List.append_assoc, List.singleton_append, Nat.add_assoc]
      · rw [if_neg hb, if_neg (by omega), digitsAt_succ, List.reverse_cons, List.append_assoc,
          List.singleton_append, Nat.add_assoc]

/-- The division of a quotient that does not terminate: the minimal expansion if it fits the
budget, else the digits up to the budget. -/
theorem ofNat_eq (hd : 0 < den) {p c : Nat} (h : IsShortest (digitOf num den) p c)
    (hrem : ∀ i, remainderAt num den i ≠ 0) (negative : Bool) (budget : Nat) :
    ofNat negative num den budget =
      if p + c ≤ budget then ⟨negative, num / den, digitsAt num den 0 p, digitsAt num den p c, true⟩
      else ⟨negative, num / den, digitsAt num den 0 budget, [], false⟩ := by
  have hstart : num % den = remainderAt num den 0 := by rw [remainderAt, pow_zero, Nat.mul_one]
  have hpos := h.pos
  unfold ofNat
  simp only [lead_eq_leadLength hd h, hstart, digitsFrom_eq hd, Nat.zero_add, List.append_nil, List.reverse_reverse]
  rw [if_neg (hrem _)]
  by_cases hb : budget < p
  · rw [if_pos hb, if_neg (by omega), Nat.min_eq_right (by omega)]
  rw [if_neg hb, Nat.min_eq_left (by omega)]
  have hcycle := cycleFrom_eq hd h (budget - p) hpos []
  rw [Nat.add_zero, Nat.zero_add, Nat.sub_zero, List.append_nil, List.append_nil] at hcycle
  by_cases hc : p + c ≤ budget
  · rw [if_pos (by omega)] at hcycle
    rw [hcycle, if_pos hc]
    simp only [if_true, List.reverse_reverse]
  · rw [if_neg (by omega)] at hcycle
    rw [hcycle, if_neg hc]
    have hjoin := @digitsAt_add num den 0 p (budget - p)
    rw [Nat.add_sub_cancel' (by omega), Nat.zero_add] at hjoin
    simp only [Bool.false_eq_true, if_false, List.reverse_reverse, hjoin]

end

/-! ## The minimal expansion of a rational -/

/-- The digit `i` of a rational after the point. -/
def digitAt (q : ℚ) (i : Nat) : Nat := ⌊|q| * 10 ^ (i + 1)⌋₊ % 10

/-- Finitely many digits are enough. -/
def Terminates (q : ℚ) : Prop := ∃ (k : Nat) (n : ℤ), q * 10 ^ k = n

/-- The digits of a rational that terminates at the least number of places, as a whole number. -/
structure IsLeastPlaces (q : ℚ) (places : Nat) (units : ℤ) : Prop where
  value : q * 10 ^ places = units
  least : ∀ k n, q * 10 ^ k = (n : ℤ) → places ≤ k

/-- The digits of ±`whole`.`lead``cycle``cycle`… are those of `q`, and neither the lead nor the
cycle can be shorter. -/
structure IsExpansion (q : ℚ) (whole : Nat) (lead cycle : List Char) : Prop where
  whole_eq : whole = ⌊|q|⌋₊
  shortest : IsShortest (digitAt q) lead.length cycle.length
  lead_eq : lead = (List.range lead.length).map fun i => digitChar (digitAt q i)
  cycle_eq : cycle = (List.range cycle.length).map fun i => digitChar (digitAt q (lead.length + i))

theorem floor_abs (q : ℚ) : ⌊|q|⌋₊ = q.num.natAbs / q.den := by
  rw [abs_eq_natAbs_div, Nat.floor_div_eq_div]

theorem digitAt_eq (q : ℚ) : digitAt q = digitOf q.num.natAbs q.den := by
  funext i
  rw [digitAt, digitOf, abs_eq_natAbs_div, ← Nat.floor_div_eq_div (K := ℚ), div_mul_eq_mul_div]
  push_cast
  rfl

theorem den_dvd_iff (q : ℚ) (k : Nat) : q.den ∣ 10 ^ k ↔ ∃ n : ℤ, q * 10 ^ k = n := by
  constructor
  · rintro ⟨m, h⟩
    refine ⟨q.num * m, ?_⟩
    have : (10 : ℚ) ^ k = q.den * m := by exact_mod_cast h
    rw [this, ← mul_assoc, Rat.mul_den_eq_num]
    push_cast
    rfl
  · rintro ⟨n, h⟩
    have hden : (q.num : ℚ) * 10 ^ k = n * q.den := by
      rw [← h, mul_right_comm, Rat.mul_den_eq_num]
    have hdvd : (q.den : ℤ) ∣ q.num * 10 ^ k := ⟨n, by rw [mul_comm (q.den : ℤ)]; exact_mod_cast hden⟩
    have := Int.natAbs_dvd_natAbs.2 hdvd
    rw [Int.natAbs_mul, Int.natAbs_natCast] at this
    exact q.reduced.symm.dvd_of_dvd_mul_left this

theorem terminates_iff (q : ℚ) : Terminates q ↔ ∃ k, q.den ∣ 10 ^ k :=
  exists_congr fun k => (den_dvd_iff q k).symm

/-- Finitely many digits are enough exactly if the denominator has no prime factors but two and five. -/
theorem terminates_iff_primes (q : ℚ) : Terminates q ↔ ∀ p : Nat, p.Prime → p ∣ q.den → p = 2 ∨ p = 5 := by
  rw [terminates_iff]
  constructor
  · rintro ⟨k, hk⟩ p hp hdvd
    have hten := hp.dvd_of_dvd_pow (hdvd.trans hk)
    rw [show 10 = 2 * 5 from rfl, hp.dvd_mul, Nat.prime_dvd_prime_iff_eq hp Nat.prime_two,
      Nat.prime_dvd_prime_iff_eq hp Nat.prime_five] at hten
    exact hten
  · intro h
    refine ⟨leadLength q.den, ?_⟩
    rw [← Nat.mul_one (10 ^ leadLength q.den)]
    refine (Nat.factorization_prime_le_iff_dvd q.den_pos.ne' (by positivity)).1 fun p hp => ?_
    rw [factorization_pow_ten_mul (Nat.coprime_one_left 10) _ hp, leadLength_eq q.den_pos]
    by_cases hdvd : p ∣ q.den
    · rw [if_pos (h p hp hdvd)]
      rcases h p hp hdvd with rfl | rfl
      · exact le_max_left _ _
      · exact le_max_right _ _
    · rw [Nat.factorization_eq_zero_of_not_dvd hdvd]
      exact Nat.zero_le _

theorem den_dvd_leadLength {q : ℚ} {k : Nat} (h : q.den ∣ 10 ^ k) :
    leadLength q.den ≤ k ∧ q.den ∣ 10 ^ leadLength q.den := by
  rw [← Nat.mul_one (10 ^ k)] at h
  have := leadLength_le_of_dvd q.den_pos (Nat.coprime_one_left 10) h
  rwa [Nat.mul_one] at this

theorem terminatingPlaces?_eq_none_iff (q : ℚ) : terminatingPlaces? q.den = none ↔ ¬ Terminates q := by
  rw [terminatingPlaces?_eq q.den_pos, terminates_iff]
  constructor
  · rintro h ⟨k, hk⟩
    rw [if_pos (den_dvd_leadLength hk).2] at h
    cases h
  · intro h
    rw [if_neg fun hdvd => h ⟨_, hdvd⟩]

theorem IsLeastPlaces.terminatingPlaces?_eq {q : ℚ} {places : Nat} {units : ℤ} (h : IsLeastPlaces q places units) :
    terminatingPlaces? q.den = some places := by
  have hdvd := (den_dvd_iff q places).2 ⟨units, h.value⟩
  obtain ⟨hle, hlead⟩ := den_dvd_leadLength hdvd
  obtain ⟨n, hn⟩ := (den_dvd_iff q _).1 hlead
  rw [Expansion.terminatingPlaces?_eq q.den_pos, if_pos hlead, le_antisymm hle (h.least _ n hn)]

theorem remainderAt_ne_zero {q : ℚ} (h : ¬ Terminates q) (i : Nat) : remainderAt q.num.natAbs q.den i ≠ 0 := by
  intro h0
  refine h ((terminates_iff q).2 ⟨i, ?_⟩)
  exact q.reduced.symm.dvd_of_dvd_mul_left (Nat.dvd_of_mod_eq_zero h0)

namespace IsExpansion

variable {q : ℚ} {whole : Nat} {lead cycle : List Char}

theorem shortest_digitOf (h : IsExpansion q whole lead cycle) :
    IsShortest (digitOf q.num.natAbs q.den) lead.length cycle.length := digitAt_eq q ▸ h.shortest

theorem lead_eq_digitsAt (h : IsExpansion q whole lead cycle) :
    lead = digitsAt q.num.natAbs q.den 0 lead.length := by
  have := h.lead_eq
  rw [digitAt_eq] at this
  simpa only [digitsAt, Nat.zero_add] using this

theorem cycle_eq_digitsAt (h : IsExpansion q whole lead cycle) :
    cycle = digitsAt q.num.natAbs q.den lead.length cycle.length := by
  have := h.cycle_eq
  rwa [digitAt_eq] at this

theorem length_pos (h : IsExpansion q whole lead cycle) : 0 < cycle.length := h.shortest.pos

theorem lead_isDigit (h : IsExpansion q whole lead cycle) : ∀ c ∈ lead, Text.isAsciiDigit c = true := by
  rw [h.lead_eq_digitsAt]; exact digitsAt_isDigit _ _

theorem cycle_isDigit (h : IsExpansion q whole lead cycle) : ∀ c ∈ cycle, Text.isAsciiDigit c = true := by
  rw [h.cycle_eq_digitsAt]; exact digitsAt_isDigit _ _

/-- Every number of cycles after the lead is a stretch of the digits. -/
theorem append_cycles (h : IsExpansion q whole lead cycle) (k : Nat) :
    lead ++ (List.replicate k cycle).flatten =
      digitsAt q.num.natAbs q.den 0 (lead.length + k * cycle.length) := by
  induction k with
  | zero => simpa using h.lead_eq_digitsAt
  | succ k ih =>
    have hlast : digitsAt q.num.natAbs q.den (lead.length + k * cycle.length) cycle.length = cycle := by
      conv_rhs => rw [h.cycle_eq_digitsAt]
      refine digitsAt_congr fun t _ => ?_
      rw [Nat.add_right_comm]
      exact h.shortest_digitOf.repeats.add_mul k (by omega)
    have hjoin := @digitsAt_add q.num.natAbs q.den 0 (lead.length + k * cycle.length) cycle.length
    rw [Nat.zero_add, hlast] at hjoin
    rw [List.replicate_succ', List.flatten_append, List.flatten_singleton, ← List.append_assoc, ih, Nat.succ_mul,
      ← Nat.add_assoc, hjoin]

/-- The division of a rational with a cycle. -/
theorem ofNat_eq (h : IsExpansion q whole lead cycle) (hq : ¬ Terminates q) (negative : Bool) (budget : Nat) :
    Expansion.ofNat negative q.num.natAbs q.den budget =
      if lead.length + cycle.length ≤ budget then ⟨negative, whole, lead, cycle, true⟩
      else ⟨negative, whole, digitsAt q.num.natAbs q.den 0 budget, [], false⟩ := by
  rw [Expansion.ofNat_eq q.den_pos h.shortest_digitOf (remainderAt_ne_zero hq), ← h.lead_eq_digitsAt,
    ← h.cycle_eq_digitsAt, h.whole_eq, floor_abs]

end IsExpansion

/-- Every rational has a minimal expansion. -/
theorem exists_isExpansion (q : ℚ) : ∃ whole lead cycle, IsExpansion q whole lead cycle := by
  obtain ⟨c, h⟩ := exists_isShortest q.den_pos q.num.natAbs
  generalize leadLength _ = p at h
  refine ⟨⌊|q|⌋₊, digitsAt q.num.natAbs q.den 0 p, digitsAt q.num.natAbs q.den p c, rfl, ?_, ?_, ?_⟩
  · rw [length_digitsAt, length_digitsAt, digitAt_eq]; exact h
  · rw [length_digitsAt, digitAt_eq]; simp only [digitsAt, Nat.zero_add]
  · rw [length_digitsAt, length_digitsAt, digitAt_eq]; rfl

/-- A rational that terminates has a least number of places. -/
theorem exists_isLeastPlaces {q : ℚ} (h : Terminates q) : ∃ places units, IsLeastPlaces q places units := by
  classical
  obtain ⟨units, hunits⟩ := Nat.find_spec h
  exact ⟨Nat.find h, units, hunits, fun k n hn => Nat.find_min' h ⟨n, hn⟩⟩

/-- A completed division shows the minimal expansion. -/
theorem isExpansion_of_ofNat {q : ℚ} (hq : ¬ Terminates q) {negative : Bool} {whole budget : Nat}
    {lead cycle : List Char}
    (h : Expansion.ofNat negative q.num.natAbs q.den budget = ⟨negative, whole, lead, cycle, true⟩) :
    IsExpansion q whole lead cycle := by
  obtain ⟨whole', lead', cycle', h'⟩ := exists_isExpansion q
  rw [h'.ofNat_eq hq] at h
  split at h
  · obtain ⟨-, rfl, rfl, rfl, -⟩ := Expansion.mk.inj h
    exact h'
  · exact absurd (Expansion.mk.inj h).2.2.2.2 Bool.false_ne_true

/-! ## Values -/

/-- The value of a lead and a cycle: the digits over powers of ten and a block of nines. -/
theorem value_eq (negative : Bool) (whole : Nat) (lead : List Char) {cycle : List Char} (hc : cycle ≠ []) :
    value negative whole lead cycle = (if negative then -1 else 1) *
      ((((whole * 10 ^ lead.length + toNat lead) * (10 ^ cycle.length - 1) + toNat cycle : Nat) : ℚ) /
        ((10 ^ lead.length * (10 ^ cycle.length - 1) : Nat) : ℚ)) := by
  have hlen : cycle.length ≠ 0 := fun h => hc (List.length_eq_zero_iff.1 h)
  unfold value rational
  rw [if_neg hlen]
  simp only [Rat.mkRat_eq_div]
  have hnum : ((whole : ℤ) * ((10 ^ lead.length * (10 ^ cycle.length - 1) : Nat) : ℤ) +
      (toNat lead : ℤ) * ((10 ^ cycle.length - 1 : Nat) : ℤ) + (toNat cycle : ℤ)) =
      (((whole * 10 ^ lead.length + toNat lead) * (10 ^ cycle.length - 1) + toNat cycle : Nat) : ℤ) := by
    push_cast
    ring
  rw [hnum]
  cases negative <;> simp

theorem nines_pos {c : Nat} (hc : 0 < c) : 0 < 10 ^ c - 1 := by
  have := Nat.one_lt_pow hc.ne' (show 1 < 10 by decide)
  omega

theorem pow_mul_nines_pos (p : Nat) {c : Nat} (hc : 0 < c) : 0 < 10 ^ p * (10 ^ c - 1) :=
  Nat.mul_pos (by positivity) (nines_pos hc)

/-- A rational that a lead and a cycle spell repeats from that lead on. -/
theorem repeatsFrom_of_value {q : ℚ} {negative : Bool} {whole : Nat} {lead cycle : List Char} (hc : cycle ≠ [])
    (h : value negative whole lead cycle = q) :
    RepeatsFrom (digitOf q.num.natAbs q.den) lead.length cycle.length := by
  have hpos := pow_mul_nines_pos lead.length (List.length_pos_iff.2 hc)
  rw [repeatsFrom_iff q.den_pos, remainderAt_back_iff q.den_pos, q.reduced.gcd_eq_one, Nat.div_one]
  have habs := congrArg abs h
  rw [value_eq _ _ _ hc, abs_mul, abs_eq_natAbs_div q, abs_div, Nat.abs_cast, Nat.abs_cast,
    show |(if negative then -1 else 1 : ℚ)| = 1 by cases negative <;> simp, one_mul,
    div_eq_div_iff (by exact_mod_cast hpos.ne') (by exact_mod_cast q.den_pos.ne')] at habs
  have hnat := Nat.cast_injective (R := ℚ) (by exact_mod_cast habs)
  exact q.reduced.symm.dvd_of_dvd_mul_left ⟨_, hnat.symm.trans (Nat.mul_comm _ _)⟩

/-- The minimal expansion spells its rational. -/
theorem IsExpansion.value_eq {q : ℚ} {whole : Nat} {lead cycle : List Char} (h : IsExpansion q whole lead cycle) :
    value (q < 0) whole lead cycle = q := by
  have hc : cycle ≠ [] := List.length_pos_iff.1 h.length_pos
  have hpos := pow_mul_nines_pos lead.length h.length_pos
  have hd := q.den_pos
  -- the digits up to the lead and up to the end of the cycle leave the same remainder
  have hback := (repeatsFrom_iff hd _ _).1 h.shortest_digitOf.repeats
  have h1 := Nat.div_add_mod (q.num.natAbs * 10 ^ lead.length) q.den
  have h2 := Nat.div_add_mod (q.num.natAbs * 10 ^ (lead.length + cycle.length)) q.den
  rw [remainderAt, remainderAt] at hback
  rw [quotient_eq, hback, ← h.cycle_eq_digitsAt] at h2
  have hwhole := @quotient_eq q.num.natAbs q.den 0 lead.length
  rw [pow_zero, Nat.mul_one, Nat.zero_add, ← h.lead_eq_digitsAt, ← floor_abs, ← h.whole_eq] at hwhole
  rw [hwhole] at h1 h2
  have hten : 1 ≤ 10 ^ cycle.length := Nat.one_le_pow _ _ (by decide)
  have hkey : ((whole * 10 ^ lead.length + toNat lead) * (10 ^ cycle.length - 1) + toNat cycle) * q.den =
      q.num.natAbs * (10 ^ lead.length * (10 ^ cycle.length - 1)) := by
    rw [pow_add] at h2
    zify [hten]
    zify at h1 h2
    linear_combination h2 - h1
  have hquot : ((((whole * 10 ^ lead.length + toNat lead) * (10 ^ cycle.length - 1) + toNat cycle : Nat) : ℚ) /
      ((10 ^ lead.length * (10 ^ cycle.length - 1) : Nat) : ℚ)) = |q| := by
    rw [abs_eq_natAbs_div, div_eq_div_iff (by exact_mod_cast hpos.ne') (by exact_mod_cast hd.ne')]
    exact_mod_cast hkey
  rw [Expansion.value_eq _ _ _ hc, hquot]
  rcases lt_or_ge q 0 with hneg | hneg
  · rw [decide_eq_true hneg, if_pos rfl, abs_of_neg hneg]; ring
  · rw [decide_eq_false (not_lt.2 hneg), if_neg Bool.false_ne_true, abs_of_nonneg hneg, one_mul]

end Reckon.Expansion
