/-
Long division gives the canonical expansion of a quotient: of all ways to spell its digits as a lead
and a cycle the one in which neither can be shorter. The digits of a number are those whose leading stretches
approach it from below and that do not end in nines. A cycle is needed exactly if finitely many of
them are not enough, and a division that runs out of its budget has cut the quotient there.
-/
import Reckon.Proofs.Expansion.Division
import Reckon.Proofs.Expansion.Reader

namespace Reckon.Expansion

open Reckon.Digits

/-! ## Divisions that come out even -/

section

variable {num den p c : Nat}

theorem remainderAt_of_zero {k : Nat} (h : remainderAt num den k = 0) {i : Nat} (hi : k ≤ i) : remainderAt num den i = 0 := by
  rw [← Nat.add_sub_cancel' hi, remainderAt_add, h, Nat.zero_mul, Nat.zero_mod]

theorem digitOf_of_remainderAt (hd : 0 < den) {k : Nat} (h : remainderAt num den k = 0) {i : Nat} (hi : k ≤ i) :
    digitOf num den i = 0 := by
  rw [digitOf_eq hd, remainderAt_of_zero h hi, Nat.zero_mul, Nat.zero_div]

/-- The division comes out even no later than its digits begin to repeat. -/
theorem lead_le_of_remainderAt (hd : 0 < den) (h : IsShortest (digitOf num den) p c) {k : Nat}
    (hk : remainderAt num den k = 0) : p ≤ k ∧ c ≤ 1 :=
  h.least k 1 Nat.one_pos ((repeatsFrom_iff hd k 1).2 (by rw [hk, remainderAt_of_zero hk (Nat.le_succ k)]))

theorem remainderAt_lead (hd : 0 < den) (h : IsShortest (digitOf num den) p c) {k : Nat}
    (hk : remainderAt num den k = 0) : remainderAt num den p = 0 := by
  obtain ⟨hle, hone⟩ := lead_le_of_remainderAt hd h hk
  obtain rfl : c = 1 := le_antisymm hone h.pos
  have hback := (repeatsFrom_iff hd p (k - p)).1 fun i hi => by
    have := h.repeats.add_mul (k - p) hi
    rwa [Nat.mul_one] at this
  rw [← hback, Nat.add_sub_cancel' hle, hk]

/-- A division that comes out even: its digits if they fit the budget, else as many as it allows. -/
theorem ofNat_of_even (hd : 0 < den) (h : IsShortest (digitOf num den) p c) (hrem : remainderAt num den p = 0)
    (negative : Bool) (budget : Nat) : ofNat negative num den budget =
      if p ≤ budget then ⟨negative, num / den, digitsAt num den 0 p, [], true⟩
      else ⟨negative, num / den, digitsAt num den 0 budget, [], false⟩ := by
  have hstart : num % den = remainderAt num den 0 := by rw [remainderAt, pow_zero, Nat.mul_one]
  unfold ofNat
  simp only [lead_eq_leadLength hd h, hstart, digitsFrom_eq hd, Nat.zero_add, List.append_nil, List.reverse_reverse]
  by_cases hb : p ≤ budget
  · rw [Nat.min_eq_left hb, if_pos hrem, if_pos hb]
  · have hne : remainderAt num den budget ≠ 0 := fun h0 => hb (lead_le_of_remainderAt hd h h0).1
    rw [Nat.min_eq_right (by omega), if_neg hne, if_pos (by omega), if_neg hb]

end

/-! ## The digits of a number -/

/-- The number that an integer part and the first `k` digits after the point spell. -/
def leading (whole : Nat) (f : Nat → Nat) : Nat → Nat
  | 0 => whole
  | k + 1 => leading whole f k * 10 + f k

/-- The integer part and the digits after the point of an absolute value: what leads is at most a unit
of its last place below it, and the digits do not end in nines. -/
structure IsDigitSequence (x : ℚ) (whole : Nat) (f : Nat → Nat) : Prop where
  lt_ten : ∀ i, f i < 10
  leading_le : ∀ k, (leading whole f k : ℚ) ≤ |x| * 10 ^ k
  le_leading_succ : ∀ k, |x| * 10 ^ k ≤ leading whole f k + 1
  not_nines : ∀ k, ∃ i, k ≤ i ∧ f i ≠ 9

theorem IsDigitSequence.lt_leading_succ {x : ℚ} {whole : Nat} {f : Nat → Nat} (h : IsDigitSequence x whole f) (k : Nat) :
    |x| * 10 ^ k < leading whole f k + 1 := by
  refine lt_of_le_of_ne (h.le_leading_succ k) fun heq => ?_
  -- a whole unit left at one place leaves a nine and a whole unit at the next
  have hnext : ∀ m, |x| * 10 ^ (k + m) = leading whole f (k + m) + 1 := by
    intro m
    induction m with
    | zero => exact heq
    | succ m ih =>
      have hle := h.le_leading_succ (k + (m + 1))
      have hdigit : (f (k + m) : ℚ) ≤ 9 := by exact_mod_cast Nat.le_of_lt_succ (h.lt_ten (k + m))
      rw [← Nat.add_assoc, pow_succ, ← mul_assoc, ih, leading] at hle ⊢
      push_cast at hle ⊢
      linarith
  obtain ⟨i, hi, hnine⟩ := h.not_nines k
  obtain ⟨m, rfl⟩ := Nat.exists_eq_add_of_le hi
  have hstep := hnext (m + 1)
  rw [← Nat.add_assoc, pow_succ, ← mul_assoc, hnext m, leading] at hstep
  refine hnine ?_
  have : (f (k + m) : ℚ) = 9 := by
    push_cast at hstep
    linarith
  exact_mod_cast this

theorem IsDigitSequence.leading_eq {x : ℚ} {whole : Nat} {f : Nat → Nat} (h : IsDigitSequence x whole f) (k : Nat) :
    leading whole f k = ⌊|x| * 10 ^ k⌋₊ :=
  ((Nat.floor_eq_iff (by positivity)).2 ⟨h.leading_le k, h.lt_leading_succ k⟩).symm

theorem leading_digitAt (q : ℚ) (k : Nat) : leading ⌊|q|⌋₊ (digitAt q) k = ⌊|q| * 10 ^ k⌋₊ := by
  induction k with
  | zero => rw [leading, pow_zero, mul_one]
  | succ k ih =>
    have hten : ⌊|q| * 10 ^ k⌋₊ = ⌊|q| * 10 ^ (k + 1)⌋₊ / 10 := by
      rw [← Nat.floor_div_ofNat, pow_succ, ← mul_assoc, mul_div_assoc, div_self (by norm_num), mul_one]
    rw [leading, ih, hten, digitAt, Nat.div_add_mod']

theorem digitAt_lt (q : ℚ) (i : Nat) : digitAt q i < 10 := Nat.mod_lt _ (by decide)

theorem digitAt_not_nines (q : ℚ) (k : Nat) : ∃ i, k ≤ i ∧ digitAt q i ≠ 9 := by
  by_contra! hnines
  rw [digitAt_eq] at hnines
  have hd := q.den_pos
  have hrepeats : RepeatsFrom (digitOf q.num.natAbs q.den) k 1 := fun i hi => by
    rw [hnines i hi, hnines (i + 1) (by omega)]
  -- the remainder that comes back after a nine would be the denominator
  have hstep := @remainderAt_mul_pow q.num.natAbs q.den k 1
  have hlt := @remainderAt_lt q.num.natAbs q.den hd k
  rw [(repeatsFrom_iff hd k 1).1 hrepeats, digitsAt_succ, digitsAt_zero, hnines k le_rfl] at hstep
  rw [show toNat [digitChar 9] = 9 from rfl] at hstep
  omega

/-- The digits of a rational are cut off by rounding down, and there are no others. -/
theorem isDigitSequence_iff {q : ℚ} {whole : Nat} {f : Nat → Nat} : IsDigitSequence q whole f ↔ whole = ⌊|q|⌋₊ ∧ f = digitAt q := by
  constructor
  · intro h
    refine ⟨?_, funext fun i => ?_⟩
    · have := h.leading_eq 0
      rwa [pow_zero, mul_one] at this
    · have := h.lt_ten i
      rw [digitAt, ← h.leading_eq, leading]
      omega
  · rintro ⟨rfl, rfl⟩
    refine ⟨digitAt_lt q, fun k => ?_, fun k => ?_, digitAt_not_nines q⟩
    · rw [leading_digitAt]
      exact Nat.floor_le (by positivity)
    · rw [leading_digitAt]
      exact (Nat.lt_floor_add_one _).le

/-! ## Spellings -/

/-- The digit `i` of a lead that a cycle follows over and over; where there is no cycle zeros follow. -/
def spelledDigit (lead cycle : List Char) (i : Nat) : Char :=
  lead.getD i (cycle.getD ((i - lead.length) % cycle.length) '0')

/-- ±`whole`.`lead``cycle``cycle`… has the digits of `q`. -/
def IsSpelling (q : ℚ) (whole : Nat) (lead cycle : List Char) : Prop :=
  ∃ f, IsDigitSequence q whole f ∧ ∀ i, spelledDigit lead cycle i = digitChar (f i)

/-- The spelling of `q` in which neither the lead nor the cycle can be shorter. -/
structure IsCanonical (q : ℚ) (whole : Nat) (lead cycle : List Char) : Prop where
  spells : IsSpelling q whole lead cycle
  shortest : ∀ whole' lead' cycle', IsSpelling q whole' lead' cycle' →
    lead.length ≤ lead'.length ∧ cycle.length ≤ cycle'.length

section

variable {q : ℚ} {whole : Nat} {lead cycle : List Char}

theorem isSpelling_iff : IsSpelling q whole lead cycle ↔
    whole = ⌊|q|⌋₊ ∧ ∀ i, spelledDigit lead cycle i = digitChar (digitAt q i) := by
  constructor
  · rintro ⟨f, hf, hspelled⟩
    obtain ⟨rfl, rfl⟩ := isDigitSequence_iff.1 hf
    exact ⟨rfl, hspelled⟩
  · rintro ⟨rfl, hspelled⟩
    exact ⟨_, isDigitSequence_iff.2 ⟨rfl, rfl⟩, hspelled⟩

theorem spelledDigit_of_lt (cycle : List Char) {i : Nat} (h : i < lead.length) : spelledDigit lead cycle i = lead[i] := by
  rw [spelledDigit, List.getD_eq_getElem _ _ h]

theorem spelledDigit_of_le {i : Nat} (h : lead.length ≤ i) :
    spelledDigit lead cycle i = cycle.getD ((i - lead.length) % cycle.length) '0' := by
  rw [spelledDigit, List.getD_eq_default _ _ h]

/-- The digits repeat behind the lead, with zeros where there is no cycle. -/
theorem IsSpelling.repeatsFrom (h : IsSpelling q whole lead cycle) :
    RepeatsFrom (digitAt q) lead.length (max 1 cycle.length) := by
  intro i hi
  have hdigit := (isSpelling_iff.1 h).2
  refine (digitChar_inj (digitAt_lt q _) (digitAt_lt q _)).1 ?_
  rw [← hdigit, ← hdigit, spelledDigit_of_le hi, spelledDigit_of_le (by omega)]
  cases cycle with
  | nil => rfl
  | cons c cs =>
    rw [Nat.max_eq_right (by simp), Nat.sub_add_comm hi, Nat.add_mod_right]

/-- Without a cycle finitely many digits are enough. -/
theorem IsSpelling.terminates (h : IsSpelling q whole lead []) : Terminates q := by
  have hzero : ∀ i, lead.length ≤ i → digitOf q.num.natAbs q.den i = 0 := by
    intro i hi
    rw [← digitAt_eq, ← digitChar_inj (digitAt_lt q i) (by decide), ← (isSpelling_iff.1 h).2, spelledDigit_of_le hi]
    rfl
  have hstep := @remainderAt_mul_pow q.num.natAbs q.den lead.length 1
  have hback := (repeatsFrom_iff q.den_pos lead.length 1).1 fun i hi => by rw [hzero i hi, hzero (i + 1) (by omega)]
  rw [hback, digitsAt_succ, digitsAt_zero, hzero _ le_rfl, show toNat [digitChar 0] = 0 from rfl] at hstep
  refine (terminates_iff q).2 ⟨lead.length, q.reduced.symm.dvd_of_dvd_mul_left (Nat.dvd_of_mod_eq_zero ?_)⟩
  show remainderAt q.num.natAbs q.den lead.length = 0
  omega

/-- The `k` digits of `q` from the place `i` on. -/
def fractionFrom (q : ℚ) (i k : Nat) : List Char := (List.range k).map fun j => digitChar (digitAt q (i + j))

@[simp] theorem length_fractionFrom (i k : Nat) : (fractionFrom q i k).length = k := by simp [fractionFrom]

theorem getElem_fractionFrom {i k j : Nat} (h : j < (fractionFrom q i k).length) :
    (fractionFrom q i k)[j] = digitChar (digitAt q (i + j)) := by simp [fractionFrom]

theorem fractionFrom_isDigit (i k : Nat) : ∀ c ∈ fractionFrom q i k, Text.isAsciiDigit c = true := by
  intro c hc
  obtain ⟨j, -, rfl⟩ := List.mem_map.1 hc
  exact isAsciiDigit_digitChar (digitAt_lt q _)

theorem fractionFrom_eq (i k : Nat) : fractionFrom q i k = digitsAt q.num.natAbs q.den i k := by
  rw [fractionFrom, digitAt_eq, digitsAt]

/-- The digits up to a place are the rational in units of it, rounded down. -/
theorem floor_mul_pow (q : ℚ) (k : Nat) : ⌊|q| * 10 ^ k⌋₊ = ⌊|q|⌋₊ * 10 ^ k + toNat (fractionFrom q 0 k) := by
  have h := @quotient_eq q.num.natAbs q.den 0 k
  rw [pow_zero, Nat.mul_one, Nat.zero_add, ← floor_abs, ← fractionFrom_eq] at h
  rw [← h, abs_eq_natAbs_div, div_mul_eq_mul_div, ← Nat.floor_div_eq_div (K := ℚ)]
  push_cast
  rfl

/-! ## The canonical spelling -/

theorem remainderAt_of_terminates {p c : Nat} (hq : Terminates q) (h : IsShortest (digitAt q) p c) :
    remainderAt q.num.natAbs q.den p = 0 := by
  obtain ⟨k, hk⟩ := (terminates_iff q).1 hq
  exact remainderAt_lead q.den_pos (digitAt_eq q ▸ h) (Nat.mod_eq_zero_of_dvd (hk.mul_left _))

theorem isSpelling_of_terminates {p c : Nat} (hq : Terminates q) (h : IsShortest (digitAt q) p c) :
    IsSpelling q ⌊|q|⌋₊ (fractionFrom q 0 p) [] := by
  refine isSpelling_iff.2 ⟨rfl, fun i => ?_⟩
  rcases Nat.lt_or_ge i (fractionFrom q 0 p).length with hi | hi
  · rw [spelledDigit_of_lt _ hi, getElem_fractionFrom, Nat.zero_add]
  · rw [length_fractionFrom] at hi
    rw [spelledDigit_of_le (by rwa [length_fractionFrom]), digitAt_eq,
      digitOf_of_remainderAt q.den_pos (remainderAt_of_terminates hq h) hi]
    rfl

theorem isSpelling_of_isShortest {p c : Nat} (h : IsShortest (digitAt q) p c) :
    IsSpelling q ⌊|q|⌋₊ (fractionFrom q 0 p) (fractionFrom q p c) := by
  refine isSpelling_iff.2 ⟨rfl, fun i => ?_⟩
  rcases Nat.lt_or_ge i (fractionFrom q 0 p).length with hi | hi
  · rw [spelledDigit_of_lt _ hi, getElem_fractionFrom, Nat.zero_add]
  · have hlt : (i - p) % c < c := Nat.mod_lt _ h.pos
    rw [spelledDigit_of_le hi]
    rw [length_fractionFrom] at hi ⊢
    rw [length_fractionFrom, List.getD_eq_getElem _ _ (by rwa [length_fractionFrom]), getElem_fractionFrom]
    have hmod : p + (i - p) % c ≡ i [MOD c] := by
      have := (Nat.mod_modEq (i - p) c).add_left p
      rwa [Nat.add_sub_cancel' hi] at this
    rw [h.repeats.of_modEq (by omega) hi hmod]

/-- Where finitely many digits are enough, the canonical spelling has no cycle. -/
theorem isCanonical_of_terminates {p c : Nat} (hq : Terminates q) (h : IsShortest (digitAt q) p c) :
    IsCanonical q ⌊|q|⌋₊ (fractionFrom q 0 p) [] where
  spells := isSpelling_of_terminates hq h
  shortest := fun _ lead' cycle' hspells => by
    rw [length_fractionFrom]
    exact ⟨(h.least _ _ (by omega) hspells.repeatsFrom).1, Nat.zero_le _⟩

theorem isCanonical_of_not_terminates {p c : Nat} (hq : ¬ Terminates q) (h : IsShortest (digitAt q) p c) :
    IsCanonical q ⌊|q|⌋₊ (fractionFrom q 0 p) (fractionFrom q p c) where
  spells := isSpelling_of_isShortest h
  shortest := fun _ lead' cycle' hspells => by
    rw [length_fractionFrom, length_fractionFrom]
    have hleast := h.least _ _ (by omega) hspells.repeatsFrom
    have hcycle : cycle' ≠ [] := fun hnil => hq (IsSpelling.terminates (hnil ▸ hspells))
    have := List.length_pos_iff.2 hcycle
    omega

theorem IsCanonical.unique {whole' : Nat} {lead' cycle' : List Char} (h : IsCanonical q whole lead cycle)
    (h' : IsCanonical q whole' lead' cycle') : whole = whole' ∧ lead = lead' ∧ cycle = cycle' := by
  obtain ⟨hwhole, hdigit⟩ := isSpelling_iff.1 h.spells
  obtain ⟨hwhole', hdigit'⟩ := isSpelling_iff.1 h'.spells
  have hle := h.shortest _ _ _ h'.spells
  have hle' := h'.shortest _ _ _ h.spells
  have hlead : lead.length = lead'.length := by omega
  have hcycle : cycle.length = cycle'.length := by omega
  refine ⟨hwhole.trans hwhole'.symm, List.ext_getElem hlead fun i hi hi' => ?_,
    List.ext_getElem hcycle fun i hi hi' => ?_⟩
  · rw [← spelledDigit_of_lt cycle hi, ← spelledDigit_of_lt cycle' hi', hdigit, hdigit']
  · have hplace := (hdigit (lead.length + i)).trans (hdigit' (lead.length + i)).symm
    rwa [spelledDigit_of_le (Nat.le_add_right _ _), spelledDigit_of_le (by omega), ← hlead, Nat.add_sub_cancel_left,
      Nat.mod_eq_of_lt hi, Nat.mod_eq_of_lt hi', List.getD_eq_getElem _ _ hi, List.getD_eq_getElem _ _ hi'] at hplace

theorem value_nil (negative : Bool) (whole : Nat) (lead : List Char) : value negative whole lead [] =
    (if negative then -1 else 1) * (((whole * 10 ^ lead.length + toNat lead : Nat) : ℚ) / 10 ^ lead.length) := by
  unfold value rational
  rw [List.length_nil, if_pos rfl, Rat.mkRat_eq_div]
  cases negative <;> simp

/-- The first digits of a rational, read as a number. -/
theorem value_fractionFrom (negative : Bool) (k : Nat) : value negative ⌊|q|⌋₊ (fractionFrom q 0 k) [] =
    (if negative then -1 else 1) * ((⌊|q| * 10 ^ k⌋₊ : ℚ) / 10 ^ k) := by
  rw [value_nil, length_fractionFrom, ← floor_mul_pow]

/-- A rational that terminates is whole in units of the last place of its lead. -/
theorem floor_of_terminates {p c : Nat} (hq : Terminates q) (h : IsShortest (digitAt q) p c) :
    (⌊|q| * 10 ^ p⌋₊ : ℚ) = |q| * 10 ^ p := by
  obtain ⟨n, hn⟩ := Nat.dvd_of_mod_eq_zero (remainderAt_of_terminates hq h)
  have hunits : |q| * 10 ^ p = n := by
    rw [abs_eq_natAbs_div, div_mul_eq_mul_div, div_eq_iff (by exact_mod_cast q.den_pos.ne')]
    exact_mod_cast hn.trans (Nat.mul_comm _ _)
  rw [hunits, Nat.floor_natCast]

/-- The canonical spelling cuts the digits where they begin to repeat. -/
theorem IsCanonical.eq_fractionFrom (h : IsCanonical q whole lead cycle) : ∃ p c, IsShortest (digitAt q) p c ∧
    whole = ⌊|q|⌋₊ ∧ lead = fractionFrom q 0 p ∧
      (Terminates q ∧ cycle = [] ∨ ¬ Terminates q ∧ cycle = fractionFrom q p c) := by
  obtain ⟨c, hshort⟩ := exists_isShortest q.den_pos q.num.natAbs
  rw [← digitAt_eq] at hshort
  refine ⟨_, c, hshort, ?_⟩
  by_cases hq : Terminates q
  · obtain ⟨rfl, rfl, rfl⟩ := h.unique (isCanonical_of_terminates hq hshort)
    exact ⟨rfl, rfl, .inl ⟨hq, rfl⟩⟩
  · obtain ⟨rfl, rfl, rfl⟩ := h.unique (isCanonical_of_not_terminates hq hshort)
    exact ⟨rfl, rfl, .inr ⟨hq, rfl⟩⟩

theorem IsCanonical.isDigits (h : IsCanonical q whole lead cycle) : Notation.IsDigits lead ∧ Notation.IsDigits cycle := by
  obtain ⟨p, c, -, -, rfl, ⟨-, rfl⟩ | ⟨-, rfl⟩⟩ := h.eq_fractionFrom
  · exact ⟨fractionFrom_isDigit _ _, fun _ hc => absurd hc List.not_mem_nil⟩
  · exact ⟨fractionFrom_isDigit _ _, fractionFrom_isDigit _ _⟩

/-- Where a cycle is needed the canonical spelling is the minimal expansion. -/
theorem IsCanonical.isExpansion (h : IsCanonical q whole lead cycle) (hq : ¬ Terminates q) : IsExpansion q whole lead cycle := by
  obtain ⟨p, c, hshort, rfl, rfl, ⟨hterm, -⟩ | ⟨-, rfl⟩⟩ := h.eq_fractionFrom
  · exact absurd hterm hq
  · exact ⟨rfl, by simpa using hshort, by simp [fractionFrom], by simp [fractionFrom]⟩

/-- The canonical spelling denotes its rational. -/
theorem IsCanonical.value_eq (h : IsCanonical q whole lead cycle) : value (q < 0) whole lead cycle = q := by
  by_cases hq : Terminates q
  · obtain ⟨p, c, hshort, rfl, rfl, ⟨-, rfl⟩ | ⟨hnever, -⟩⟩ := h.eq_fractionFrom
    · rw [value_fractionFrom, floor_of_terminates hq hshort, mul_div_cancel_right₀ _ (by positivity)]
      simpa using Decimal.sign_mul_abs q
    · exact absurd hq hnever
  · exact (h.isExpansion hq).value_eq

/-- Every rational has one canonical spelling. -/
theorem exists_isCanonical (q : ℚ) : ∃ lead cycle, IsCanonical q ⌊|q|⌋₊ lead cycle ∧ (cycle = [] ↔ Terminates q) := by
  obtain ⟨c, hshort⟩ := exists_isShortest q.den_pos q.num.natAbs
  rw [← digitAt_eq] at hshort
  by_cases hq : Terminates q
  · exact ⟨_, _, isCanonical_of_terminates hq hshort, iff_of_true rfl hq⟩
  · refine ⟨_, _, isCanonical_of_not_terminates hq hshort, iff_of_false (fun hnil => ?_) hq⟩
    have := congrArg List.length hnil
    rw [length_fractionFrom, List.length_nil] at this
    exact hshort.pos.ne' this

end

/-! ## Division -/

theorem floor_intDiv (num den : ℤ) : ⌊|(num / den : ℚ)|⌋₊ = num.natAbs / den.natAbs := by
  rw [abs_intDiv, Nat.floor_div_eq_div]

theorem digitAt_intDiv (num den : ℤ) : digitAt (num / den) = digitOf num.natAbs den.natAbs := by
  funext i
  rw [digitAt, digitOf, abs_intDiv, ← Nat.floor_div_eq_div (K := ℚ), div_mul_eq_mul_div]
  push_cast
  rfl

theorem negative_intDiv {num den : ℤ} (hden : den ≠ 0) :
    ((num < 0) != (den < 0) && num != 0) = decide ((num / den : ℚ) < 0) := by
  rw [Bool.eq_iff_iff, decide_eq_true_iff, div_neg_iff]
  have hcast : ∀ n : ℤ, ((n : ℚ) < 0 ↔ n < 0) ∧ (0 < (n : ℚ) ↔ 0 < n) := fun n =>
    ⟨Int.cast_lt_zero, Int.cast_pos⟩
  rw [(hcast num).1, (hcast num).2, (hcast den).1, (hcast den).2]
  simp only [Bool.and_eq_true, bne_iff_ne, ne_eq, decide_eq_decide]
  omega

/-- No remainder is left after a digit if the quotient is whole in units of its place. -/
theorem remainderAt_eq_zero_iff {num den : Nat} (hd : 0 < den) (k : Nat) :
    remainderAt num den k = 0 ↔ ∃ m : Nat, (num : ℚ) / den * 10 ^ k = m := by
  have hne : (den : ℚ) ≠ 0 := by exact_mod_cast hd.ne'
  rw [remainderAt, ← Nat.dvd_iff_mod_eq_zero]
  refine exists_congr fun m => ?_
  rw [div_mul_eq_mul_div, div_eq_iff hne, mul_comm (m : ℚ)]
  exact_mod_cast Iff.rfl

theorem remainderAt_intDiv {num den : ℤ} (hden : den ≠ 0) (k : Nat) : remainderAt num.natAbs den.natAbs k = 0 ↔
    remainderAt (num / den : ℚ).num.natAbs (num / den : ℚ).den k = 0 := by
  rw [remainderAt_eq_zero_iff (Int.natAbs_pos.2 hden), remainderAt_eq_zero_iff (Rat.den_pos _), ← abs_intDiv, ← abs_eq_natAbs_div]

/-- Long division spends its budget on the canonical spelling and returns what it paid for. -/
theorem IsCanonical.divide_eq {num den : ℤ} {whole : Nat} {lead cycle : List Char} (hden : den ≠ 0)
    (h : IsCanonical (num / den) whole lead cycle) (budget : ℤ) : divide num den budget = .ok
      (if lead.length + cycle.length ≤ budget.toNat then ⟨(num / den : ℚ) < 0, whole, lead, cycle, true⟩
      else ⟨(num / den : ℚ) < 0, whole, fractionFrom (num / den) 0 budget.toNat, [], false⟩) := by
  have hd := Int.natAbs_pos.2 hden
  have hdigits : ∀ i k, fractionFrom (num / den) i k = digitsAt num.natAbs den.natAbs i k := fun i k => by
    rw [fractionFrom, digitAt_intDiv, digitsAt]
  obtain ⟨p, c, hshort', rfl, rfl, hcycle⟩ := h.eq_fractionFrom
  have hshort : IsShortest (digitOf num.natAbs den.natAbs) p c := digitAt_intDiv num den ▸ hshort'
  rw [divide, if_neg hden, negative_intDiv hden]
  congr 1
  obtain ⟨hq, rfl⟩ | ⟨hq, rfl⟩ := hcycle
  · rw [ofNat_of_even hd hshort ((remainderAt_intDiv hden p).2 (remainderAt_of_terminates hq hshort')), floor_intDiv,
      hdigits, hdigits, length_digitsAt, List.length_nil, Nat.add_zero]
  · rw [ofNat_eq hd hshort fun i hi => remainderAt_ne_zero hq i ((remainderAt_intDiv hden i).1 hi), floor_intDiv,
      hdigits, hdigits, hdigits, length_digitsAt, length_digitsAt]

/-- The division of integers computes the canonical spelling of their quotient. It is complete exactly
if lead and cycle together fit the budget, and then the expansion and its texts denote the quotient;
the texts are read through decimals, which have to hold the numbers that they spell. A division that
is not complete has cut the quotient after as many digits as the budget allows. -/
theorem divide_canonical {num den budget : ℤ} (hden : den ≠ 0) (hbudget : 0 ≤ budget) : ∃ lead cycle e,
    (∀ w l c, IsCanonical (num / den) w l c ↔ w = ⌊|(num / den : ℚ)|⌋₊ ∧ l = lead ∧ c = cycle) ∧
    (cycle = [] ↔ Terminates (num / den)) ∧
    divide num den budget = .ok e ∧
    (e.complete = true ↔ (lead.length + cycle.length : ℤ) ≤ budget) ∧
    (e.complete = true → e.negative = decide ((num / den : ℚ) < 0) ∧ e.whole = ⌊|(num / den : ℚ)|⌋₊ ∧
      e.lead = lead ∧ e.cycle = cycle ∧ value e.negative e.whole e.lead e.cycle = num / den ∧
      ofTexts e.negative e.whole (String.ofList e.lead) (String.ofList e.cycle) =
        if Holds e.lead ∧ Holds e.cycle then .ok (num / den) else .error .decimalRange) ∧
    (e.complete = false → e.cycle = [] ∧ (e.lead.length : ℤ) = budget ∧ e.whole = ⌊|(num / den : ℚ)|⌋₊ ∧
      value false e.whole e.lead [] = Decimal.cut budget |(num / den : ℚ)|) := by
  obtain ⟨lead, cycle, hcanonical, hterminates⟩ := exists_isCanonical (num / den)
  have heq := hcanonical.divide_eq hden budget
  have hunique : ∀ w l c, IsCanonical (num / den) w l c ↔ w = ⌊|(num / den : ℚ)|⌋₊ ∧ l = lead ∧ c = cycle := by
    intro w l c
    constructor
    · exact fun h => h.unique hcanonical
    · rintro ⟨rfl, rfl, rfl⟩
      exact hcanonical
  refine ⟨lead, cycle, _, hunique, hterminates, heq, ?_⟩
  -- the division is complete if lead and cycle fit the budget, else it ends within them
  by_cases hfits : lead.length + cycle.length ≤ budget.toNat
  · have hvalue := hcanonical.value_eq
    obtain ⟨hlead, hcycle⟩ := hcanonical.isDigits
    rw [if_pos hfits]
    refine ⟨iff_of_true rfl (by omega), fun _ => ⟨rfl, rfl, rfl, rfl, hvalue, ?_⟩, fun hc => absurd hc.symm Bool.false_ne_true⟩
    rw [ofTexts_ofList _ _ hlead hcycle, hvalue]
  · rw [if_neg hfits]
    refine ⟨iff_of_false Bool.false_ne_true (by omega), fun hc => absurd hc Bool.false_ne_true, fun _ => ⟨rfl, ?_, rfl, ?_⟩⟩
    · rw [length_fractionFrom]
      omega
    · have hplaces : budget = (budget.toNat : ℤ) := by omega
      rw [value_fractionFrom, Decimal.cut, if_neg (not_lt.2 (abs_nonneg _)), abs_abs]
      conv_rhs => rw [hplaces, Decimal.tenPow_natCast, Decimal.tenPow_neg_natCast]
      simp [div_eq_mul_inv]

/-- Minus seven twelfths fit a budget of three digits: two before the cycle and one in it. -/
theorem divide_canonical_seven_twelfths : (12 : ℤ) ≠ 0 ∧ (0 : ℤ) ≤ 3 ∧ IsCanonical ((-7 : ℤ) / (12 : ℤ)) 0 ['5', '8'] ['3'] ∧
    divide (-7) 12 3 = .ok ⟨true, 0, ['5', '8'], ['3'], true⟩ := by
  have heval : divide (-7) 12 3 = .ok ⟨true, 0, ['5', '8'], ['3'], true⟩ := by decide +kernel
  obtain ⟨lead, cycle, e, hcanonical, -, he, -, hfull, -⟩ := @divide_canonical (-7) 12 3 (by decide) (by decide)
  obtain rfl := Except.ok.inj (heval.symm.trans he)
  obtain ⟨-, hwhole, rfl, rfl, -⟩ := hfull rfl
  exact ⟨by decide, by decide, (hcanonical _ _ _).2 ⟨hwhole, rfl, rfl⟩, heval⟩

end Reckon.Expansion
