/-
The rational that a notation with a cycle denotes. It is the only one that the digits approach when they are
written on without end: cut after any place they are at most a unit of this place below it. The notations whose
digits go on in the same way therefore denote the same rational, whether the cycle is written twice or begins a
digit later.
-/
import Reckon.Proofs.Expansion.Word

namespace Reckon.Expansion

open Reckon.Digits

/-- ±`whole`.`lead``cycle``cycle`… denotes `q`: the digits up to any place are at most a unit of this place below
its absolute value. -/
structure Denotes (negative : Bool) (whole lead cycle : List Char) (q : ℚ) : Prop where
  sign : q = (if negative then -1 else 1) * |q|
  leading_le : ∀ k, (leading (toNat whole) (fun i => digitValue (spelledDigit lead cycle i)) k : ℚ) ≤ |q| * 10 ^ k
  le_leading_succ : ∀ k, |q| * 10 ^ k ≤ leading (toNat whole) (fun i => digitValue (spelledDigit lead cycle i)) k + 1

/-! ## The rational of a notation -/

/-- A number that is at most a unit of every place above another one is not above it. -/
theorem le_of_forall_unit {x y : ℚ} (h : ∀ k : Nat, x * 10 ^ k ≤ y * 10 ^ k + 1) : x ≤ y := by
  by_contra! hlt
  obtain ⟨k, hk⟩ := pow_unbounded_of_one_lt (x - y)⁻¹ (show (1 : ℚ) < 10 by norm_num)
  have hgap := (inv_lt_iff_one_lt_mul₀' (sub_pos.2 hlt)).1 hk
  have := h k
  linarith

section

variable {negative : Bool} {whole lead cycle : List Char} {p q : ℚ}

theorem Denotes.unique (hp : Denotes negative whole lead cycle p) (hq : Denotes negative whole lead cycle q) : p = q := by
  have hle : ∀ {x y : ℚ}, Denotes negative whole lead cycle x → Denotes negative whole lead cycle y → |x| ≤ |y| :=
    fun hx hy => le_of_forall_unit fun k => (hx.le_leading_succ k).trans (by linarith [hy.leading_le k])
  rw [hp.sign, hq.sign, le_antisymm (hle hp hq) (hle hq hp)]

theorem value_sign (negative : Bool) (whole : Nat) (lead : List Char) (hcycle : cycle ≠ []) :
    value negative whole lead cycle = (if negative then -1 else 1) * |value negative whole lead cycle| := by
  rw [value_eq _ _ _ hcycle, Decimal.abs_sign_mul, abs_of_nonneg (by positivity)]

/-- A notation with a cycle denotes one rational, the one that its digits form over a block of nines. -/
theorem denotes_iff (hcycle : cycle ≠ []) (hlead : Notation.IsDigits lead) (hdigits : Notation.IsDigits cycle) :
    Denotes negative whole lead cycle q ↔ q = value negative (toNat whole) lead cycle := by
  have hbounds := leading_value hcycle (isDigit_spelledDigit hlead hdigits) negative (toNat whole)
  have hvalue : Denotes negative whole lead cycle (value negative (toNat whole) lead cycle) :=
    ⟨value_sign _ _ _ hcycle, fun k => (hbounds k).1, fun k => (hbounds k).2⟩
  constructor
  · exact fun h => h.unique hvalue
  · rintro rfl
    exact hvalue

theorem value_neg (whole : Nat) (lead cycle : List Char) : value true whole lead cycle = -value false whole lead cycle := by
  unfold value rational
  rw [if_pos rfl, if_neg Bool.false_ne_true]

end

/-! ## Notations of one rational -/

section

variable {lead cycle : List Char}

/-- Writing the cycle twice keeps the digits. -/
theorem spelledDigit_append_self (lead cycle : List Char) :
    spelledDigit lead (cycle ++ cycle) = spelledDigit lead cycle := by
  funext i
  rcases Nat.lt_or_ge i lead.length with hi | hi
  · rw [spelledDigit_of_lt _ hi, spelledDigit_of_lt _ hi]
  rcases Nat.eq_zero_or_pos cycle.length with hnil | hpos
  · rw [List.length_eq_zero_iff.1 hnil, List.append_nil]
  rw [spelledDigit_of_le hi, spelledDigit_of_le hi, List.length_append,
    ← Nat.mod_mod_of_dvd (i - lead.length) (Nat.dvd_add_self_right.2 (dvd_refl cycle.length))]
  have hlt := Nat.mod_lt (i - lead.length) (Nat.add_pos_left hpos cycle.length)
  generalize (i - lead.length) % (cycle.length + cycle.length) = j at hlt ⊢
  rcases Nat.lt_or_ge j cycle.length with hj | hj
  · rw [Nat.mod_eq_of_lt hj, List.getD_append _ _ _ _ hj]
  · rw [Nat.mod_eq_sub_mod hj, Nat.mod_eq_of_lt (by omega), List.getD_append_right _ _ _ _ hj]

/-- Beginning the cycle a digit later keeps the digits. -/
theorem spelledDigit_rotate (lead : List Char) (c : Char) (rest : List Char) :
    spelledDigit (lead ++ [c]) (rest ++ [c]) = spelledDigit lead (c :: rest) := by
  funext i
  have hlen : (lead ++ [c]).length = lead.length + 1 := List.length_append
  rcases Nat.lt_trichotomy i lead.length with hi | rfl | hi
  · rw [spelledDigit_of_lt _ hi, spelledDigit_of_lt _ (by omega), List.getElem_append_left hi]
  · rw [spelledDigit_of_lt _ (by omega), spelledDigit_of_le le_rfl, List.getElem_concat_length rfl, Nat.sub_self,
      Nat.zero_mod]
    rfl
  · obtain ⟨m, rfl⟩ := Nat.exists_eq_add_of_le hi
    rw [spelledDigit_of_le (by omega), spelledDigit_of_le (by omega), hlen, List.length_append, List.length_singleton,
      List.length_cons, show lead.length.succ + m - (lead.length + 1) = m by omega,
      show lead.length.succ + m - lead.length = m + 1 by omega, ← Nat.mod_add_mod]
    have hlt := Nat.mod_lt m (Nat.succ_pos rest.length)
    generalize m % (rest.length + 1) = j at hlt ⊢
    rcases Nat.lt_or_ge j rest.length with hj | hj
    · rw [List.getD_append _ _ _ _ hj, Nat.mod_eq_of_lt (by omega), List.getD_cons_succ]
    · -- the digit that moved ends the new cycle and begins the old one again
      obtain rfl : j = rest.length := by omega
      rw [List.getD_append_right _ _ _ _ le_rfl, Nat.sub_self, Nat.mod_self]
      rfl

/-- Notations whose digits go on in the same way denote the same rational. -/
theorem value_congr (negative : Bool) (whole : List Char) {lead' cycle' : List Char} (hcycle : cycle ≠ []) (hcycle' : cycle' ≠ [])
    (hlead : Notation.IsDigits lead) (hdigits : Notation.IsDigits cycle) (hlead' : Notation.IsDigits lead')
    (hdigits' : Notation.IsDigits cycle') (h : spelledDigit lead' cycle' = spelledDigit lead cycle) :
    value negative (toNat whole) lead' cycle' = value negative (toNat whole) lead cycle := by
  have hvalue := (@denotes_iff negative whole _ _ _ hcycle hlead hdigits).2 rfl
  refine ((denotes_iff hcycle' hlead' hdigits').1 ⟨hvalue.sign, fun k => ?_, fun k => ?_⟩).symm
  · rw [h]
    exact hvalue.leading_le k
  · rw [h]
    exact hvalue.le_leading_succ k

/-- A cycle of nines adds a unit to the last place of what leads. -/
theorem value_nine (negative : Bool) (whole lead : List Char) : value negative (toNat whole) lead ['9'] =
    (if negative then -1 else 1) * ((toNat (whole ++ lead) + 1) / 10 ^ lead.length) := by
  rw [value_eq _ _ _ (List.cons_ne_nil _ _), toNat_append, show toNat ['9'] = 9 from rfl, List.length_singleton]
  push_cast
  field_simp

/-- A cycle of zeros adds nothing. -/
theorem value_zero (negative : Bool) (whole lead : List Char) : value negative (toNat whole) lead ['0'] =
    (if negative then -1 else 1) * (toNat (whole ++ lead) / 10 ^ lead.length) := by
  rw [value_eq _ _ _ (List.cons_ne_nil _ _), toNat_append, show toNat ['0'] = 0 from rfl, List.length_singleton]
  push_cast
  field_simp
  norm_num

end

/-! ## Sizes -/

section

variable {whole lead cycle : List Char}

/-- A notation denotes no more than the power of ten that its digits before the point stay below. -/
theorem abs_value_le (hcycle : cycle ≠ []) (hwhole : Notation.IsDigits whole) (hlead : Notation.IsDigits lead)
    (hdigits : Notation.IsDigits cycle) (negative : Bool) : |value negative (toNat whole) lead cycle| ≤ 10 ^ whole.length := by
  have hvalue := (@denotes_iff negative whole _ _ _ hcycle hlead hdigits).2 rfl
  have hle := hvalue.le_leading_succ 0
  rw [pow_zero, mul_one, leading] at hle
  exact hle.trans (by exact_mod_cast toNat_lt hwhole)

/-- A notation that denotes a finite decimal is whole in units of the last place of what leads. -/
theorem exists_units_of_terminates (hcycle : cycle ≠ []) (negative : Bool) (whole : Nat)
    (hq : Terminates (value negative whole lead cycle)) :
    ∃ n : ℤ, value negative whole lead cycle * 10 ^ lead.length = n := by
  have hnines := nines_pos (List.length_pos_iff.2 hcycle)
  have hcoprime := coprime_nines (List.length_pos_iff.2 hcycle)
  obtain ⟨k, n, hn⟩ := hq
  rw [value_eq _ _ _ hcycle] at hn ⊢
  generalize 10 ^ cycle.length - 1 = nines at hnines hcoprime hn ⊢
  generalize (whole * 10 ^ lead.length + toNat lead) * nines + toNat cycle = digits at hn ⊢
  have hblock : (nines : ℚ) ≠ 0 := by exact_mod_cast hnines.ne'
  -- the block of nines shares no factor with the power of ten that makes the number whole
  have hwhole : digits * 10 ^ k = 10 ^ lead.length * nines * n.natAbs := by
    have habs := congrArg abs hn
    rw [abs_mul, Decimal.abs_sign_mul, abs_of_nonneg (by positivity), abs_of_nonneg (by positivity), ← Int.cast_abs,
      Int.abs_eq_natAbs, Int.cast_natCast] at habs
    push_cast at habs
    field_simp at habs
    exact_mod_cast habs
  have hdvd : nines ∣ digits * 10 ^ k := hwhole ▸ (Nat.dvd_mul_left nines _).mul_right _
  obtain ⟨m, rfl⟩ := (hcoprime.pow_right k).dvd_of_dvd_mul_right hdvd
  refine ⟨(if negative then -1 else 1) * m, ?_⟩
  push_cast
  field_simp

end

end Reckon.Expansion
