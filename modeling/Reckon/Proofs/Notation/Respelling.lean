/-
The notations of one repeating number. A cycle may be written once or twice or begin a digit later, and zeros may
stand in front: the digits go on in the same way, so the reader stores the same number, that of the only rational
which these digits approach. A cycle of nines adds a unit to the digits in front of it, and a cycle of zeros adds
nothing to them.
-/
import Reckon.Proofs.Expansion.Denotation
import Reckon.Proofs.Notation.Recurring
import Reckon.Proofs.Real.Stored

namespace Reckon.Notation

open Reckon.Digits Reckon.Expansion Reckon.Real

/-- The notation ±`whole`.`lead`(`cycle`). -/
def repeating (sign : Option Bool) (whole lead cycle : List Char) : String :=
  String.ofList (signChars sign ++ whole ++ '.' :: lead ++ '(' :: cycle ++ [')'])

/-- The notation ±`whole`.`lead`. -/
def terminating (sign : Option Bool) (whole lead : List Char) : String :=
  String.ofList (signChars sign ++ whole ++ '.' :: lead)

/-- The text is read as the decimal, unless that is out of range. -/
structure IsReadAsDecimal (text : String) (d : Decimal) : Prop where
  stored : d.inRange = true → readReal text = .ok (.big d)
  refused : d.inRange = false → ∃ e, readReal text = .error e

section

variable {whole lead cycle : List Char}

/-! ## Reading -/

theorem readReal_repeating (hwhole : IsDigits whole) (hne : whole ≠ []) (hlead : IsDigits lead) (hcycle : IsDigits cycle)
    (hcne : cycle ≠ []) (sign : Option Bool) :
    readReal (repeating sign whole lead cycle) = ofRat (value (sign == some true) (toNat whole) lead cycle) := by
  have hwf : Literal.WellFormed ⟨sign, whole, some ⟨lead, some cycle⟩, none, false⟩ := by
    refine ⟨hwhole, ?_, nofun, .inl hne⟩
    rintro _ ⟨⟩
    refine ⟨hlead, ?_⟩
    rintro _ ⟨⟩
    exact ⟨hcycle, hcne⟩
  have htext : repeating sign whole lead cycle =
      String.ofList (Literal.text ⟨sign, whole, some ⟨lead, some cycle⟩, none, false⟩) := by
    simp [repeating, Literal.text, Literal.unmarked, Literal.body, Fraction.text]
  have hparts := realOfParts_cycle (String.ofList (Literal.unmarked ⟨sign, whole, some ⟨lead, some cycle⟩, none, false⟩))
    (sign == some true) whole lead cycle (e := 0) (Nat.zero_le _)
  rw [zpow_zero, mul_one] at hparts
  rw [htext, readReal_text hwf]
  exact hparts

theorem readReal_terminating (hwhole : IsDigits whole) (hne : whole ≠ []) (hlead : IsDigits lead) (sign : Option Bool) :
    IsReadAsDecimal (terminating sign whole lead) ⟨sign == some true, toNat (whole ++ lead), -(lead.length : ℤ)⟩ := by
  have hwf : Literal.WellFormed ⟨sign, whole, some ⟨lead, none⟩, none, false⟩ := by
    refine ⟨hwhole, ?_, nofun, .inl hne⟩
    rintro _ ⟨⟩
    exact ⟨hlead, nofun⟩
  have htext : terminating sign whole lead =
      String.ofList (Literal.text ⟨sign, whole, some ⟨lead, none⟩, none, false⟩) := by
    simp [terminating, Literal.text, Literal.unmarked, Literal.body, Fraction.text]
  have hread : readReal (terminating sign whole lead) =
      ofStored false ⟨sign == some true, toNat (whole ++ lead), -(lead.length : ℤ)⟩ := by
    rw [htext, readReal_text hwf, ← zero_sub]
    exact realOfParts_none _ _ _ _ _ _
  exact ⟨fun hr => hread.trans (ofStored_of_inRange _ hr), fun hr => ⟨_, hread.trans (ofStored_of_not_inRange _ hr)⟩⟩

/-- A notation that denotes a finite decimal is read as one, and as a decimal in range if exponents can count its
digits. -/
theorem exists_isReadAsDecimal (hwhole : IsDigits whole) (hne : whole ≠ []) (hlead : IsDigits lead)
    (hcycle : IsDigits cycle) (hcne : cycle ≠ []) (sign : Option Bool)
    (hunits : ∃ n : ℤ, value (sign == some true) (toNat whole) lead cycle * 10 ^ lead.length = n) :
    ∃ d : Decimal, d.toRat = value (sign == some true) (toNat whole) lead cycle ∧
      IsReadAsDecimal (repeating sign whole lead cycle) d ∧
      (whole.length < 10 ^ 18 → lead.length < 10 ^ 18 → d.inRange = true) := by
  obtain ⟨places, units, h⟩ := exists_isLeastPlaces ⟨_, hunits⟩
  have hread := readReal_repeating hwhole hne hlead hcycle hcne sign
  refine ⟨⟨units < 0, units.natAbs, -places⟩, toRat_of_isLeastPlaces h, ⟨fun hr => ?_, fun hr => ?_⟩, ?_⟩
  · rw [hread, ofRat_of_inRange h hr]
  · rw [hread]
    exact exists_ofRat_eq_error h hr
  · exact inRange_of_isLeastPlaces h (abs_value_le hcne hwhole hlead hcycle _) hunits

theorem inRange_terminating (hwhole : IsDigits whole) (hlead : IsDigits lead) (negative : Bool)
    (hw : whole.length < 10 ^ 18) (hl : lead.length < 10 ^ 18) :
    Decimal.inRange ⟨negative, toNat (whole ++ lead), -(lead.length : ℤ)⟩ = true := by
  refine Decimal.inRange_of_le (a := whole.length) (b := lead.length) ?_ le_rfl (by simp only; omega) hw hl
  have hlt := toNat_lt (hwhole.append hlead)
  rw [List.length_append, pow_add] at hlt
  rw [Decimal.abs_toRat, Decimal.tenPow_neg_natCast, mul_inv_le_iff₀ (by positivity)]
  exact_mod_cast hlt.le

/-! ## Notations of one number -/

/-- All notations of one repeating number are read as the number stored for the rational that their digits approach.
With a cycle of nines that is the decimal of the digits in front of it and a unit of their last place, and with a
cycle of zeros a number equal to the one without it. -/
theorem readReal_respelled {rest : List Char} {c : Char} (hwhole : IsDigits whole) (hne : whole ≠ []) (hlead : IsDigits lead)
    (hcycle : IsDigits (c :: rest)) (sign : Option Bool) (zeros : Nat) :
    (∃ q : ℚ, (∀ x, Denotes (sign == some true) whole lead (c :: rest) x ↔ x = q) ∧
      (∀ text ∈ [repeating sign whole lead (c :: rest), repeating sign whole lead (c :: rest ++ c :: rest),
        repeating sign whole (lead ++ [c]) (rest ++ [c]),
        repeating sign (List.replicate zeros '0' ++ whole) lead (c :: rest)], readReal text = ofRat q) ∧
      (whole.length < 10 ^ 18 → lead.length < 10 ^ 18 → ∃ x, ofRat q = .ok x)) ∧
    (∃ d : Decimal, d.toRat = (if sign == some true then -1 else 1) * ((toNat (whole ++ lead) + 1) / 10 ^ lead.length) ∧
      IsReadAsDecimal (repeating sign whole lead ['9']) d ∧
      (whole.length < 10 ^ 18 → lead.length < 10 ^ 18 → d.inRange = true)) ∧
    ∃ d d' : Decimal, Number.equals (.ofReal (.big d)) (.ofReal (.big d')) = .ok true ∧
      IsReadAsDecimal (repeating sign whole lead ['0']) d ∧ IsReadAsDecimal (terminating sign whole lead) d' ∧
      (whole.length < 10 ^ 18 → lead.length < 10 ^ 18 → d.inRange = true ∧ d'.inRange = true) := by
  have hcne : c :: rest ≠ [] := List.cons_ne_nil _ _
  have hfirst : IsDigits [c] := fun d hd => hcycle d (List.mem_singleton.1 hd ▸ List.mem_cons_self)
  have hrest : IsDigits rest := fun d hd => hcycle d (List.mem_cons_of_mem _ hd)
  have hconstant : ∀ d, d = '0' ∨ d = '9' → IsDigits [d] := by
    rintro d (rfl | rfl) e he <;> rw [List.mem_singleton.1 he] <;> rfl
  refine ⟨⟨value (sign == some true) (toNat whole) lead (c :: rest), fun x => denotes_iff hcne hlead hcycle, ?_, ?_⟩, ?_, ?_⟩
  -- the digits are the same at every place, and equal digits denote equal values
  · have htwice := value_congr (sign == some true) whole hcne (List.append_ne_nil_of_left_ne_nil hcne _) hlead hcycle hlead
      (hcycle.append hcycle) (spelledDigit_append_self lead (c :: rest))
    have hlater := value_congr (sign == some true) whole hcne (List.append_ne_nil_of_right_ne_nil rest (List.cons_ne_nil c []))
      hlead hcycle (hlead.append hfirst) (hrest.append hfirst) (spelledDigit_rotate lead c rest)
    have hzeros : toNat (List.replicate zeros '0' ++ whole) = toNat whole := by
      rw [toNat_append, toNat_replicate_zero, Nat.zero_mul, Nat.zero_add]
    simp only [List.forall_mem_cons, List.not_mem_nil, false_imp_iff, implies_true, and_true]
    refine ⟨?_, ?_, ?_, ?_⟩
    · exact readReal_repeating hwhole hne hlead hcycle hcne sign
    · rw [readReal_repeating hwhole hne hlead (hcycle.append hcycle) (List.append_ne_nil_of_left_ne_nil hcne _), htwice]
    · rw [readReal_repeating hwhole hne (hlead.append hfirst) (hrest.append hfirst)
        (List.append_ne_nil_of_right_ne_nil rest (List.cons_ne_nil c [])), hlater]
    · rw [readReal_repeating ((isDigits_replicate_zero zeros).append hwhole) (List.append_ne_nil_of_right_ne_nil _ hne)
        hlead hcycle hcne, hzeros]
  · exact exists_ofRat_eq_ok (abs_value_le hcne hwhole hlead hcycle _) (exists_units_of_terminates hcne _ _)
  · rw [← value_nine]
    exact exists_isReadAsDecimal hwhole hne hlead (hconstant '9' (.inr rfl)) (List.cons_ne_nil _ _) sign
      (value_mul_pow_of_constant _ _ _ (.inr rfl))
  · obtain ⟨d, hd, hread, hrange⟩ := exists_isReadAsDecimal hwhole hne hlead (hconstant '0' (.inl rfl)) (List.cons_ne_nil _ _)
      sign (value_mul_pow_of_constant _ _ _ (.inl rfl))
    refine ⟨d, _, ?_, hread, readReal_terminating hwhole hne hlead sign,
      fun hw hl => ⟨hrange hw hl, inRange_terminating hwhole hlead _ hw hl⟩⟩
    rw [equals_ofReal_of_exactRat? rfl rfl, hd, value_zero, Decimal.toRat_eq_sign, Decimal.tenPow_neg_natCast,
      div_eq_mul_inv]
    push_cast
    rw [beq_self_eq_true]

end

/-- Minus seven twelfths in four notations. -/
theorem readReal_respelled_seven_twelfths : IsDigits ['0'] ∧ ['0'] ≠ [] ∧ IsDigits ['5', '8'] ∧ IsDigits ['3'] ∧
    readReal "-0.58(3)" = .ok (.recurring ⟨true, 583333, -6⟩) ∧ readReal "-0.58(33)" = .ok (.recurring ⟨true, 583333, -6⟩) ∧
    readReal "-0.583(3)" = .ok (.recurring ⟨true, 583333, -6⟩) ∧ readReal "-000.58(3)" = .ok (.recurring ⟨true, 583333, -6⟩) := by
  have hstored : readReal "-0.58(3)" = .ok (.recurring ⟨true, 583333, -6⟩) := by decide +kernel
  have hwhole : IsDigits ['0'] := isDigits_of_all rfl
  have hlead : IsDigits ['5', '8'] := isDigits_of_all rfl
  have hcycle : IsDigits ['3'] := isDigits_of_all rfl
  obtain ⟨⟨q, -, hread, -⟩, -⟩ := readReal_respelled hwhole (by decide) hlead hcycle (some true) 2
  simp only [List.forall_mem_cons] at hread
  obtain ⟨h1, h2, h3, h4, -⟩ := hread
  have hq : ofRat q = .ok (.recurring ⟨true, 583333, -6⟩) := h1.symm.trans hstored
  exact ⟨hwhole, by decide, hlead, hcycle, hstored, h2.trans hq, h3.trans hq, h4.trans hq⟩

end Reckon.Notation
