/-
Texts of repeating values. A value that is stored for a rational with a short lead is written as
its minimal expansion, the cycle in brackets; the reader forms the rational of these digits again
and so stores the same decimal. For display the cycle has to show in the first digits, and ten
digits stand for it where it does not.
-/
import Reckon.Proofs.Notation.Numeral
import Reckon.Proofs.Real.Recurring

namespace Reckon.Notation

open Reckon.Digits Reckon.Expansion Reckon.Real

/-- The text ±`whole`.`lead`(`cycle`). -/
def expansionText (negative : Bool) (whole : Nat) (lead cycle : List Char) : String :=
  String.ofList ((if negative then ['-'] else []) ++ Nat.toDigits 10 whole ++ '.' :: lead ++ '(' :: cycle ++ [')'])

/-! ## Reading -/

/-- The literal of an expansion. -/
def expansionLiteral (negative : Bool) (whole : Nat) (lead cycle : List Char) : Literal :=
  ⟨if negative then some true else none, ofNat whole, some ⟨lead, some cycle⟩, none, false⟩

theorem text_expansionLiteral (negative : Bool) (whole : Nat) (lead cycle : List Char) :
    String.ofList (expansionLiteral negative whole lead cycle).text = expansionText negative whole lead cycle := by
  have htext : ∀ ds, Literal.text ⟨if negative then some true else none, ds, some ⟨lead, some cycle⟩, none, false⟩ =
      (if negative then ['-'] else []) ++ ds ++ '.' :: lead ++ '(' :: cycle ++ [')'] := by
    intro ds
    cases negative <;> simp [Literal.text, Literal.unmarked, Literal.body, Fraction.text, signChars]
  rw [expansionLiteral, htext, expansionText, ofNat_eq_toDigits]

/-- A literal is a real number: it does not end with the imaginary unit. -/
theorem Literal.WellFormed.readScalar_text {l : Literal} (h : l.WellFormed) :
    readScalar (String.ofList l.text) = (readReal (String.ofList l.text)).map .real := by
  obtain ⟨c, rest, hbody, -⟩ := h.head_body
  have hne : l.unsigned l.approximate ≠ [] := by
    rw [Literal.unsigned, hbody]
    exact List.cons_ne_nil _ _
  have htext : l.text = signChars l.sign ++ l.unsigned l.approximate := by
    rw [Literal.text, Literal.unmarked, Literal.unsigned, List.append_assoc]
  have hlast : ∀ c ∈ l.text.getLast?, c ≠ 'i' ∧ c ≠ 'I' := by
    intro c hc
    rw [htext, List.getLast?_append_of_ne_nil _ hne] at hc
    exact (h.last_unsigned l.approximate c hc).not_unit
  unfold readScalar
  rw [String.toList_ofList, trim_of_not_blank h.not_blank]
  simp only
  rw [if_neg, if_neg]
  · intro hunit
    rw [Bool.or_eq_true, beq_iff_eq, beq_iff_eq] at hunit
    rcases hunit with hi | hi
    · exact (hlast _ hi).1 rfl
    · exact (hlast _ hi).2 rfl
  · rw [List.isEmpty_iff, htext]
    exact fun hnil => hne (List.append_eq_nil_iff.1 hnil).2

theorem tenTo_eq (e : ℤ) : tenTo e = 10 ^ e := by
  unfold tenTo
  split
  · rename_i he
    obtain ⟨n, rfl⟩ := Int.eq_ofNat_of_zero_le he
    rw [Int.natAbs_natCast, zpow_natCast]
    push_cast
    rfl
  · rename_i he
    obtain ⟨n, rfl⟩ := Int.exists_eq_neg_ofNat (not_le.1 he).le
    rw [Int.natAbs_neg, Int.natAbs_natCast, zpow_neg, zpow_natCast, Rat.mkRat_eq_div]
    push_cast
    rw [one_div]

theorem realOfParts_cycle (s : String) (negative : Bool) (whole fraction cycle : List Char) {e : ℤ}
    (he : e.natAbs ≤ maxCycleExponent) : realOfParts s negative whole fraction (some cycle) e false =
      ofRat (value negative (toNat whole) fraction cycle * 10 ^ e) := by
  unfold realOfParts
  simp only
  rw [if_neg Bool.false_ne_true, if_neg (not_lt.2 he), tenTo_eq]

theorem realOfParts_cycle_of_lt (s : String) (negative : Bool) (whole fraction cycle : List Char) {e : ℤ}
    (he : maxCycleExponent < e.natAbs) :
    realOfParts s negative whole fraction (some cycle) e false = fail (.recurringExponent e) :=
  if_pos he

section

variable {q : ℚ} {whole : Nat} {lead cycle : List Char}

/-- The text of a minimal expansion is read as the number that is stored for its rational. -/
theorem readScalar_expansionText (h : IsExpansion q whole lead cycle) :
    readScalar (expansionText (q < 0) whole lead cycle) = (ofRat q).map .real := by
  have hwf : (expansionLiteral (q < 0) whole lead cycle).WellFormed := by
    refine ⟨isDigits_ofNat whole, ?_, nofun, .inl (ofNat_ne_nil whole)⟩
    rintro f hf
    obtain rfl := Option.some.inj hf
    refine ⟨h.lead_isDigit, fun ds hds => ?_⟩
    obtain rfl := Option.some.inj hds
    exact ⟨h.cycle_isDigit, List.length_pos_iff.1 h.length_pos⟩
  have hnegative : (expansionLiteral (q < 0) whole lead cycle).negative = decide (q < 0) := by
    cases hneg : decide (q < 0) <;> rfl
  rw [← text_expansionLiteral, hwf.readScalar_text, readReal_text hwf, hnegative]
  have hparts := realOfParts_cycle (String.ofList (expansionLiteral (q < 0) whole lead cycle).unmarked) (q < 0)
    (ofNat whole) lead cycle (e := 0) (Nat.zero_le _)
  rw [toNat_ofNat, h.value_eq, zpow_zero, mul_one] at hparts
  rw [← hparts]
  rfl

/-! ## Writing -/

theorem cycleText_ofNat (negative : Bool) (whole : Nat) (lead cycle : List Char) :
    cycleText ⟨negative, ofNat whole, lead, cycle⟩ = expansionText negative whole lead cycle := by
  have htext : ∀ ds, cycleText ⟨negative, ds, lead, cycle⟩ =
      String.ofList ((if negative then ['-'] else []) ++ ds ++ '.' :: lead ++ '(' :: cycle ++ [')']) := by
    intro ds
    apply String.toList_injective
    cases negative <;> simp [cycleText, signText]
  rw [htext, expansionText, ofNat_eq_toDigits]

/-- The search splits the stored digits where they were joined. -/
theorem split_storedDigits (h : IsExpansion q whole lead cycle) (hlead : lead.length ≤ 8 * cycle.length + 7)
    (limit : Option Int) : Cycle.split (storedDigits ⟨q < 0, whole, lead, cycle, true⟩) limit =
      if ∀ m ∈ limit, ((lead.length + 2 * cycle.length : Nat) : Int) ≤ m then
        some ⟨q < 0, ofNat whole, lead, cycle⟩
      else none := by
  have hdigits := fraction_isDigit h (q < 0)
  have hbest : Cycle.best (fraction ⟨q < 0, whole, lead, cycle, true⟩).toArray = some ⟨lead.length, cycle.length⟩ := by
    rw [fraction, h.append_cycles]
    exact Cycle.best_digitsAt_of_short_lead h.shortest_digitOf hlead
  unfold Cycle.split
  rw [find_storedDigits hdigits hbest, Decimal.integerDigits, wholePart_storedDigits hdigits]
  split <;> rfl

theorem normalize_storedDigits (h : IsExpansion q whole lead cycle) (hq : ¬ Terminates q)
    (hlen : lead.length + cycle.length ≤ 10000) (hlead : lead.length ≤ 8 * cycle.length + 7) :
    Real.normalize (.recurring (storedDigits ⟨q < 0, whole, lead, cycle, true⟩)) =
      .ok (.recurring (storedDigits ⟨q < 0, whole, lead, cycle, true⟩)) := by
  have hstored := ofRat_of_complete h hq hlen
  obtain ⟨x, hx, hrat⟩ := recovers_of_short_lead h hq hlen hlead
  obtain rfl := Except.ok.inj (hstored.symm.trans hx)
  unfold Real.normalize
  simp only
  rw [show recurringRat? _ = some q from hrat]
  exact hstored

/-- What stands for a value without a visible cycle: its first ten digits after the point. -/
theorem truncate_storedDigits {e : Expansion} (h : ∀ c ∈ fraction e, Text.isAsciiDigit c = true)
    (hten : 10 < (fraction e).length) : (storedDigits e).truncate 10 =
      .ok ⟨e.negative, e.whole * 10 ^ 10 + toNat ((fraction e).take 10), -10⟩ := by
  have hexp : (storedDigits e).exponent = -((fraction e).length : ℤ) := rfl
  have hcoeff : (storedDigits e).coefficient = e.whole * 10 ^ (fraction e).length + toNat (fraction e) := rfl
  have hdrop : toNat ((fraction e).drop 10) < 10 ^ ((fraction e).length - 10) := by
    have := @toNat_lt ((fraction e).drop 10) fun c hc => h c (List.mem_of_mem_drop hc)
    rwa [List.length_drop] at this
  have hcut : toNat (fraction e) = toNat ((fraction e).take 10) * 10 ^ ((fraction e).length - 10) +
      toNat ((fraction e).drop 10) := by
    conv_lhs => rw [← List.take_append_drop 10 (fraction e)]
    rw [toNat_append, List.length_drop]
  have hunit : Decimal.make false 1 (-10) = .ok ⟨false, 1, -10⟩ := by with_unfolding_all decide
  have hpow : (10 : Nat) ^ (fraction e).length = 10 ^ 10 * 10 ^ ((fraction e).length - 10) := by
    rw [← pow_add, Nat.add_sub_cancel' hten.le]
  unfold Decimal.truncate
  rw [hexp, if_neg (by omega), hunit, hcoeff, hcut, hpow, Decimal.shiftDown_eq,
    show (-10 - -((fraction e).length : ℤ)).toNat = (fraction e).length - 10 by omega, ← mul_assoc, ← Nat.add_assoc,
    ← Nat.add_mul, Nat.add_comm, Nat.add_mul_div_right _ _ (by positivity), Nat.div_eq_of_lt hdrop, Nat.zero_add]
  rfl

theorem canonical_recurring (h : IsExpansion q whole lead cycle) (hq : ¬ Terminates q)
    (hlen : lead.length + cycle.length ≤ 10000) (hlead : lead.length ≤ 8 * cycle.length + 7) :
    canonical (.ofReal (.recurring (storedDigits ⟨q < 0, whole, lead, cycle, true⟩))) =
      .ok (expansionText (q < 0) whole lead cycle) := by
  show Style.storage.real (.recurring _) = _
  unfold Style.real
  simp only
  rw [normalize_storedDigits h hq hlen hlead]
  show Style.storage.recurring _ = _
  unfold Style.recurring
  rw [split_storedDigits h hlead, if_pos nofun]
  simp only
  rw [cycleText_ofNat]

theorem render_recurring (h : IsExpansion q whole lead cycle) (hq : ¬ Terminates q)
    (hlen : lead.length + cycle.length ≤ 10000) (hlead : lead.length ≤ 8 * cycle.length + 7) :
    render (.ofReal (.recurring (storedDigits ⟨q < 0, whole, lead, cycle, true⟩))) =
      .ok (if lead.length + 2 * cycle.length ≤ 500 then expansionText (q < 0) whole lead cycle
        else positional ⟨q < 0, whole * 10 ^ 10 +
          toNat ((lead ++ (List.replicate Cycle.repeats cycle).flatten).take 10), -10⟩ true) := by
  show Style.display.real (.recurring _) = _
  unfold Style.real
  simp only
  rw [normalize_storedDigits h hq hlen hlead]
  show Style.display.recurring _ = _
  have hlimit : (∀ m ∈ Style.display.limit, ((lead.length + 2 * cycle.length : Nat) : Int) ≤ m) ↔
      lead.length + 2 * cycle.length ≤ 500 := by
    simp only [Style.display, Cycle.scanLimit, Option.mem_some_iff, forall_eq']
    omega
  unfold Style.recurring
  rw [split_storedDigits h hlead]
  by_cases hshow : lead.length + 2 * cycle.length ≤ 500
  · rw [if_pos (hlimit.2 hshow), if_pos hshow]
    simp only
    rw [cycleText_ofNat]
  · rw [if_neg (mt hlimit.1 hshow), if_neg hshow]
    have hten : 10 < (fraction ⟨q < 0, whole, lead, cycle, true⟩).length := by
      rw [fraction, h.append_cycles, length_digitsAt, Cycle.repeats]
      omega
    show (do .ok (positional (← (storedDigits _).truncate 10) true)) = _
    rw [truncate_storedDigits (fraction_isDigit h _) hten]
    rfl

/-! ## Round trips -/

/-- The number that is stored for a rational with a short lead is written as its minimal expansion,
for display only where the cycle shows early, and reading the text stores the same number. -/
theorem recurring_round_trip (h : IsExpansion q whole lead cycle) (hq : ¬ Terminates q)
    (hlen : lead.length + cycle.length ≤ 10000) (hlead : lead.length ≤ 8 * cycle.length + 7) :
    ∃ d, ofRat q = .ok (.recurring d) ∧
      canonical (.ofReal (.recurring d)) = .ok (expansionText (q < 0) whole lead cycle) ∧
      readScalar (expansionText (q < 0) whole lead cycle) = .ok (.real (.recurring d)) ∧
      render (.ofReal (.recurring d)) =
        .ok (if lead.length + 2 * cycle.length ≤ 500 then expansionText (q < 0) whole lead cycle
          else positional ⟨q < 0, whole * 10 ^ 10 +
            toNat ((lead ++ (List.replicate Cycle.repeats cycle).flatten).take 10), -10⟩ true) := by
  refine ⟨_, ofRat_of_complete h hq hlen, canonical_recurring h hq hlen hlead, ?_, render_recurring h hq hlen hlead⟩
  rw [readScalar_expansionText h, ofRat_of_complete h hq hlen]
  rfl

end

/-- Minus seven twelfths is written `-0.58(3)`. -/
theorem recurring_round_trip_seven_twelfths : ∃ d, ofRat (-7 / 12) = .ok (.recurring d) ∧
    canonical (.ofReal (.recurring d)) = .ok "-0.58(3)" ∧ readScalar "-0.58(3)" = .ok (.real (.recurring d)) ∧
    render (.ofReal (.recurring d)) = .ok "-0.58(3)" := by
  have hq : ¬ Terminates (-7 / 12) := (terminatingPlaces?_eq_none_iff _).1 (by decide +kernel)
  have h : IsExpansion (-7 / 12) 0 ['5', '8'] ['3'] :=
    @isExpansion_of_ofNat (-7 / 12) hq true 0 10000 ['5', '8'] ['3'] (by decide +kernel)
  have htext : expansionText (decide ((-7 / 12 : ℚ) < 0)) 0 ['5', '8'] ['3'] = "-0.58(3)" := by decide +kernel
  obtain ⟨d, hd, hcanonical, hread, hrender⟩ := recurring_round_trip h hq (by decide) (by decide)
  rw [htext] at hcanonical hread hrender
  exact ⟨d, hd, hcanonical, hread, hrender.trans (by rw [if_pos (by decide)])⟩

end Reckon.Notation
