/-
The digits of an expansion as texts: a digit string is read as the number it spells, as long as a
decimal can hold it, and so the texts of an expansion denote the same rational as its digits.
-/
import Reckon.Proofs.Decimal.Value
import Reckon.Proofs.Notation.Literal

namespace Reckon.Expansion

open Reckon.Digits Reckon.Notation

/-- A decimal can hold the number that a digit string spells. -/
def Holds (ds : List Char) : Prop := width (toNat ds) ≤ 10 ^ 18

instance (ds : List Char) : Decidable (Holds ds) := inferInstanceAs (Decidable (_ ≤ _))

section

variable {ds : List Char}

theorem asciiDigits_digits (h : IsDigits ds) : Decimal.asciiDigits ds = some ds := by
  have hplain : ∀ cs : List Char, IsDigits cs → (cs.mapM fun c =>
      if c.toNat < 128 then some c
      else if Text.isBlank c then some ' '
      else (Text.decimalValue? c).map digitChar) = some cs := by
    intro cs hcs
    induction cs with
    | nil => rfl
    | cons c cs ih =>
      have hc := isAsciiDigit_iff.1 (hcs c List.mem_cons_self)
      rw [List.mapM_cons, ih fun x hx => hcs x (List.mem_cons_of_mem _ hx), if_pos (by omega)]
      rfl
  have hfilter : ds.filter (· != '_') = ds := List.filter_eq_self.2 fun c hc => by
    have := h c hc
    rw [bne_iff_ne]
    rintro rfl
    cases this
  unfold Decimal.asciiDigits
  rw [trim_of_not_blank fun c hc => isBlank_of_isAsciiDigit (h c hc), hfilter]
  exact hplain ds h

theorem readUnsigned_digits (h : IsDigits ds) (hne : ds ≠ []) :
    Decimal.readUnsigned false ds = some (.ofInt (toNat ds)) := by
  have hspan : Decimal.spanDigits ds = (ds, []) := by
    rw [Decimal.spanDigits, List.takeWhile_eq_self_iff.2 h, List.dropWhile_eq_nil_iff.2 h]
  have hempty : ds.isEmpty = false := by rwa [List.isEmpty_eq_false_iff]
  unfold Decimal.readUnsigned
  simp only [hspan, hempty, Bool.false_and, Bool.not_false, guard_true, List.append_nil]
  rfl

theorem toInt_ofInt (n : Nat) : (Decimal.ofInt n).toInt = n := by
  rcases Nat.eq_zero_or_pos n with rfl | hn
  · rfl
  · simp [Decimal.toInt, Decimal.wholePart, Decimal.isZero, Decimal.ofInt, hn.ne']

theorem readWhole_digits (h : IsDigits ds) (hne : ds ≠ []) :
    readWhole (String.ofList ds) = if Holds ds then .ok (toNat ds : ℤ) else .error .decimalRange := by
  obtain ⟨c, cs, rfl⟩ := List.exists_cons_of_ne_nil hne
  have hc := h c List.mem_cons_self
  have hlower : Text.lowerAll (c :: cs) = c :: cs := by
    rw [Text.lowerAll, List.flatMap_congr (g := fun x => [x]) fun x hx => lower_of_isAsciiDigit (h x hx)]
    simp
  -- a digit is no sign and begins none of the words
  have hother : ∀ x, Text.isAsciiDigit x = false → c ≠ x := by
    rintro x hx rfl
    rw [hc] at hx
    cases hx
  have hminus := hother '-' (by decide)
  have hplus := hother '+' (by decide)
  have hi := hother 'i' (by decide)
  have hn := hother 'n' (by decide)
  have hs := hother 's' (by decide)
  have hsign : Decimal.splitSign (c :: cs) = (false, c :: cs) := by
    simp [Decimal.splitSign, hminus, hplus]
  have htext : Decimal.ofText (String.ofList (c :: cs)) =
      if (Decimal.ofInt (toNat (c :: cs))).inRange then .ok (.finite (.ofInt (toNat (c :: cs)))) else .error .decimalRange := by
    unfold Decimal.ofText
    rw [String.toList_ofList, asciiDigits_digits h]
    simp only [hsign, hlower, readUnsigned_digits h hne]
    simp [hi, List.isPrefixOf, hn.symm, hs.symm]
  have hrange := Decimal.inRange_ofInt_iff (toNat (c :: cs))
  rw [Int.natAbs_natCast] at hrange
  unfold readWhole
  rw [htext]
  by_cases hholds : Holds (c :: cs)
  · rw [if_pos (hrange.2 hholds), if_pos hholds]
    exact congrArg Except.ok (toInt_ofInt _)
  · rw [if_neg fun hr => hholds (hrange.1 hr), if_neg hholds]
    rfl

end

/-- A text of digits is read before the rest goes on, an empty one as zero. -/
theorem readText_bind {α : Type} {ds : List Char} (h : IsDigits ds) (rest : ℤ → Outcome α) :
    (if (String.ofList ds).isEmpty then (do let n ← pure 0; rest n) else do let n ← readWhole (String.ofList ds); rest n) =
      if Holds ds then rest (toNat ds) else .error .decimalRange := by
  cases ds with
  | nil =>
    have hholds : Holds [] := by
      rw [Holds, toNat_nil, (width_eq_one_iff 0).2 (by decide)]
      decide
    rw [if_pos (by simp), if_pos hholds]
    rfl
  | cons c cs =>
    rw [if_neg (by simp), readWhole_digits h (List.cons_ne_nil c cs)]
    split <;> rfl

/-- The texts of an expansion denote what its digits do, as long as decimals can hold the numbers
that they spell. -/
theorem ofTexts_ofList (negative : Bool) (whole : Nat) {lead cycle : List Char} (hlead : IsDigits lead)
    (hcycle : IsDigits cycle) : ofTexts negative whole (String.ofList lead) (String.ofList cycle) =
      if Holds lead ∧ Holds cycle then .ok (value negative whole lead cycle) else .error .decimalRange := by
  refine (readText_bind hlead _).trans ?_
  by_cases hl : Holds lead
  · rw [if_pos hl]
    refine (readText_bind hcycle _).trans ?_
    rw [String.length_ofList, String.length_ofList]
    simp only [hl, true_and]
    rfl
  · rw [if_neg hl, if_neg fun h => hl h.1]

end Reckon.Expansion
