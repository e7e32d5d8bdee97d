/-
The texts of real numbers, apart from their signs. Such a text can stand behind any sign, alone or as
a part of a complex number: the reader takes it with that sign, and the search for the sign that
joins two parts passes over it, the sign of an exponent included.
-/
import Reckon.Proofs.Binary.Range
import Reckon.Proofs.Notation.Positional
import Reckon.Proofs.Notation.SpecialWord

namespace Reckon.Notation

open Reckon.Text Reckon.Decimal

/-! ## Splitting a sum -/

/-- The search for the joining sign passes over the text. -/
def Unsplit (cs : List Char) : Prop :=
  ∀ before after, splitSum (cs.reverse ++ before) after = splitSum before (cs ++ after)

theorem splitSum_cons {c : Char} (h : c ≠ '+' ∧ c ≠ '-') (before after : List Char) :
    splitSum (c :: before) after = splitSum before (c :: after) := by
  cases before with
  | nil => rfl
  | cons d before =>
    rw [splitSum, if_neg]
    simp [h.1, h.2]

theorem splitSum_exponent_sign {e : Char} (he : e = 'e' ∨ e = 'E') (s : Char) (before after : List Char) :
    splitSum (s :: e :: before) after = splitSum (e :: before) (s :: after) := by
  rw [splitSum, if_neg]
  rcases he with rfl | rfl <;> simp

theorem unsplit_of_no_sign {cs : List Char} (h : ∀ c ∈ cs, c ≠ '+' ∧ c ≠ '-') : Unsplit cs := by
  induction cs with
  | nil => exact fun _ _ => rfl
  | cons c cs ih =>
    intro before after
    rw [List.reverse_cons, List.append_assoc, List.singleton_append, ih fun x hx => h x (List.mem_cons_of_mem _ hx),
      splitSum_cons (h c List.mem_cons_self)]
    rfl

theorem Unsplit.append {xs ys : List Char} (hx : Unsplit xs) (hy : Unsplit ys) : Unsplit (xs ++ ys) := by
  intro before after
  rw [List.reverse_append, List.append_assoc, hy, hx, List.append_assoc]

theorem IsDigits.no_sign {cs : List Char} (h : IsDigits cs) : ∀ c ∈ cs, c ≠ '+' ∧ c ≠ '-' :=
  fun c hc => (ne_sign_of_digit_or_point (.inl (h c hc))).symm

theorem Power.WellFormed.unsplit {p : Power} (h : p.WellFormed) : Unsplit p.text := by
  intro before after
  have hletter : ∀ e, e = 'e' ∨ e = 'E' → e ≠ '+' ∧ e ≠ '-' := by
    rintro e (rfl | rfl) <;> decide
  have he : (if p.upper then 'E' else 'e') = 'e' ∨ (if p.upper then 'E' else 'e') = 'E' := by
    cases p.upper
    · exact .inl rfl
    · exact .inr rfl
  unfold Power.text
  generalize (if p.upper then 'E' else 'e') = e at he
  rw [List.reverse_cons, List.reverse_append, List.append_assoc, List.append_assoc,
    unsplit_of_no_sign h.digits.no_sign]
  rcases p.sign with _ | _ | _
  · exact splitSum_cons (hletter e he) before _
  · exact (splitSum_exponent_sign he '+' before _).trans (splitSum_cons (hletter e he) before _)
  · exact (splitSum_exponent_sign he '-' before _).trans (splitSum_cons (hletter e he) before _)

theorem Fraction.WellFormed.no_sign {f : Fraction} (h : f.WellFormed) : ∀ c ∈ f.text, c ≠ '+' ∧ c ≠ '-' := by
  intro c hc
  obtain ⟨digits, cycle⟩ := f
  rcases List.mem_cons.1 hc with rfl | hc
  · decide
  rcases List.mem_append.1 hc with hc | hc
  · exact h.digits.no_sign c hc
  rcases cycle with _ | cycle
  · exact absurd hc List.not_mem_nil
  rcases List.mem_cons.1 hc with rfl | hc
  · decide
  rcases List.mem_append.1 hc with hc | hc
  · exact (h.cycle cycle rfl).1.no_sign c hc
  · rw [List.mem_singleton.1 hc]
    decide

/-! ## Numerals -/

/-- The text of a number without its sign, and what is read from it behind a sign. -/
structure IsNumeral (cs : List Char) (value : Bool → Outcome Real) : Prop where
  read : ∀ s, readReal (String.ofList (signChars s ++ cs)) = value (s == some true)
  unsplit : Unsplit cs
  head : ∃ c rest, cs = c :: rest ∧ c ≠ '+' ∧ c ≠ '-'
  not_blank : ∀ c ∈ cs, isBlank c = false
  last : ∀ c ∈ cs.getLast?, MayEnd c

/-- The literal behind any sign, with or without a mark. -/
def Literal.unsigned (l : Literal) (approximate : Bool) : List Char :=
  l.body ++ if approximate then approximationMark else []

/-- Only the message for a cycle with a mark quotes the text. -/
theorem realOfParts_congr (s s' : String) (negative : Bool) (whole fraction : List Char) {cycle : Option (List Char)} (e : Int)
    {approximate : Bool} (h : cycle = none ∨ approximate = false) :
    realOfParts s negative whole fraction cycle e approximate = realOfParts s' negative whole fraction cycle e approximate := by
  rcases h with rfl | rfl
  · rfl
  · cases cycle <;> rfl

namespace Literal.WellFormed

variable {l : Literal}

theorem withSign (h : l.WellFormed) (s : Option Bool) (approximate : Bool) :
    WellFormed { l with sign := s, approximate := approximate } := ⟨h.whole, h.point, h.power, h.nonempty⟩

theorem readReal_unsigned (h : l.WellFormed) {approximate : Bool} (hexact : l.cycle? = none ∨ approximate = false)
    (s : Option Bool) : readReal (String.ofList (signChars s ++ l.unsigned approximate)) =
      realOfParts "" (s == some true) l.whole l.fraction l.cycle? l.exponent approximate := by
  have hread := readReal_text (h.withSign s approximate)
  rw [text, unmarked, List.append_assoc] at hread
  exact hread.trans (realOfParts_congr _ _ _ _ _ _ hexact)

theorem unsplit (h : l.WellFormed) (approximate : Bool) : Unsplit (l.unsigned approximate) := by
  have hmark : Unsplit (if approximate then approximationMark else []) := by
    cases approximate
    · exact fun _ _ => rfl
    · exact unsplit_of_no_sign fun c hc => by rw [eq_of_mem_mark hc]; decide
  have hpoint : Unsplit ((l.point.map Fraction.text).getD []) := by
    rcases hp : l.point with _ | f
    · exact fun _ _ => rfl
    · exact unsplit_of_no_sign (h.point f hp).no_sign
  have hpower : Unsplit ((l.power.map Power.text).getD []) := by
    rcases hp : l.power with _ | p
    · exact fun _ _ => rfl
    · exact (h.power p hp).unsplit
  exact ((unsplit_of_no_sign h.whole.no_sign).append (hpoint.append hpower)).append hmark

theorem not_blank_unsigned (h : l.WellFormed) (approximate : Bool) :
    ∀ c ∈ l.unsigned approximate, isBlank c = false := by
  have := (h.withSign none approximate).not_blank
  rwa [text, unmarked] at this

/-- A literal ends with a digit, a bracket or a point. -/
theorem last_unsigned (h : l.WellFormed) (approximate : Bool) : ∀ c ∈ (l.unsigned approximate).getLast?, MayEnd c := by
  have hend : ∀ {xs ys : List Char} {c : Char}, ys ≠ [] → c ∈ (xs ++ ys).getLast? → c ∈ ys :=
    fun hne hc => List.mem_of_mem_getLast? (by rwa [List.getLast?_append_of_ne_nil _ hne] at hc)
  intro c hc
  unfold unsigned body at hc
  rcases approximate with _ | _
  · rw [if_neg Bool.false_ne_true, List.append_nil] at hc
    rcases hp : l.power with _ | p
    · rw [hp] at hc
      simp only [Option.map_none, Option.getD_none, List.append_nil] at hc
      rcases hf : l.point with _ | f
      · rw [hf] at hc
        simp only [Option.map_none, Option.getD_none, List.append_nil] at hc
        exact mayEnd_of_isAsciiDigit (h.whole c (List.mem_of_mem_getLast? hc))
      · rw [hf] at hc
        have hmem := hend (by simp [Fraction.text]) hc
        have hwf := h.point f hf
        obtain ⟨digits, cycle⟩ := f
        rcases List.mem_cons.1 hmem with rfl | hmem
        · exact ⟨by decide, by decide, by decide⟩
        rcases List.mem_append.1 hmem with hmem | hmem
        · exact mayEnd_of_isAsciiDigit (hwf.digits c hmem)
        rcases cycle with _ | cycle
        · exact absurd hmem List.not_mem_nil
        rcases List.mem_cons.1 hmem with rfl | hmem
        · exact ⟨by decide, by decide, by decide⟩
        rcases List.mem_append.1 hmem with hmem | hmem
        · exact mayEnd_of_isAsciiDigit ((hwf.cycle cycle rfl).1 c hmem)
        · rw [List.mem_singleton.1 hmem]
          exact ⟨by decide, by decide, by decide⟩
    · obtain ⟨hd, hne, -⟩ := h.power p hp
      rw [hp, Option.map_some, Option.getD_some, Power.text, ← List.cons_append, ← List.append_assoc,
        ← List.append_assoc] at hc
      exact mayEnd_of_isAsciiDigit (hd c (hend hne hc))
  · rw [if_pos rfl] at hc
    rw [eq_of_mem_mark (hend (by simp [approximationMark]) hc)]
    exact ⟨by decide, by decide, by decide⟩

end Literal.WellFormed

/-- A literal with a cycle or a mark, but not with both, is a numeral. -/
theorem Literal.WellFormed.isNumeral {l : Literal} (h : l.WellFormed) {approximate : Bool}
    (hexact : l.cycle? = none ∨ approximate = false) : IsNumeral (l.unsigned approximate) fun negative =>
      realOfParts "" negative l.whole l.fraction l.cycle? l.exponent approximate := by
  refine ⟨h.readReal_unsigned hexact, h.unsplit approximate, ?_, h.not_blank_unsigned approximate,
    h.last_unsigned approximate⟩
  obtain ⟨c, rest, hbody, hc⟩ := h.head_body
  refine ⟨c, rest ++ if approximate then approximationMark else [], ?_, ?_⟩
  · rw [Literal.unsigned, hbody, List.cons_append]
  · have := h.head_body_ne [] c (by rw [hbody]; rfl)
    exact ⟨this.2, this.1⟩

/-- A special word is a numeral. -/
theorem IsSpecialWord.isNumeral {cs : List Char} {value : Bool → Real} (h : IsSpecialWord cs value) :
    IsNumeral cs fun negative => .ok (value negative) := by
  have hsign : ∀ c ∈ cs, c ≠ '+' ∧ c ≠ '-' := fun c hc => (h.no_sign c hc).symm
  refine ⟨fun s => readReal_of_isSpecial ?_, unsplit_of_no_sign hsign, ?_, h.not_blank, h.last⟩
  · rw [String.toList_ofList, trim_of_not_blank fun c hc => ?_]
    · exact .intro s h
    · rcases List.mem_append.1 hc with hc | hc
      · exact signChars_not_blank s c hc
      · exact h.not_blank c hc
  · obtain ⟨c, rest, rfl⟩ := h.exists_cons
    exact ⟨c, rest, rfl, hsign c List.mem_cons_self⟩

theorem isNumeral_infinity : IsNumeral "Infinity".toList fun negative => .ok (.infinite negative) :=
  (IsSpecialWord.infinity (by simp [InAnyCase])).isNumeral

/-! ## Real numbers -/

/-- A number whose text has no cycle: a finite one other than a repeating value, in the range of
decimals, or an infinity. -/
def IsPlain : Real → Prop
  | .small .. | .infinite _ => True
  | .big d | .irrational d => d.inRange = true
  | .recurring _ | .nan => False

/-- The text of a number without its sign. -/
def unsignedReal (forcePoint : Bool) : Real → String
  | .infinite _ => "Infinity"
  | .irrational d => unsignedText d forcePoint ++ "..."
  | .small _ b => unsignedText b.toDecimal forcePoint
  | .big d => unsignedText d forcePoint
  | .recurring _ | .nan => ""

/-- What is read from the text of a number behind a sign. -/
def rereadReal (forcePoint negative : Bool) : Real → Outcome Real
  | .infinite _ => .ok (.infinite negative)
  | .irrational d => ofStored true (reread forcePoint negative d)
  | .small _ b => ofStored false (reread forcePoint negative b.toDecimal)
  | .big d => ofStored false (reread forcePoint negative d)
  | .recurring _ | .nan => .ok .nan

theorem isNumeral_unsignedText {d : Decimal} (h : d.inRange = true) (forcePoint : Bool) :
    IsNumeral (unsignedText d forcePoint).toList (fun negative => ofStored false (reread forcePoint negative d)) ∧
      IsNumeral (unsignedText d forcePoint ++ "...").toList
        (fun negative => ofStored true (reread forcePoint negative d)) := by
  obtain ⟨l, hl, hsign, happrox, hcycle, htext, hreread⟩ := exists_literal h forcePoint
  have hunsigned : (unsignedText d forcePoint).toList = l.unsigned false := by
    rw [htext, String.toList_ofList, Literal.text, Literal.unmarked, Literal.unsigned, happrox, hsign]
    rfl
  have hmarked : (unsignedText d forcePoint ++ "...").toList = l.unsigned true := by
    rw [String.toList_append, hunsigned, Literal.unsigned, Literal.unsigned, if_neg Bool.false_ne_true, if_pos rfl,
      List.append_nil]
    rfl
  have hnumeral : ∀ approximate, IsNumeral (l.unsigned approximate) fun negative =>
      ofStored approximate (reread forcePoint negative d) := by
    intro approximate
    have := hl.isNumeral (.inl hcycle : l.cycle? = none ∨ approximate = false)
    simpa only [hcycle, realOfParts_none, hreread] using this
  rw [hunsigned, hmarked]
  exact ⟨hnumeral false, hnumeral true⟩

theorem isNumeral_unsignedReal {x : Real} (h : IsPlain x) (forcePoint : Bool) :
    IsNumeral (unsignedReal forcePoint x).toList fun negative => rereadReal forcePoint negative x := by
  cases x with
  | small f b => exact (isNumeral_unsignedText b.toDecimal_bounds.1 forcePoint).1
  | big d => exact (isNumeral_unsignedText h forcePoint).1
  | irrational d => exact (isNumeral_unsignedText h forcePoint).2
  | recurring d => exact h.elim
  | infinite negative => exact isNumeral_infinity
  | nan => exact h.elim

theorem string_signText (negative : Bool) (text : String) : signText negative ++ text =
    String.ofList (signChars (if negative then some true else none) ++ text.toList) := by
  apply String.toList_injective
  cases negative <;> simp [signText, signChars]

/-- A plain number is written as its sign and its unsigned text; a zero has no sign. -/
theorem real_eq {x : Real} (h : IsPlain x) (style : Style) :
    style.real x = .ok (signText (x.isNegative && !x.isZero) ++ unsignedReal style.forcePoint x) := by
  cases x with
  | small f b =>
    show Except.ok (positional _ _) = _
    rw [positional_eq]
    rfl
  | big d =>
    show Except.ok (positional _ _) = _
    rw [positional_eq]
    rfl
  | irrational d =>
    show Except.ok (positional _ _ ++ "...") = _
    rw [positional_eq, String.append_assoc]
    rfl
  | recurring d => exact h.elim
  | infinite negative =>
    cases negative <;> rfl
  | nan => exact h.elim

end Reckon.Notation
