/-
How literals fail. Most texts that are no literals are malformed, and the lenient readers take them
for zero or NaN. What they do not catch is a digit whose lower case has two parts, an exponent with
more digits than are read, and a number that no decimal holds.
-/
import Reckon.Proofs.Notation.SpecialWord
import Reckon.Proofs.Real.Failures

namespace Reckon.Notation

open Reckon.Outcome Reckon.Text

/-! ## Digits of a radix -/

/-- The only character whose lower case is not a single character. -/
def dottedI : Char := '\u0130'

theorem radixValue_eq_error_iff {c : Char} {f : Failure} :
    radixValue c = .error f ↔ f = .mismatch ∧ c = dottedI := by
  unfold radixValue
  by_cases hdigit : isAsciiDigit c = true
  · rw [if_pos hdigit]
    refine iff_of_false nofun ?_
    rintro ⟨-, rfl⟩
    exact absurd hdigit (by decide)
  · rw [if_neg hdigit]
    unfold lower
    by_cases hkelvin : c = '\u212a'
    · subst hkelvin
      exact iff_of_false nofun fun h => absurd h.2 (by decide)
    by_cases hdotted : c = dottedI
    · subst hdotted
      constructor
      · intro h
        exact ⟨(Except.error.inj h).symm, rfl⟩
      · rintro ⟨rfl, -⟩
        rfl
    · rw [if_neg (by simpa using hkelvin), if_neg (by simpa [dottedI] using hdotted)]
      exact iff_of_false nofun fun h => hdotted h.2

/-- A digit of the radix, or an underscore between digits. -/
def IsRadixDigit (radix : Nat) (c : Char) : Prop := c = '_' ∨ ∃ d < radix, radixValue c = .ok d

/-- The first character that is no digit of the radix is the dotted capital I. -/
def StopsAtDottedI (radix : Nat) (cs : List Char) : Prop :=
  ∃ digits rest, cs = digits ++ dottedI :: rest ∧ ∀ c ∈ digits, IsRadixDigit radix c

theorem stopsAtDottedI_cons_iff {radix : Nat} {c : Char} {cs : List Char} :
    StopsAtDottedI radix (c :: cs) ↔ c = dottedI ∨ IsRadixDigit radix c ∧ StopsAtDottedI radix cs := by
  constructor
  · rintro ⟨digits, rest, heq, hdigits⟩
    rcases digits with _ | ⟨d, digits⟩
    · exact .inl (List.cons.inj heq).1
    · obtain ⟨rfl, rfl⟩ := List.cons.inj heq
      exact .inr ⟨hdigits c List.mem_cons_self, digits, rest, rfl, fun x hx => hdigits x (List.mem_cons_of_mem _ hx)⟩
  · rintro (rfl | ⟨hc, digits, rest, rfl, hdigits⟩)
    · exact ⟨[], cs, rfl, nofun⟩
    · refine ⟨c :: digits, rest, rfl, fun x hx => ?_⟩
      rcases List.mem_cons.1 hx with rfl | hx
      · exact hc
      · exact hdigits x hx

/-- Spelled digits are malformed, or a digit cannot be looked up. -/
theorem accumulate_eq_error (radix : Nat) (text : String) (cs : List Char) : ∀ {i acc : Nat} {seen : Bool} {f : Failure},
    accumulate radix text cs i acc seen = .error f →
      (∃ e, f = .malformed e) ∨ f = .mismatch ∧ StopsAtDottedI radix cs := by
  induction cs with
  | nil => exact fun h => nomatch h
  | cons c cs ih =>
    intro i acc seen f h
    rw [stopsAtDottedI_cons_iff]
    unfold accumulate at h
    split at h
    · rename_i hc
      exact (ih h).imp_right fun ⟨hf, hcs⟩ => ⟨hf, .inr ⟨.inl (by simpa using hc), hcs⟩⟩
    · rcases bind_eq_error.1 h with h | ⟨d, hd, h⟩
      · obtain ⟨rfl, hc⟩ := radixValue_eq_error_iff.1 h
        exact .inr ⟨rfl, .inl hc⟩
      · split at h
        · exact .inl ⟨_, (Except.error.inj h).symm⟩
        · rename_i hlt
          exact (ih h).imp_right fun ⟨hf, hcs⟩ => ⟨hf, .inr ⟨.inr ⟨d, by omega, hd⟩, hcs⟩⟩

theorem accumulate_of_stopsAtDottedI {radix : Nat} (text : String) {cs : List Char} (h : StopsAtDottedI radix cs) :
    ∀ (i acc : Nat) (seen : Bool), accumulate radix text cs i acc seen = .error .mismatch := by
  obtain ⟨digits, rest, rfl, hdigits⟩ := h
  induction digits with
  | nil => exact fun i acc seen => rfl
  | cons c digits ih =>
    intro i acc seen
    have ih := ih fun x hx => hdigits x (List.mem_cons_of_mem _ hx)
    rw [List.cons_append, accumulate]
    rcases hdigits c List.mem_cons_self with rfl | ⟨d, hlt, hd⟩
    · exact ih _ _ _
    · split
      · exact ih _ _ _
      · rw [hd, ok_bind, if_neg (by omega)]
        exact ih _ _ _

theorem radixNumber_eq_error {radix : Nat} {cs : List Char} {f : Failure} (h : radixNumber radix cs = .error f) :
    (∃ e, f = .malformed e) ∨ f = .mismatch ∧ StopsAtDottedI radix cs := by
  rcases bind_eq_error.1 h with h | ⟨⟨n, seen⟩, -, h⟩
  · exact accumulate_eq_error _ _ _ h
  · cases seen with
    | true => cases h
    | false => exact .inl ⟨_, (Except.error.inj h).symm⟩

theorem radixNumber_of_stopsAtDottedI {radix : Nat} {cs : List Char} (h : StopsAtDottedI radix cs) :
    radixNumber radix cs = .error .mismatch := by
  unfold radixNumber
  simp only
  rw [accumulate_of_stopsAtDottedI _ h]
  rfl

/-! ## Integers -/

theorem sign_spec (cs : List Char) : ∃ s rest, cs = signChars s ++ rest ∧
    (cursorAt cs 0).sign = (s == some true, ⟨rest, (signChars s).length⟩) := by
  unfold cursorAt Cursor.sign
  simp only [List.drop_zero]
  split
  · exact ⟨some true, _, rfl, rfl⟩
  · exact ⟨some false, _, rfl, rfl⟩
  · exact ⟨none, cs, rfl, rfl⟩

/-- A lower case that is a digit is that of the digit. -/
theorem eq_zero_of_lower {c : Char} {l : List Char} (h : lower c = '0' :: l) : c = '0' := by
  unfold lower at h
  split at h
  · cases h
  split at h
  · cases h
  · have hc := (List.cons.inj h).1
    unfold Char.toLower at hc
    split at hc
    · rename_i hupper
      rw [eq_sub_of_add_eq (congrArg Char.val hc)] at hupper
      exact absurd hupper (by decide)
    · exact hc

theorem exists_lower (c : Char) : ∃ d l, lower c = d :: l := by
  unfold lower
  split
  · exact ⟨_, _, rfl⟩
  split
  · exact ⟨_, _, rfl⟩
  · exact ⟨_, _, rfl⟩

/-- A marked radix starts with a zero. -/
theorem head_of_prefixRadix? {cs : List Char} {radix : Nat} (h : prefixRadix? cs = some radix) :
    ∃ m rest, cs = '0' :: m :: rest := by
  have hlower : ∃ l, lowerAll (cs.take 2) = '0' :: l ∧ l.length = 1 := by
    unfold prefixRadix? at h
    split at h
    · exact ⟨_, by assumption, rfl⟩
    · exact ⟨_, by assumption, rfl⟩
    · exact ⟨_, by assumption, rfl⟩
    · cases h
  obtain ⟨l, hl, hlen⟩ := hlower
  rcases cs with _ | ⟨c, _ | ⟨m, rest⟩⟩
  · cases hl
  · rw [show List.take 2 [c] = [c] from rfl, lowerAll, List.flatMap_singleton] at hl
    obtain rfl := eq_zero_of_lower hl
    rw [show l = [] from (List.cons.inj hl).2.symm] at hlen
    cases hlen
  · rw [show List.take 2 (c :: m :: rest) = [c, m] from rfl, lowerAll, List.flatMap_cons] at hl
    obtain ⟨d, t, hd⟩ := exists_lower c
    rw [hd] at hl
    obtain rfl := (List.cons.inj hl).1
    exact ⟨m, rest, by rw [eq_zero_of_lower hd]⟩

/-- The text announces a radix, and its first character that is no digit of it is the dotted capital I. -/
def HasDottedDigit (cs : List Char) : Prop :=
  ∃ sign mark digits radix, cs = signChars sign ++ (mark ++ digits) ∧ mark.length = 2 ∧ prefixRadix? mark = some radix ∧
    StopsAtDottedI radix digits

theorem readDecimalInteger_malformed (s : String) (c : Cursor) :
    FailsOnly (fun f => ∃ e, f = .malformed e) (readDecimalInteger s c) := by
  unfold readDecimalInteger
  exact .ite (fun _ => .error ⟨_, rfl⟩) fun _ => .ite (fun _ => .error ⟨_, rfl⟩) fun _ =>
    .ite (fun _ => .error ⟨_, rfl⟩) fun _ => .ok _

/-- What follows the sign of an integer, as its prefix tells. -/
def readMagnitude (s : String) (c : Cursor) : Outcome Nat :=
  match prefixRadix? c.rest with
  | some radix => radixNumber radix (c.rest.drop 2)
  | none => readDecimalInteger s c

theorem readInteger_eq {text : String} {negative : Bool} {c : Cursor}
    (hsign : (cursorAt (trim text.toList) 0).sign = (negative, c)) :
    readInteger text = if (trim text.toList).isEmpty then malformed .emptyInteger
      else if isSpecialWord c.rest then malformed (.notInteger (String.ofList c.rest))
      else (readMagnitude (String.ofList (trim text.toList)) c).map (signed negative) := by
  unfold readInteger readMagnitude
  simp only [hsign]
  cases prefixRadix? c.rest with
  | none => cases readDecimalInteger (String.ofList (trim text.toList)) c <;> rfl
  | some radix => cases radixNumber radix (c.rest.drop 2) <;> rfl

theorem readInteger_eq_error {text : String} {f : Failure} (h : readInteger text = .error f) :
    (∃ e, f = .malformed e) ∨ f = .mismatch ∧ HasDottedDigit (trim text.toList) := by
  obtain ⟨sign, rest, hcs, hsign⟩ := sign_spec (trim text.toList)
  rw [readInteger_eq hsign] at h
  split at h
  · exact .inl ⟨_, (Except.error.inj h).symm⟩
  split at h
  · exact .inl ⟨_, (Except.error.inj h).symm⟩
  rw [map_eq_error] at h
  unfold readMagnitude at h
  split at h
  · rename_i radix hradix
    refine (radixNumber_eq_error h).imp_right fun ⟨hf, hstops⟩ =>
      ⟨hf, sign, rest.take 2, rest.drop 2, radix, ?_, ?_, ?_, hstops⟩
    · rwa [List.take_append_drop]
    · obtain ⟨m, tail, rfl⟩ := head_of_prefixRadix? hradix
      rfl
    · unfold prefixRadix? at hradix ⊢
      rwa [List.take_take]
  · exact .inl (readDecimalInteger_malformed _ _ _ h)

theorem readInteger_of_hasDottedDigit {text : String} (h : HasDottedDigit (trim text.toList)) :
    readInteger text = .error .mismatch := by
  obtain ⟨sign, mark, digits, radix, hcs, hlen, hradix, hstops⟩ := h
  obtain ⟨m, tail, rfl⟩ := head_of_prefixRadix? hradix
  obtain rfl : tail = [] := List.eq_nil_of_length_eq_zero (by simpa using hlen)
  have hhead : ∀ c ∈ ('0' :: m :: digits).head?, c ≠ '-' ∧ c ≠ '+' := by
    intro c hc
    obtain rfl := Option.some.inj hc
    decide
  have hsign := sign_append (s := sign) hhead 0
  rw [List.cons_append, List.cons_append, List.nil_append] at hcs
  rw [← hcs] at hsign
  have hnonempty : ¬ (trim text.toList).isEmpty = true := by
    rw [hcs]
    simp
  -- no special word begins with a zero
  have hword : ¬ isSpecialWord ('0' :: m :: digits) = true := by
    have hhead : ∀ w : String, w.toList.head? ≠ some '0' → String.ofList (lowerAll ('0' :: m :: digits)) ≠ w := by
      rintro _ hw rfl
      exact hw (by rw [String.toList_ofList]; rfl)
    unfold isSpecialWord
    simp only [Bool.or_eq_true, beq_iff_eq, not_or]
    exact ⟨⟨hhead _ (by decide), hhead _ (by decide)⟩, hhead _ (by decide)⟩
  rw [readInteger_eq (c := ⟨'0' :: m :: digits, _⟩) hsign, if_neg hnonempty, if_neg hword, map_eq_error]
  have hradix' : prefixRadix? ('0' :: m :: digits) = some radix := hradix
  unfold readMagnitude
  rw [hradix']
  exact radixNumber_of_stopsAtDottedI hstops

/-- The lenient reading of an integer fails on a digit that cannot be looked up, and on nothing else. -/
theorem readIntegerOrZero_eq_error_iff {text : String} {f : Failure} :
    readIntegerOrZero text = .error f ↔ f = .mismatch ∧ HasDottedDigit (trim text.toList) := by
  unfold readIntegerOrZero
  constructor
  · intro h
    split at h
    · cases h
    · rename_i hnot
      exact (readInteger_eq_error h).resolve_left fun ⟨e, he⟩ => hnot e (he ▸ h)
  · rintro ⟨rfl, h⟩
    rw [readInteger_of_hasDottedDigit h]

/-! ## Pieces of a real -/

theorem endsDigits_dropWhile (cs : List Char) : EndsDigits (cs.dropWhile isAsciiDigit) := by
  intro c hc
  have hhead := List.head?_dropWhile_not isAsciiDigit cs
  rwa [Option.mem_def.1 hc] at hhead

theorem digits_spec (cs : List Char) (n : Nat) : ∃ ds rest, cs = ds ++ rest ∧ IsDigits ds ∧ EndsDigits rest ∧
    Cursor.digits ⟨cs, n⟩ = (ds, ⟨rest, n + ds.length⟩) := by
  have hsplit := List.takeWhile_append_dropWhile (p := isAsciiDigit) (l := cs)
  have hds : IsDigits (cs.takeWhile isAsciiDigit) := fun c hc => List.mem_takeWhile_imp hc
  refine ⟨_, _, hsplit.symm, hds, endsDigits_dropWhile cs, ?_⟩
  have hdigits := digits_append hds (endsDigits_dropWhile cs) n
  rwa [hsplit] at hdigits

/-- What a text has after the digits in front of a point: it is malformed, or a fraction is read. -/
theorem readFraction_spec (s : String) (cs : List Char) (n : Nat) :
    (∃ e, readFraction s ⟨cs, n⟩ = .error (.malformed e)) ∨
    ∃ (point : Option Fraction) (rest : List Char) (m : Nat), (∀ f ∈ point, f.WellFormed) ∧
      cs = (point.map Fraction.text).getD [] ++ rest ∧
      readFraction s ⟨cs, n⟩ = .ok ((point.map Fraction.digits).getD [], point.bind Fraction.cycle, ⟨rest, m⟩) := by
  unfold readFraction
  split
  · exact .inr ⟨none, cs, n, fun _ h => absurd h (Option.not_mem_none _), rfl, rfl⟩
  rename_i hpoint
  obtain ⟨tail, rfl⟩ : ∃ tail, cs = '.' :: tail := List.head?_eq_some_iff.1 (by simpa using hpoint)
  obtain ⟨fraction, rest, rfl, hfraction, -, hdigits⟩ := digits_spec tail (n + 1)
  simp only [Cursor.skip, List.drop_succ_cons, List.drop_zero, hdigits]
  split
  · refine .inr ⟨some ⟨fraction, none⟩, rest, _, ?_, ?_, rfl⟩
    · rintro _ ⟨⟩
      exact ⟨hfraction, fun _ h => absurd h (Option.not_mem_none _)⟩
    · simp [Fraction.text]
  rename_i hopen
  obtain ⟨tail, rfl⟩ : ∃ tail, rest = '(' :: tail := List.head?_eq_some_iff.1 (by simpa using hopen)
  obtain ⟨cycle, rest, rfl, hcycle, -, hdigits⟩ := digits_spec tail (n + 1 + fraction.length + 1)
  simp only [List.drop_succ_cons, List.drop_zero, hdigits, Cursor.expect]
  split
  · rename_i hclose
    obtain ⟨tail, rfl⟩ : ∃ tail, rest = ')' :: tail := List.head?_eq_some_iff.1 (by simpa using hclose)
    rw [ok_bind]
    split
    · exact .inl ⟨_, rfl⟩
    · rename_i hne
      refine .inr ⟨some ⟨fraction, some cycle⟩, tail, _, ?_, ?_, rfl⟩
      · rintro _ ⟨⟩
        refine ⟨hfraction, ?_⟩
        rintro _ ⟨⟩
        exact ⟨hcycle, by simpa using hne⟩
      · simp [Fraction.text]
  · exact .inl ⟨_, rfl⟩

/-- A power of ten with more digits than are read. -/
def Power.IsLong (p : Power) : Prop := IsDigits p.digits ∧ Failure.digitLimit < p.digits.length

/-- What a text has at its end: it is malformed, or the digits of a power are too many, or a power is read. -/
theorem readPower_spec (s : String) (cs : List Char) (n : Nat) :
    (∃ e, readPower s ⟨cs, n⟩ = .error (.malformed e)) ∨
    (∃ (p : Power) (rest : List Char), p.IsLong ∧ EndsDigits rest ∧ cs = p.text ++ rest ∧
      readPower s ⟨cs, n⟩ = .error .textValue) ∨
    ∃ (power : Option Power) (rest : List Char) (m : Nat), (∀ p ∈ power, p.WellFormed) ∧
      cs = (power.map Power.text).getD [] ++ rest ∧
      readPower s ⟨cs, n⟩ = .ok ((power.map Power.value).getD 0, ⟨rest, m⟩) := by
  unfold readPower
  split
  · rename_i hletter
    obtain ⟨upper, tail, rfl⟩ : ∃ (upper : Bool) (tail : List Char), cs = (if upper then 'E' else 'e') :: tail := by
      rcases cs with _ | ⟨c, tail⟩
      · cases hletter
      · rcases (by simpa using hletter : c = 'e' ∨ c = 'E') with rfl | rfl
        · exact ⟨false, tail, rfl⟩
        · exact ⟨true, tail, rfl⟩
    obtain ⟨sign, rest, rfl, hsign⟩ : ∃ sign rest, tail = signChars sign ++ rest ∧ Cursor.sign ⟨tail, n + 1⟩ =
        (sign == some true, ⟨rest, n + 1 + (signChars sign).length⟩) := by
      unfold Cursor.sign
      simp only
      split
      · exact ⟨some true, _, rfl, rfl⟩
      · exact ⟨some false, _, rfl, rfl⟩
      · exact ⟨none, _, rfl, rfl⟩
    obtain ⟨digits, rest, rfl, hdigits, hends, hread⟩ := digits_spec rest (n + 1 + (signChars sign).length)
    simp only [Cursor.skip, List.drop_succ_cons, List.drop_zero, hsign, hread]
    split
    · exact .inl ⟨_, rfl⟩
    rename_i hne
    split
    · rename_i hlong
      exact .inr (.inl ⟨⟨upper, sign, digits⟩, rest, ⟨hdigits, hlong⟩, hends, by simp [Power.text], rfl⟩)
    · rename_i hlimit
      refine .inr (.inr ⟨some ⟨upper, sign, digits⟩, rest, _, ?_, by simp [Power.text], rfl⟩)
      rintro _ ⟨⟩
      exact ⟨hdigits, by simpa using hne, not_lt.1 hlimit⟩
  · exact .inr (.inr ⟨none, cs, n, fun _ h => absurd h (Option.not_mem_none _), rfl, rfl⟩)

/-! ## Reals -/

theorem splitMark_spec (cs : List Char) :
    cs = (splitMark cs).1 ++ if (splitMark cs).2 then approximationMark else [] := by
  by_cases h : approximationMark.isSuffixOf cs = true
  · obtain ⟨body, rfl⟩ := List.isSuffixOf_iff_suffix.1 h
    rw [splitMark_append]
    rfl
  · unfold splitMark
    rw [if_neg h]
    simp

/-- The mark does not reach into the sign. -/
theorem splitMark_sign {s : Option Bool} {cs rest : List Char} (h : cs = signChars s ++ rest) :
    ∃ body, (splitMark cs).1 = signChars s ++ body := by
  have hsplit := splitMark_spec cs
  rcases hbody : (splitMark cs).1 with _ | ⟨c, body⟩
  · rcases s with _ | _ | _
    · exact ⟨[], rfl⟩
    · rw [hbody, h] at hsplit
      split at hsplit <;> cases hsplit
    · rw [hbody, h] at hsplit
      split at hsplit <;> cases hsplit
  · rcases s with _ | _ | _
    · exact ⟨c :: body, rfl⟩
    · rw [hbody, h] at hsplit
      obtain rfl := (List.cons.inj hsplit).1
      exact ⟨body, rfl⟩
    · rw [hbody, h] at hsplit
      obtain rfl := (List.cons.inj hsplit).1
      exact ⟨body, rfl⟩

namespace Literal

/-- The number that the pieces of a literal denote. -/
def denoted (l : Literal) : Outcome Real :=
  realOfParts (String.ofList l.unmarked) l.negative l.whole l.fraction l.cycle? l.exponent l.approximate

/-- A literal with both a cycle and a mark is malformed. -/
theorem exact_or_malformed (l : Literal) :
    (l.cycle? = none ∨ l.approximate = false) ∨ ∃ e, l.denoted = .error (.malformed e) := by
  rcases hcycle : l.cycle? with _ | cycle
  · exact .inl (.inl rfl)
  cases hmark : l.approximate
  · exact .inl (.inr rfl)
  · refine .inr ⟨.irrationalCycle (String.ofList l.unmarked), ?_⟩
    rw [denoted, hcycle, hmark]
    rfl

end Literal

/-- The text is a literal up to the digits of its power of ten, and these are too many. -/
def HasLongPower (cs : List Char) : Prop :=
  ∃ (l : Literal) (p : Power) (rest : List Char), l.WellFormed ∧ l.power = none ∧ p.IsLong ∧ EndsDigits rest ∧
    (splitMark cs).1 = l.unmarked ++ (p.text ++ rest)

/-- A real with digits is malformed, or its power is too long, or it is a literal. -/
theorem readDigitsReal_spec {sign : Option Bool} {cs rest : List Char} (hcs : cs = signChars sign ++ rest) :
    (∃ e, readDigitsReal (sign == some true) (signChars sign).length cs = .error (.malformed e)) ∨
    (HasLongPower cs ∧ readDigitsReal (sign == some true) (signChars sign).length cs = .error .textValue) ∨
    ∃ l : Literal, l.WellFormed ∧ cs = l.text ∧
      readDigitsReal (sign == some true) (signChars sign).length cs = l.denoted := by
  obtain ⟨body, hbody⟩ := splitMark_sign hcs
  have hmark := splitMark_spec cs
  unfold HasLongPower readDigitsReal
  generalize splitMark cs = split at hbody hmark
  obtain ⟨unmarked, approximate⟩ := split
  obtain rfl : unmarked = signChars sign ++ body := hbody
  have hcursor : cursorAt (signChars sign ++ body) (signChars sign).length = ⟨body, (signChars sign).length⟩ := by
    rw [cursorAt, List.drop_left]
  simp only [hcursor]
  obtain ⟨whole, rest₁, rfl, hwhole, -, hread⟩ := digits_spec body (signChars sign).length
  simp only [hread]
  rcases readFraction_spec (String.ofList (signChars sign ++ (whole ++ rest₁))) rest₁
      ((signChars sign).length + whole.length) with
    ⟨e, he⟩ | ⟨point, rest₂, m, hpoint, rfl, hread⟩
  · rw [he]
    exact .inl ⟨e, rfl⟩
  rw [hread, ok_bind]
  simp only
  split
  · exact .inl ⟨_, rfl⟩
  rename_i hne
  have hnonempty : whole ≠ [] ∨ (point.map Fraction.digits).getD [] ≠ [] := by
    by_contra hnot
    rw [not_or, not_not, not_not] at hnot
    rw [hnot.1, hnot.2] at hne
    exact hne rfl
  -- a power that is too long fails at once, whatever stands behind it
  rcases readPower_spec (String.ofList (signChars sign ++ (whole ++ ((point.map Fraction.text).getD [] ++ rest₂))))
      rest₂ m with
    ⟨e, he⟩ | ⟨p, rest₃, hlong, hends, rfl, he⟩ | ⟨power, rest₃, k, hpower, rfl, hread⟩
  · rw [he]
    exact .inl ⟨e, rfl⟩
  · rw [he]
    have hl : Literal.WellFormed ⟨sign, whole, point, none, false⟩ :=
      ⟨hwhole, hpoint, fun _ h => absurd h (Option.not_mem_none _), hnonempty⟩
    refine .inr (.inl ⟨⟨_, p, rest₃, hl, rfl, hlong, hends, ?_⟩, rfl⟩)
    simp [Literal.unmarked, Literal.body]
  rw [hread, ok_bind]
  simp only
  split
  · exact .inl ⟨_, rfl⟩
  rename_i hrest
  obtain rfl : rest₃ = [] := by simpa using hrest
  rw [List.append_nil] at hmark
  refine .inr (.inr ⟨⟨sign, whole, point, power, approximate⟩, ⟨hwhole, hpoint, hpower, hnonempty⟩, hmark, ?_⟩)
  rw [List.append_nil]
  rfl

theorem readDigitsReal_of_hasLongPower {l : Literal} {p : Power} {cs rest : List Char} (hl : l.WellFormed)
    (hpower : l.power = none) (hp : p.IsLong) (hrest : EndsDigits rest)
    (hcs : (splitMark cs).1 = l.unmarked ++ (p.text ++ rest)) (negative : Bool) : readDigitsReal negative (signChars l.sign).length cs = .error .textValue := by
  have hunmarked : l.unmarked ++ (p.text ++ rest) =
      signChars l.sign ++ (l.whole ++ ((l.point.map Fraction.text).getD [] ++ (p.text ++ rest))) := by
    unfold Literal.unmarked Literal.body
    rw [hpower]
    simp
  have hne : p.digits ≠ [] := List.ne_nil_of_length_pos (Nat.zero_lt_of_lt hp.2)
  obtain ⟨m, hm⟩ := readDigitsReal_digits hl (Prod.ext (hcs.trans hunmarked) rfl) (p.head_text rest) negative
  obtain ⟨k, hk⟩ := readPower_append (String.ofList (splitMark cs).1) hp.1 hne hrest m
  rw [if_pos hp.2] at hk
  rw [hm, hk]
  rfl

theorem readReal_of_hasLongPower {text : String} (h : HasLongPower (trim text.toList)) :
    readReal text = .error .textValue := by
  obtain ⟨l, p, rest, hl, hpower, hp, hrest, hcs⟩ := h
  obtain ⟨d, body, hbody, hd⟩ := hl.head_body
  have hsplit := splitMark_spec (trim text.toList)
  rw [hcs, Literal.unmarked, hbody] at hsplit
  simp only [List.append_assoc, List.cons_append] at hsplit
  rw [readReal_of_digit hsplit hd]
  exact readDigitsReal_of_hasLongPower hl hpower hp hrest hcs _

/-- A real is a special word, malformed, one with a power that is too long, or a literal. -/
theorem readReal_spec (text : String) :
    (∃ x, IsSpecial (trim text.toList) x) ∨ (∃ e, readReal text = .error (.malformed e)) ∨
    (HasLongPower (trim text.toList) ∧ readReal text = .error .textValue) ∨
    ∃ l : Literal, l.WellFormed ∧ trim text.toList = l.text ∧ readReal text = l.denoted := by
  obtain ⟨sign, rest, hcs, hsign⟩ := sign_spec (trim text.toList)
  have hword : ∀ w : List Char, String.ofList (lowerAll rest) = String.ofList w → (∀ l ∈ w, l.isLower = true ∧ l ≠ 'k') →
      InAnyCase w rest := fun w hw hletters => (lowerAll_eq_iff hletters rest).1 (by simpa using congrArg String.toList hw)
  unfold readReal
  simp only [hsign]
  split
  · rename_i heq
    exact .inl ⟨_, by rw [hcs]; exact .intro sign (.nan (hword ['n', 'a', 'n'] heq (by simp)))⟩
  · rename_i heq
    exact .inl ⟨_, by rw [hcs]; exact .intro sign (.inf (hword ['i', 'n', 'f'] heq (by simp)))⟩
  · rename_i heq
    exact .inl ⟨_, by rw [hcs]; exact .intro sign (.infinity (hword ['i', 'n', 'f', 'i', 'n', 'i', 't', 'y'] heq (by simp)))⟩
  · exact .inr (readDigitsReal_spec hcs)

/-- What the numeric channel does not report about a trimmed real literal: a power that is too long, a
decimal out of range, or a repeating value that terminates with a decimal out of range. -/
inductive RealFault (cs : List Char) : Failure → Prop
  | power (h : HasLongPower cs) : RealFault cs .textValue
  | range {l : Literal} (hl : l.WellFormed) (h : cs = l.text) (hcycle : l.cycle? = none)
      (hrange : Decimal.inRange
        ⟨l.negative, Digits.toNat (l.whole ++ l.fraction), l.exponent - l.fraction.length⟩ = false) :
      RealFault cs .decimalRange
  | cycle {l : Literal} {cycle : List Char} {f : Failure} (hl : l.WellFormed) (h : cs = l.text)
      (hcycle : l.cycle? = some cycle) (happroximate : l.approximate = false)
      (hexponent : l.exponent.natAbs ≤ maxCycleExponent)
      (hrat : Real.ofRat
        (Expansion.value l.negative (Digits.toNat l.whole) l.fraction cycle * tenTo l.exponent) = .error f) :
      RealFault cs f

theorem code?_of_isRange {f : Failure} (h : f.isRange = true) : f.code? = none := by
  cases f <;> first | rfl | cases h

theorem RealFault.code? {cs : List Char} {f : Failure} (h : RealFault cs f) : f.code? = none := by
  cases h with
  | power => rfl
  | range => rfl
  | cycle _ _ _ _ _ hrat => exact code?_of_isRange (Real.ofRat_range _ _ hrat)

theorem denoted_fault {l : Literal} {cs : List Char} {f : Failure} (hl : l.WellFormed) (hcs : cs = l.text)
    (h : l.denoted = .error f) (hf : f.code? = none) : RealFault cs f := by
  unfold Literal.denoted realOfParts at h
  split at h
  · rename_i cycle hcycle
    split at h
    · obtain rfl := Except.error.inj h
      cases hf
    rename_i happroximate
    split at h
    · obtain rfl := Except.error.inj h
      cases hf
    rename_i hexponent
    exact .cycle hl hcs hcycle (by simpa using happroximate) (not_lt.1 hexponent) h
  · rename_i hcycle
    simp only at h
    split at h
    · rename_i hrange
      obtain rfl := Except.error.inj h
      exact .range hl hcs hcycle (by simpa using hrange)
    · cases h

theorem readReal_of_fault {text : String} {f : Failure} (h : RealFault (trim text.toList) f) :
    readReal text = .error f := by
  cases h with
  | power h => exact readReal_of_hasLongPower h
  | range hl hcs hcycle hrange =>
    rw [readReal_of_trim hl hcs]
    unfold realOfParts
    rw [hcycle]
    simp only
    rw [if_pos (by simpa using hrange)]
  | cycle hl hcs hcycle happroximate hexponent hrat =>
    rw [readReal_of_trim hl hcs]
    unfold realOfParts
    rw [hcycle, happroximate]
    simp only
    rw [if_neg Bool.false_ne_true, if_neg (not_lt.2 hexponent)]
    exact hrat

/-- A real literal fails outside the numeric channel exactly on a fault. -/
theorem readReal_eq_error_iff {text : String} {f : Failure} :
    readReal text = .error f ∧ f.code? = none ↔ RealFault (trim text.toList) f := by
  constructor
  · rintro ⟨h, hf⟩
    rcases readReal_spec text with ⟨x, hx⟩ | ⟨e, he⟩ | ⟨hlong, he⟩ | ⟨l, hl, hcs, heq⟩
    · rw [readReal_of_isSpecial hx] at h
      cases h
    · rw [he] at h
      obtain rfl := Except.error.inj h
      cases hf
    · rw [he] at h
      obtain rfl := Except.error.inj h
      exact .power hlong
    · exact denoted_fault hl hcs (heq ▸ h) hf
  · exact fun h => ⟨readReal_of_fault h, h.code?⟩

/-! ## Complex numbers -/

/-- The text ends with the imaginary unit. -/
def EndsWithUnit (cs : List Char) : Prop := cs.getLast? = some 'i' ∨ cs.getLast? = some 'I'

/-- What the numeric channel does not report about a trimmed literal: a fault of a real, or of one part
of a complex number. The imaginary part is read only if the real part can be. -/
inductive ScalarFault (cs : List Char) (f : Failure) : Prop
  | real (hunit : ¬ EndsWithUnit cs) (h : RealFault cs f)
  | realPart {re im : List Char} (hunit : EndsWithUnit cs) (hsplit : splitComplex (trim cs.dropLast) = (some re, im))
      (h : RealFault (trim re) f)
  | coefficient {re : Option (List Char)} {im : List Char} (hunit : EndsWithUnit cs)
      (hsplit : splitComplex (trim cs.dropLast) = (re, im)) (hre : ∀ cs ∈ re, ∃ x, readReal (String.ofList cs) = .ok x)
      (h : RealFault (trim (im.filter (· != ' '))) f)

theorem readReal_ofList_iff {cs : List Char} {f : Failure} :
    readReal (String.ofList cs) = .error f ∧ f.code? = none ↔ RealFault (trim cs) f := by
  rw [readReal_eq_error_iff, String.toList_ofList]

theorem not_realFault_of_malformed (cs : List Char) {e : Malformed}
    (h : readReal (String.ofList cs) = .error (.malformed e)) (f : Failure) : ¬ RealFault (trim cs) f := by
  rw [← readReal_ofList_iff, h]
  rintro ⟨heq, hf⟩
  obtain rfl := Except.error.inj heq
  cases hf

theorem readCoefficient_iff {cs : List Char} {f : Failure} :
    readCoefficient (String.ofList cs) = .error f ∧ f.code? = none ↔ RealFault (trim cs) f := by
  have hword : ∀ w : String, String.ofList cs = w → cs = w.toList := fun w hw => by rw [← hw, String.toList_ofList]
  have hnone : ∀ {x : Real}, (.ok x : Outcome Real) = .error f ∧ f.code? = none ↔ False :=
    iff_false_intro fun h => nomatch h.1
  unfold readCoefficient
  split
  · rename_i heq
    rw [hnone, hword _ heq]
    exact iff_of_false id (not_realFault_of_malformed [] rfl f)
  · rename_i heq
    rw [hnone, hword _ heq]
    exact iff_of_false id (not_realFault_of_malformed ['+'] rfl f)
  · rename_i heq
    rw [hnone, hword _ heq]
    exact iff_of_false id (not_realFault_of_malformed ['-'] rfl f)
  · exact readReal_ofList_iff

/-- The parts of a complex number, one after the other. -/
def readParts (re : Option (List Char)) (im : List Char) : Outcome Scalar := do
  let re ← match re with
    | some re => readReal (String.ofList re)
    | none => .ok .zero
  let im ← readCoefficient (String.ofList (im.filter (· != ' ')))
  .ok (.complex re im)

theorem readParts_iff {re : Option (List Char)} {im : List Char} {f : Failure} :
    readParts re im = .error f ∧ f.code? = none ↔ (∃ cs ∈ re, RealFault (trim cs) f) ∨
      (∀ cs ∈ re, ∃ x, readReal (String.ofList cs) = .ok x) ∧ RealFault (trim (im.filter (· != ' '))) f := by
  rw [← readCoefficient_iff]
  have hcomplex : ∀ x : Real,
      (readCoefficient (String.ofList (im.filter (· != ' '))) >>= fun y => .ok (Scalar.complex x y)) = .error f ↔
        readCoefficient (String.ofList (im.filter (· != ' '))) = .error f :=
    fun x => bind_eq_error.trans (or_iff_left fun ⟨_, _, h⟩ => nomatch h)
  unfold readParts
  rcases re with _ | re
  · simp only [ok_bind, hcomplex, Option.mem_def, reduceCtorEq, false_and, exists_false, false_or, IsEmpty.forall_iff,
      implies_true, true_and]
  · simp only [Option.mem_def, Option.some.injEq, exists_eq_left', forall_eq', ← readReal_ofList_iff]
    rw [bind_eq_error]
    simp only [hcomplex, exists_and_right, or_and_right, and_assoc]

theorem readScalar_eq (text : String) :
    readScalar text = if (trim text.toList).isEmpty then malformed .emptyFloat
      else if (trim text.toList).getLast? == some 'i' || (trim text.toList).getLast? == some 'I' then
        readParts (splitComplex (trim (trim text.toList).dropLast)).1 (splitComplex (trim (trim text.toList).dropLast)).2
      else (readReal (String.ofList (trim text.toList))).map .real :=
  rfl

/-- A scalar literal fails outside the numeric channel exactly on a fault. -/
theorem readScalar_eq_error_iff {text : String} {f : Failure} :
    readScalar text = .error f ∧ f.code? = none ↔ ScalarFault (trim text.toList) f := by
  rw [readScalar_eq]
  simp only [Bool.or_eq_true, beq_iff_eq]
  split
  · rename_i hempty
    rw [List.isEmpty_iff] at hempty
    rw [hempty]
    refine iff_of_false ?_ ?_
    · rintro ⟨h, hf⟩
      obtain rfl := Except.error.inj h
      cases hf
    · rintro (⟨-, h⟩ | ⟨h | h, -⟩ | ⟨h | h, -⟩)
      · exact not_realFault_of_malformed [] rfl f h
      all_goals cases h
  split
  · rename_i hunit
    rw [readParts_iff]
    constructor
    · rintro (⟨re, hre, h⟩ | ⟨hre, h⟩)
      · exact .realPart hunit (Prod.ext hre rfl) h
      · exact .coefficient hunit rfl hre h
    · rintro (⟨hnot, -⟩ | ⟨-, hsplit, h⟩ | ⟨-, hsplit, hre, h⟩)
      · exact absurd hunit hnot
      · rw [hsplit]
        exact .inl ⟨_, rfl, h⟩
      · rw [hsplit]
        exact .inr ⟨hre, h⟩
  · rename_i hunit
    rw [map_eq_error, readReal_ofList_iff, trim_trim]
    constructor
    · exact .real hunit
    · rintro (⟨-, h⟩ | ⟨h, -⟩ | ⟨h, -⟩)
      · exact h
      · exact absurd h hunit
      · exact absurd h hunit

/-- The lenient reading of a scalar fails on the faults of literals, and on nothing else. -/
theorem readScalarOrNaN_eq_error_iff {text : String} {f : Failure} :
    readScalarOrNaN text = .error f ↔ ScalarFault (trim text.toList) f := by
  rw [← readScalar_eq_error_iff]
  unfold readScalarOrNaN
  have hcode : ∀ {e : Failure}, e.code? ≠ none → ¬ ((.error e : Outcome Scalar) = .error f ∧ f.code? = none) := by
    rintro e he ⟨h, hf⟩
    obtain rfl := Except.error.inj h
    exact he hf
  cases h : readScalar text with
  | ok z => exact iff_of_false nofun fun h => nomatch h.1
  | error e =>
    cases e with
    | numeric n => exact iff_of_false nofun (hcode nofun)
    | malformed m => exact iff_of_false nofun (hcode nofun)
    | _ => exact (and_iff_left_of_imp fun h => by cases h; rfl).symm

/-- The lenient readers fail exactly on these texts; all other texts have a value. -/
theorem lenient_failures (text : String) (f : Failure) :
    (readIntegerOrZero text = .error f ↔ f = .mismatch ∧ HasDottedDigit (trim text.toList)) ∧
    (readScalarOrNaN text = .error f ↔ ScalarFault (trim text.toList) f) :=
  ⟨readIntegerOrZero_eq_error_iff, readScalarOrNaN_eq_error_iff⟩

/-- The three ways in which the lenient readers fail: a digit that cannot be looked up, a number that
no decimal holds, and an exponent with too many digits. -/
theorem lenient_failures_occur :
    readIntegerOrZero "0x\u0130" = .error .mismatch ∧
    readScalarOrNaN "1e1000000000000000000" = .error .decimalRange ∧
    readScalarOrNaN (String.ofList ('1' :: 'e' :: List.replicate 4301 '1')) = .error .textValue := by
  refine ⟨?_, ?_, ?_⟩
  · exact readIntegerOrZero_eq_error_iff.2 ⟨rfl, none, ['0', 'x'], [dottedI], 16, rfl, rfl, rfl, [], [], rfl, nofun⟩
  · decide +kernel
  -- too long to be decided, the text is taken apart by its characters
  · have hones : ∀ c ∈ List.replicate 4301 '1', c = '1' := fun c hc => List.eq_of_mem_replicate hc
    have hmem : ∀ c ∈ '1' :: 'e' :: List.replicate 4301 '1', c = '1' ∨ c = 'e' := by
      simp only [List.mem_cons]
      rintro c (rfl | rfl | hc)
      · exact .inl rfl
      · exact .inr rfl
      · exact .inl (hones c hc)
    have htrim : trim ('1' :: 'e' :: List.replicate 4301 '1') = '1' :: 'e' :: List.replicate 4301 '1' :=
      trim_of_not_blank fun c hc => by rcases hmem c hc with rfl | rfl <;> rfl
    have hmark : splitMark ('1' :: 'e' :: List.replicate 4301 '1') = ('1' :: 'e' :: List.replicate 4301 '1', false) :=
      if_neg fun h => absurd (hmem '.' ((List.isSuffixOf_iff_suffix.1 h).mem (by decide))) (by decide)
    have hlast : ('1' :: 'e' :: List.replicate 4301 '1').getLast? = some '1' := by
      rw [List.getLast?_cons_cons, List.getLast?_cons, List.getLast?_replicate]
      rfl
    rw [readScalarOrNaN_eq_error_iff, String.toList_ofList, htrim]
    refine .real (by rintro (h | h) <;> rw [hlast] at h <;> cases h) (.power ?_)
    refine ⟨⟨none, ['1'], none, none, false⟩, ⟨false, none, List.replicate 4301 '1'⟩, [], ?_, rfl, ⟨?_, ?_⟩, nofun, ?_⟩
    · refine ⟨fun c hc => ?_, nofun, nofun, .inl (List.cons_ne_nil _ _)⟩
      rw [List.mem_singleton.1 hc]
      rfl
    · intro c hc
      rw [hones c hc]
      rfl
    · rw [List.length_replicate]
      decide
    · rw [hmark, Power.text, List.append_nil]
      rfl

end Reckon.Notation
