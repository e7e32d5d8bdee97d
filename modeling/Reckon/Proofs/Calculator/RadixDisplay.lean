/-
What the calculator shows of an integer in a radix. The mark in front of the digits makes the text a
literal of that radix, and its sign is a minus before an operand, so the text is an expression for the
integer.
-/
import Reckon.Proofs.Calculator.Arrangement
import Reckon.Proofs.Notation.Radix

namespace Reckon.Calculator

open Reckon.Outcome Reckon.Text Reckon.Notation

/-! ## Names -/

theorem mem_dropWhile {p : Char → Bool} {c : Char} (hc : p c = false) {cs : List Char} (h : c ∈ cs) :
    c ∈ cs.dropWhile p := by
  induction cs with
  | nil => exact h
  | cons d cs ih =>
    rw [List.dropWhile_cons]
    split
    · rename_i hd
      rcases List.mem_cons.1 h with rfl | h
      · rw [hc] at hd
        cases hd
      · exact ih h
    · exact h

theorem mem_trim {c : Char} (hc : isBlank c = false) {cs : List Char} (h : c ∈ cs) : c ∈ trim cs := by
  rw [trim, List.mem_reverse]
  exact mem_dropWhile hc (List.mem_reverse.2 (mem_dropWhile hc h))

/-- No name has a bracket. The tables are searched as lists, which the kernel does faster. -/
theorem isName_of_mem_bracket {cs : List Char} (h : '(' ∈ cs) : isName cs = false := by
  have hstart : inRanges nameStartRanges '(' = false := by
    rw [inRanges, ← Array.any_toList]
    decide +kernel
  have hpart : inRanges namePartRanges '(' = false := by
    rw [inRanges, ← Array.any_toList]
    decide +kernel
  cases cs with
  | nil => rfl
  | cons c cs =>
    rw [isName, Bool.and_eq_false_iff]
    rcases List.mem_cons.1 h with rfl | h
    · exact .inl hstart
    · refine .inr (List.all_eq_false.2 ⟨_, h, ?_⟩)
      rw [hpart]
      exact Bool.false_ne_true

namespace Session

/-! ## Displays -/

/-- What the displays in a radix have in common: a command of letters, a radix whose digits have signs,
and a mark of a zero and a letter. -/
structure RadixDisplay.WellFormed (r : RadixDisplay) : Prop where
  command : ∀ c ∈ r.command.toList, c ≠ '=' ∧ isBlank c = false
  radix : 2 ≤ r.radix ∧ r.radix ≤ 36
  mark : ∃ m, r.mark.toList = ['0', m] ∧ isRadixMark m = true

theorem wellFormed_of_mem {r : RadixDisplay} (h : r ∈ radixDisplays) : r.WellFormed := by
  simp only [radixDisplays, List.mem_cons, List.not_mem_nil, or_false] at h
  rcases h with rfl | rfl | rfl <;> exact ⟨by simp; decide, by decide, _, rfl, rfl⟩

/-! ## The answer to a line -/

/-- A text with a bracket before its first equals sign is no assignment. -/
theorem splitAssignment_of_bracket {opening : List Char} (hopening : ∀ c ∈ opening, c ≠ '=') (rest : List Char) :
    splitAssignment (String.ofList (opening ++ '(' :: rest)) = none := by
  have hmem : '(' ∈ trim ((opening ++ '(' :: rest).takeWhile (· != '=')) := by
    refine mem_trim (by decide) ?_
    rw [List.takeWhile_append_of_pos (by simpa using hopening), List.takeWhile_cons_of_pos (by decide)]
    simp
  unfold splitAssignment
  simp only [String.toList_ofList]
  split
  · refine if_pos ?_
    rw [isName_of_mem_bracket hmem]
    simp
  · rfl

theorem argument?_of_command (command e : String) : argument? command (command ++ "(" ++ e ++ ")") = some e := by
  have hlast : (command.toList ++ '(' :: (e.toList ++ [')'])).getLast? = some ')' := by
    rw [← List.cons_append, ← List.append_assoc, List.getLast?_concat]
  unfold argument?
  simp [hlast]

theorem argument?_of_ne (command other : String) (h : command.length = other.length) (hne : command ≠ other) (e : String) :
    argument? command (other ++ "(" ++ e ++ ")") = none := by
  have hlength : command.toList.length = other.toList.length := h
  have hopens : ¬ (command.toList ++ ['(']) <+: other.toList ++ '(' :: (e.toList ++ [')']) := by
    rintro ⟨rest, hrest⟩
    rw [List.append_assoc] at hrest
    exact hne (String.toList_injective (List.append_inj hrest hlength).1)
  unfold argument?
  simp [hopens]

/-- The line of a display in a radix is answered by this display. -/
theorem display?_of_mem {r : RadixDisplay} (hr : r ∈ radixDisplays) (s : Session) (e : String) :
    s.display? (r.command ++ "(" ++ e ++ ")") = some (s.evaluate e >>= r.text) := by
  have hown := argument?_of_command r.command e
  have hfind : radixDisplays.findSome? (fun r' => (argument? r'.command (r.command ++ "(" ++ e ++ ")")).map fun e => (r', e)) =
      some (r, e) := by
    have hcases := hr
    simp only [radixDisplays, List.mem_cons, List.not_mem_nil, or_false] at hcases
    rcases hcases with rfl | rfl | rfl
    · simp only [radixDisplays, List.findSome?_cons, hown, Option.map_some]
    · simp only [radixDisplays, List.findSome?_cons, hown, Option.map_some, Option.map_none,
        argument?_of_ne "hex" "bin" rfl (by decide)]
    · simp only [radixDisplays, List.findSome?_cons, hown, Option.map_some, Option.map_none,
        argument?_of_ne "hex" "oct" rfl (by decide),
        argument?_of_ne "bin" "oct" rfl (by decide)]
  unfold display?
  rw [hfind]

/-- A line of the form of a display in a radix is answered by this display, and nothing is assigned. -/
theorem execute_of_mem {r : RadixDisplay} (hr : r ∈ radixDisplays) (s : Session) (e : String) :
    s.execute (r.command ++ "(" ++ e ++ ")") = (s, (reported (s.evaluate e >>= r.text)).map some) := by
  have hcommand := (wellFormed_of_mem hr).command
  have hcs : (r.command ++ "(" ++ e ++ ")").toList = r.command.toList ++ '(' :: (e.toList ++ [')']) := by simp
  have hlast : (r.command ++ "(" ++ e ++ ")").toList.getLast? = some ')' := by
    rw [hcs, ← List.cons_append, ← List.append_assoc, List.getLast?_concat]
  have htrim : String.ofList (trim (r.command ++ "(" ++ e ++ ")").toList) = r.command ++ "(" ++ e ++ ")" := by
    rw [trim_of_ends, String.ofList_toList]
    · intro c hc
      rw [hcs, List.append_cons, List.head?_append_of_ne_nil _ (by simp)] at hc
      rcases List.mem_append.1 (List.mem_of_mem_head? hc) with hc | hc
      · exact (hcommand c hc).2
      · exact List.mem_singleton.1 hc ▸ by decide
    · rw [hlast]
      exact fun c hc => Option.some.inj hc ▸ by decide
  have hassignment : splitAssignment (r.command ++ "(" ++ e ++ ")") = none := by
    have := splitAssignment_of_bracket (fun c hc => (hcommand c hc).1) (e.toList ++ [')'])
    rwa [← hcs, String.ofList_toList] at this
  have hcalculate : s.calculate (r.command ++ "(" ++ e ++ ")") = (s, s.evaluate e >>= r.text) := by
    rw [calculate, hassignment]
    simp only
    rw [display?_of_mem hr]
  unfold execute
  rw [htrim]
  split
  case h_1 heq | h_2 heq | h_3 heq | h_4 heq | h_5 heq =>
    rw [heq] at hlast
    cases hlast
  · rw [hcalculate]

/-! ## The shown text -/

theorem text_integer {r : RadixDisplay} (hr : r ∈ radixDisplays) (n : Integer) : r.text (.integer n) =
    .ok (signText (n.value < 0) ++ r.mark ++
      String.ofList ((writtenDigits r.radix.toNat n.value.natAbs).map radixDigit)) := by
  simp only [RadixDisplay.text]
  rw [toRadix_eq (wellFormed_of_mem hr).radix, ok_bind, Int.natAbs_natCast]
  simp [signText]

theorem readHex_of_spellsDigits {text : String} {body : List Char} {digits : List Nat} (htext : text.toList = ['0', 'x'] ++ body)
    (hne : digits ≠ []) (h : SpellsDigits 16 body digits) : readHex text = .ok (Nat.ofDigits 16 digits.reverse : Nat) := by
  have htrim : trim text.toList = signChars none ++ (['0', 'x'] ++ body) := by
    rw [htext]
    refine trim_of_not_blank fun c hc => ?_
    rcases List.mem_append.1 hc with hc | hc
    · rcases List.mem_cons.1 hc with rfl | hc
      · rfl
      · exact List.mem_singleton.1 hc ▸ rfl
    · exact h.not_blank (by decide) c hc
  have hzero : ∀ c ∈ (['0', 'x'] ++ body).head?, c ≠ '-' ∧ c ≠ '+' := by simp
  have hsign := sign_append (s := none) hzero 0
  unfold readHex
  simp only [htrim, cursorAt, List.drop_zero, hsign]
  rw [if_pos (by rfl), show (['0', 'x'] ++ body).drop 2 = body from rfl,
    (radixNumber_eq_ok_iff (by decide)).2 ⟨digits, hne, h, rfl⟩]
  rfl

section Marked

variable {r : RadixDisplay} (hr : r ∈ radixDisplays) {digits : List Nat} (hlt : ∀ d ∈ digits, d < r.radix.toNat)

include hr hlt

theorem spellsDigits_radix : SpellsDigits r.radix.toNat (digits.map radixDigit) digits :=
  have := (wellFormed_of_mem hr).radix
  spellsDigits_map (by omega) hlt

/-- Digits behind the mark of their radix are a literal. -/
theorem literal_marked (hne : digits ≠ []) : literal (r.mark ++ String.ofList (digits.map radixDigit)) =
    .ok (.ofInt (Nat.ofDigits r.radix.toNat digits.reverse : Nat)) := by
  have hspells := spellsDigits_radix hr hlt
  have hradix := (wellFormed_of_mem hr).radix
  have hblank := hspells.not_blank (by omega)
  have hdigits : trim (String.ofList (digits.map radixDigit)).toList = signChars none ++ digits.map radixDigit := by
    rw [String.toList_ofList]
    exact trim_of_not_blank hblank
  have hread := readRadix_of_spellsDigits hradix hdigits hne hspells
  have htext : ∀ m : String, (m ++ String.ofList (digits.map radixDigit)).toList = m.toList ++ digits.map radixDigit := by
    simp
  unfold literal
  rw [htext]
  simp only [radixDisplays, List.mem_cons, List.not_mem_nil, or_false] at hr
  rcases hr with rfl | rfl | rfl
  · change (readHex _).map Number.ofInt = _
    rw [readHex_of_spellsDigits (htext "0x") hne hspells]
    rfl
  · change (readRadix (String.ofList (digits.map radixDigit)) 2).map Number.ofInt = _
    rw [hread]
    rfl
  · change (readRadix (String.ofList (digits.map radixDigit)) 8).map Number.ofInt = _
    rw [hread]
    rfl

omit hr in
theorem takeWhile_digits (hradix : r.radix ≤ 36) :
    (digits.map radixDigit).takeWhile isWordPart = digits.map radixDigit := by
  have hword : ∀ d < 36, isWordPart (radixDigit d) = true := by decide
  refine List.takeWhile_eq_self_iff.2 fun c hc => ?_
  obtain ⟨d, hd, rfl⟩ := List.mem_map.1 hc
  exact hword d (by have := hlt d hd; omega)

theorem lexemesFrom_marked (i : Nat) : lexemesFrom i (r.mark.toList ++ digits.map radixDigit) =
    .ok [r.mark ++ String.ofList (digits.map radixDigit)] := by
  obtain ⟨m, hmark, hm⟩ := (wellFormed_of_mem hr).mark
  have hdigits := takeWhile_digits hlt (wellFormed_of_mem hr).radix.2
  have hpair : isPair '0' m = false := by
    rw [isPair, Bool.and_eq_false_iff]
    exact .inr (by decide)
  have htail : lexemeTail '0' (m :: digits.map radixDigit) = some (digits.length + 1) := by
    rw [lexemeTail, List.head?_cons, Option.any_some, hpair, if_neg Bool.false_ne_true, if_neg (by decide),
      if_pos (by decide), numberLength, if_pos hm, hdigits, List.length_map]
    congr 1
    omega
  rw [hmark, List.cons_append, List.cons_append, List.nil_append, lexemesFrom, if_neg (by decide), htail]
  simp only
  rw [List.drop_eq_nil_of_le (by simp), List.take_of_length_le (by simp), lexemesFrom]
  rw [ok_bind]
  congr 2
  apply String.toList_injective
  simp [hmark]

omit hlt in
theorem ofLexeme_marked : Token.ofLexeme (r.mark ++ String.ofList (digits.map radixDigit)) =
    .literal (r.mark ++ String.ofList (digits.map radixDigit)) := by
  obtain ⟨m, hmark, hm⟩ := (wellFormed_of_mem hr).mark
  have hhead : (r.mark ++ String.ofList (digits.map radixDigit)).toList.head? = some '0' := by simp [hmark]
  have hne : ∀ {t : String}, t.toList.head? ≠ some '0' → r.mark ++ String.ofList (digits.map radixDigit) ≠ t := by
    rintro t ht rfl
    exact ht hhead
  rw [ofLexeme_of_ne_sign (hne (by decide)) (fun op => hne (by cases op <;> decide)) ⟨hne (by decide), hne (by decide)⟩
    (hne (by decide)), hhead]
  rfl

end Marked

theorem run_literal {lookup : Item → Outcome Number} {t : String} {x : Number} (h : lookup (.literal t) = .ok x) :
    run lookup [.literal t] = .ok x := by
  simp only [run, List.foldlM_cons, step, h]
  rfl

theorem run_negated {lookup : Item → Outcome Number} {t : String} {x : Number} (h : lookup (.literal t) = .ok x) :
    run lookup [.literal t, .negate] = .ok x.neg := by
  simp only [run, List.foldlM_cons, step, h]
  rfl

/-- What is shown of an integer is an expression for it, whatever the session. -/
theorem evaluate_marked {r : RadixDisplay} (hr : r ∈ radixDisplays) (s : Session) (n : ℤ) :
    s.evaluate (signText (n < 0) ++ r.mark ++ String.ofList ((writtenDigits r.radix.toNat n.natAbs).map radixDigit)) =
      .ok (.ofInt n) := by
  have hradix := (wellFormed_of_mem hr).radix
  have hlt : ∀ d ∈ writtenDigits r.radix.toNat n.natAbs, d < r.radix.toNat := writtenDigits_lt (by omega) _
  have hliteral := literal_marked hr hlt (writtenDigits_ne_nil _)
  rw [ofDigits_writtenDigits] at hliteral
  have hlexemes := lexemesFrom_marked hr hlt
  have htoken := @ofLexeme_marked r hr (writtenDigits r.radix.toNat n.natAbs)
  unfold evaluate lexemes
  generalize writtenDigits r.radix.toNat n.natAbs = digits at hliteral hlexemes htoken ⊢
  -- the sign of a negative number is a token of its own
  by_cases hn : n < 0
  · have htext : (signText (n < 0) ++ r.mark ++ String.ofList (digits.map radixDigit)).toList =
        '-' :: (r.mark.toList ++ digits.map radixDigit) := by simp [signText, hn]
    obtain ⟨m, hmark, -⟩ := (wellFormed_of_mem hr).mark
    have htail : lexemeTail '-' (r.mark.toList ++ digits.map radixDigit) = some 0 := by
      rw [hmark]
      rfl
    rw [htext, lexemesFrom, if_neg (by decide), htail]
    simp only [List.drop_zero, List.take_zero, hlexemes, ok_bind, List.map_cons, List.map_nil, htoken]
    refine (run_negated hliteral).trans ?_
    change Except.ok (Number.ofInt (-(n.natAbs : ℤ))) = _
    rw [show -(n.natAbs : ℤ) = n by omega]
  · have htext : (signText (n < 0) ++ r.mark ++ String.ofList (digits.map radixDigit)).toList =
        r.mark.toList ++ digits.map radixDigit := by simp [signText, hn]
    rw [htext, hlexemes, ok_bind, List.map_singleton, htoken]
    refine (run_literal hliteral).trans ?_
    rw [show (n.natAbs : ℤ) = n by omega]

/-- The text of an integer in a radix is read as the integer, also with underscores around its digits and
with capital letters. A text that is read in a radix is written again without blanks, underscores, plus
sign and leading zeros, in lower case. What the calculator shows for the displays in a radix is an
expression for the integer that was shown. -/
theorem radix_texts_round_trip :
    (∀ n radix : ℤ, 2 ≤ radix ∧ radix ≤ 36 → ∃ digits,
      toRadix n radix = .ok (signText (n < 0) ++ String.ofList digits) ∧
      readRadix (signText (n < 0) ++ String.ofList digits) radix = .ok n ∧
      ∀ body, lowerAll (body.filter (· != '_')) = digits →
        readRadix (signText (n < 0) ++ String.ofList body) radix = .ok n) ∧
    (∀ (text : String) (n radix : ℤ), 2 ≤ radix ∧ radix ≤ 36 → readRadix text radix = .ok n →
      toRadix n radix = .ok (plainRadix text)) ∧
    ∀ (s : Session) (r : RadixDisplay) (e : String) (n : Integer), r ∈ radixDisplays → s.evaluate e = .ok (.integer n) →
      ∃ text, s.execute (r.command ++ "(" ++ e ++ ")") = (s, .ok (some text)) ∧
        ∀ s' : Session, s'.evaluate text = .ok (.ofInt n.value) := by
  refine ⟨fun n radix hradix => ?_, fun text n radix hradix => toRadix_readRadix hradix, fun s r e n hr he => ?_⟩
  · have hlt : ∀ d ∈ writtenDigits radix.toNat n.natAbs, d < radix.toNat := writtenDigits_lt (by omega) _
    exact ⟨_, toRadix_eq hradix n, readRadix_toRadix hradix (spellsDigits_map (by omega) hlt),
      fun body hbody => readRadix_toRadix hradix ⟨hlt, hbody⟩⟩
  · refine ⟨_, ?_, fun s' => evaluate_marked hr s' n.value⟩
    rw [execute_of_mem hr, he, ok_bind, text_integer hr]
    rfl

/-- Two spellings of a negative integer, and its display. -/
theorem radix_texts_round_trip_minus_255 :
    readRadix "-f_F" 16 = .ok (-255) ∧
    toRadix (-255) 16 = .ok (plainRadix " -0_0Ff") ∧ plainRadix " -0_0Ff" = "-ff" ∧
    ∃ text, empty.execute "hex(0 - 255)" = (empty, .ok (some text)) ∧ empty.evaluate text = .ok (.ofInt (-255)) := by
  obtain ⟨hread, hwrite, hdisplay⟩ := radix_texts_round_trip
  refine ⟨?_, hwrite " -0_0Ff" (-255) 16 (by decide) (by with_unfolding_all decide), by with_unfolding_all decide, ?_⟩
  · obtain ⟨digits, htext, -, hbody⟩ := hread (-255) 16 (by decide)
    have hdigits : digits = ['f', 'f'] := by
      have hff : toRadix (-255) 16 = .ok "-ff" := by with_unfolding_all decide
      rw [hff] at htext
      simpa [signText] using (congrArg String.toList (Except.ok.inj htext)).symm
    exact hbody ['f', '_', 'F'] (hdigits ▸ by decide)
  · obtain ⟨text, htext, hevaluate⟩ := hdisplay empty ⟨"hex", 16, "0x", "Hexadecimal"⟩ "0 - 255" ⟨-255, none⟩
      (by simp [radixDisplays]) (by with_unfolding_all decide)
    exact ⟨text, htext, hevaluate empty⟩

end Session

end Reckon.Calculator
