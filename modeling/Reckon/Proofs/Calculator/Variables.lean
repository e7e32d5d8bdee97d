/-
Reading a value back. A name of ASCII letters, digits and underscores is one word of an expression, and a
word alone is the value of the name. The one exception is the word of the negation, which can be assigned
but not read.
-/
import Reckon.Proofs.Calculator.Arrangement
import Reckon.Proofs.Calculator.Effects
import Reckon.Proofs.Calculator.Relexing
import Reckon.Proofs.Notation.ComplexLiteral

namespace Reckon.Calculator

open Reckon.Outcome Reckon.Text Reckon.Notation

/-! ## Names of ASCII characters -/

/-- The text can name a variable and has ASCII characters only. -/
structure IsAsciiName (name : String) : Prop where
  isName : isName name.toList = true
  ascii : ∀ c ∈ name.toList, c.toNat < 128

/-- A statement about the ASCII characters of a table, for which only its first ranges count. -/
theorem ascii_table {ranges : Array (Nat × Nat)} (first : List (Nat × Nat)) {q : Char → Bool}
    (hfirst : ranges.toList.filter (·.1 < 128) = first)
    (h : ∀ n < 128, (first.any fun r => r.1 ≤ n && n ≤ r.2) = true → q (Char.ofNat n) = true) {c : Char}
    (hc : c.toNat < 128) (hin : inRanges ranges c = true) : q c = true := by
  rw [inRanges, ← Array.any_toList, List.any_eq_true] at hin
  obtain ⟨⟨lo, hi⟩, hmem, hrange⟩ := hin
  have hlow : lo ≤ c.toNat := of_decide_eq_true (Bool.and_eq_true_iff.1 hrange).1
  have hany := h c.toNat hc (List.any_eq_true.2 ⟨(lo, hi), hfirst ▸ List.mem_filter.2 ⟨hmem, ?_⟩, hrange⟩)
  · rwa [Char.ofNat_toNat] at hany
  · exact decide_eq_true (hlow.trans_lt hc)

theorem isWordStart_of_ascii {c : Char} (hc : c.toNat < 128) (h : inRanges nameStartRanges c = true) :
    isWordStart c = true :=
  ascii_table [(65, 90), (95, 95), (97, 122)] (by decide +kernel) (by decide +kernel) hc h

theorem isWordPart_of_ascii {c : Char} (hc : c.toNat < 128) (h : inRanges namePartRanges c = true) :
    isWordPart c = true :=
  ascii_table [(48, 57), (65, 90), (95, 95), (97, 122)] (by decide +kernel) (by decide +kernel) hc h

/-- A word of ASCII characters starts neither like a sign nor like a number. -/
theorem no_sign_of_ascii {c : Char} (hc : c.toNat < 128) (h : isWordStart c = true) :
    isSign c = false ∧ (isDigit c || c == '.') = false ∧ ['=', '!', '>', '<'].contains c = false := by
  have hall : ∀ n < 128, isWordStart (Char.ofNat n) = true → isSign (Char.ofNat n) = false ∧
      (isDigit (Char.ofNat n) || Char.ofNat n == '.') = false ∧ ['=', '!', '>', '<'].contains (Char.ofNat n) = false := by
    decide +kernel
  have hthis := hall c.toNat hc
  rw [Char.ofNat_toNat] at hthis
  exact hthis h

namespace IsAsciiName

variable {name : String}

/-- The characters of a name. -/
theorem exists_word (h : IsAsciiName name) : ∃ c cs, name.toList = c :: cs ∧ c.toNat < 128 ∧ isWordStart c = true ∧
    ∀ d ∈ cs, isWordPart d = true := by
  have hname := h.isName
  have hascii := h.ascii
  cases hcs : name.toList with
  | nil =>
    rw [hcs] at hname
    cases hname
  | cons c cs =>
    rw [hcs] at hname hascii
    obtain ⟨hc, hcs⟩ := List.forall_mem_cons.1 hascii
    rw [Text.isName, Bool.and_eq_true] at hname
    obtain ⟨hstart, hparts⟩ := hname
    exact ⟨c, cs, rfl, hc, isWordStart_of_ascii hc hstart,
      fun d hd => isWordPart_of_ascii (hcs d hd) (List.all_eq_true.1 hparts d hd)⟩

/-- A name is one lexeme. -/
theorem lexemes (h : IsAsciiName name) : lexemes name = .ok [name] := by
  obtain ⟨c, cs, hname, hc, hstart, hparts⟩ := h.exists_word
  obtain ⟨hsign, hnumber, hpair⟩ := no_sign_of_ascii hc hstart
  have hnopair : ¬ cs.head?.any (isPair c) = true := by
    cases cs with
    | nil => exact Bool.false_ne_true
    | cons d cs =>
      rw [List.head?_cons, Option.any_some, isPair, hpair, Bool.and_false]
      exact Bool.false_ne_true
  have htail : lexemeTail c cs = some cs.length := by
    rw [lexemeTail, if_neg hnopair, hsign, hnumber, hstart]
    simp only [Bool.false_eq_true, if_false, if_true]
    rw [List.takeWhile_eq_self_iff.2 hparts]
  have hlexeme := lexemes_of_lexemeTail (isBlank_of_isWordPart (isWordPart_of_isWordStart hstart)) htail
  rwa [List.take_length, ← hname, String.ofList_toList] at hlexeme

theorem ofLexeme (h : IsAsciiName name) : Token.ofLexeme name = .word name := by
  obtain ⟨c, cs, hname, -, hstart, -⟩ := h.exists_word
  refine ofLexeme_of_isWordStart ?_
  rw [hname]
  exact hstart

theorem isBlank (h : IsAsciiName name) : ∀ c ∈ name.toList, isBlank c = false := by
  obtain ⟨c, cs, hname, -, hstart, hparts⟩ := h.exists_word
  rw [hname]
  exact List.forall_mem_cons.2 ⟨isBlank_of_isWordPart (isWordPart_of_isWordStart hstart),
    fun d hd => isBlank_of_isWordPart (hparts d hd)⟩

theorem ne_equals (h : IsAsciiName name) : '=' ∉ name.toList := by
  obtain ⟨c, cs, hname, -, hstart, hparts⟩ := h.exists_word
  rw [hname]
  intro hmem
  rcases List.mem_cons.1 hmem with rfl | hmem
  · revert hstart
    decide
  · have hpart := hparts _ hmem
    revert hpart
    decide

end IsAsciiName

/-! ## Reading a name -/

namespace Session

variable {s : Session} {name : String}

/-- A name alone stands for its value, and the word of the negation lacks its operand. -/
theorem evaluate_name (h : IsAsciiName name) {x : Number} (hx : s.value? name = some x) :
    s.evaluate name = if name = negationWord then fail (.missingOperand "-") else .ok x := by
  have harrange : arrange [.word name] = .ok [.ofWord name] := rfl
  have hevaluate : s.evaluate name = run s.operand [.ofWord name] := by
    rw [evaluate, h.lexemes, ok_bind, List.map_singleton, h.ofLexeme, harrange, ok_bind]
  rw [hevaluate, Item.ofWord]
  split
  · rfl
  · have hoperand : s.operand (.name name) = .ok x := by
      simp only [operand, hx]
    simp only [run, List.foldlM_cons, step, hoperand]
    rfl

/-! ## Assigning a name -/

/-- The line without its blanks: the name, the equals sign and what remains of the expression. -/
theorem exists_trim_line (h : IsAsciiName name) (e : String) : ∃ rest blanks, IsBlanks blanks ∧
    ' ' :: e.toList = rest ++ blanks ∧ trim (name ++ " = " ++ e).toList = name.toList ++ [' ', '='] ++ rest := by
  have hline : (name ++ " = " ++ e).toList = name.toList ++ [' ', '='] ++ ' ' :: e.toList := by simp
  have hhead : ∀ c ∈ (name ++ " = " ++ e).toList.head?, isBlank c = false := by
    obtain ⟨c, cs, hname, -⟩ := h.exists_word
    rw [hline, hname]
    rintro _ ⟨⟩
    exact h.isBlank c (hname ▸ List.mem_cons_self)
  obtain ⟨blanks, hblanks, hall⟩ := exists_trim_append hhead
  rw [hline] at hblanks ⊢
  rcases List.append_eq_append_iff.1 hblanks with ⟨a, htrim, hrest⟩ | ⟨a, hfront, hsuffix⟩
  · exact ⟨a, blanks, hall, hrest, htrim⟩
  · -- the equals sign is not blank, so nothing of it was cut off
    obtain rfl : a = [] := by
      by_contra hne
      have hlast := congrArg List.getLast? hfront
      rw [List.getLast?_append_of_ne_nil _ hne, List.getLast?_append_of_ne_nil _ (by simp)] at hlast
      have := hall '=' (hsuffix ▸ List.mem_append_left _ (List.mem_of_getLast? hlast.symm))
      revert this
      decide
    exact ⟨[], blanks, hall, hsuffix.symm, (List.append_nil _).symm.trans (hfront.symm.trans (List.append_nil _).symm)⟩

theorem isAssignment_of_trim (h : IsAsciiName name) {line : String} {c : Char} {after : List Char} (hc : c ≠ '=')
    (hline : trim line.toList = name.toList ++ [' ', '='] ++ c :: after) :
    IsAssignment (trim line.toList) name (String.ofList (trim (c :: after))) := by
  have hname : trim (name.toList ++ [' ']) = name.toList := by
    rw [trim_append_blanks _ (by simp [IsBlanks]; decide), trim_of_not_blank h.isBlank]
  have hassignment := @IsAssignment.mk (name.toList ++ [' ']) after c (by simpa using h.ne_equals)
    (by rw [List.getLast?_concat]; rintro _ ⟨⟩; decide) hc (by rw [hname]; exact h.isName)
  rw [hname, String.ofList_toList] at hassignment
  rw [hline]
  simpa using hassignment

theorem display?_of_getLast {line : String} (h : line.toList.getLast? ≠ some ')') : s.display? line = none := by
  have hargument : ∀ command, argument? command line = none := fun command => by
    unfold argument?
    simp [h]
  have hnone : radixDisplays.findSome? (fun r => (argument? r.command line).map fun e => (r, e)) = none :=
    List.findSome?_eq_none_iff.2 fun r _ => by rw [hargument, Option.map_none]
  unfold display?
  rw [hnone, hargument]
  rfl

/-- A name and an equals sign without an expression are refused. -/
theorem not_completes_of_trim (h : IsAsciiName name) {line : String}
    (hline : trim line.toList = name.toList ++ [' ', '=']) : ¬ Completes (s.execute line).2 := by
  have hfirst : ∀ d ∈ name.toList ++ [' '], (d != '=') = true := by
    intro d hd
    refine bne_iff_ne.2 ?_
    rintro rfl
    rcases List.mem_append.1 hd with hd | hd
    · exact h.ne_equals hd
    · revert hd
      decide
  -- nothing stands behind the equals sign, so the line is evaluated as it is
  have hcs : trim line.toList = (name.toList ++ [' ']) ++ ['='] := by rw [hline]; simp
  have hsplit : splitAssignment (String.ofList (trim line.toList)) = none := by
    have hdrop : (trim line.toList).dropWhile (· != '=') = ['='] := by
      rw [hcs, List.dropWhile_append_of_pos hfirst]
      rfl
    unfold splitAssignment
    simp only [String.toList_ofList, hdrop]
  have hdisplay : s.display? (String.ofList (trim line.toList)) = none :=
    display?_of_getLast (by rw [String.toList_ofList, hcs, List.getLast?_concat]; decide)
  obtain ⟨f, hf⟩ : ∃ f, s.evaluate (String.ofList (trim line.toList)) = .error f := by
    -- no token begins with an equals sign
    obtain ⟨i, hi⟩ := lexemesFrom_append h.lexemes 0 [' ', '='] (.inr rfl)
    have hequals : lexemesFrom i [' ', '='] = fail (.unexpectedCharacter '=' (i + 1)) := by
      rw [lexemesFrom, if_pos (by decide), lexemesFrom, if_neg (by decide)]
      rfl
    have hlexemes : Reckon.Calculator.lexemes (String.ofList (trim line.toList)) =
        fail (.unexpectedCharacter '=' (i + 1)) := by
      rw [Reckon.Calculator.lexemes, String.toList_ofList, hline, hi, hequals]
      rfl
    exact ⟨_, by rw [evaluate, hlexemes]; rfl⟩
  rw [execute_of_mem_equals (by rw [hline]; simp)]
  unfold calculate
  simp only [hsplit, hdisplay, hf]
  exact not_completes_reported f

/-- A line that assigns an expression to a name and succeeds stores the value of the expression, and the name
is read as this value, unless it is the word of the negation, which then lacks an operand. -/
theorem evaluate_assigned (s : Session) {name : String} (hname : IsAsciiName name) {e : String}
    (h : Completes (s.execute (name ++ " = " ++ e)).2) : ∃ x, s.evaluate (String.ofList (trim e.toList)) = .ok x ∧
      (s.execute (name ++ " = " ++ e)).1.value? name = some x ∧
      (s.execute (name ++ " = " ++ e)).1.evaluate name =
        if name = negationWord then fail (.missingOperand "-") else .ok x := by
  obtain ⟨rest, blanks, hblanks, hrest, hline⟩ := exists_trim_line hname e
  cases rest with
  | nil => exact absurd h (not_completes_of_trim hname (by rwa [List.append_nil] at hline))
  | cons c after =>
    obtain rfl : ' ' = c := (List.cons.inj hrest).1
    have htrim : trim (' ' :: after) = trim e.toList := by
      rw [← trim_append_blanks _ hblanks, ← hrest]
      rfl
    have hassignment := isAssignment_of_trim hname (by decide) hline
    rw [htrim] at hassignment
    obtain ⟨x, hx, hupdate⟩ := (s.execute_isEffect _).assigns _ _ hassignment h
    exact ⟨x, hx, hupdate.value, evaluate_name hname hupdate.value⟩

/-- The name of a function can be assigned, and is read where no bracket follows it. -/
theorem evaluate_assigned_sqrt : IsAsciiName "sqrt" ∧ Completes (empty.execute ("sqrt" ++ " = " ++ " 1/8 ")).2 ∧
    ∃ x, empty.evaluate (String.ofList (trim " 1/8 ".toList)) = .ok x ∧
      (empty.execute ("sqrt" ++ " = " ++ " 1/8 ")).1.evaluate "sqrt" = .ok x := by
  have hname : IsAsciiName "sqrt" := by
    refine ⟨?_, by simp⟩
    simp only [Text.isName, inRanges, ← Array.any_toList, String.reduceToList]
    decide +kernel
  have hcompletes : Completes (empty.execute ("sqrt" ++ " = " ++ " 1/8 ")).2 :=
    ⟨"sqrt = 0.125", by decide +kernel, fun c => by cases c <;> decide +kernel⟩
  obtain ⟨x, hx, -, hread⟩ := evaluate_assigned empty hname hcompletes
  exact ⟨hname, hcompletes, x, hx, hread.trans (if_neg (by decide))⟩

/-- The word of the negation is assigned and cannot be read. -/
theorem evaluate_assigned_neg : IsAsciiName "neg" ∧
    (empty.execute ("neg" ++ " = " ++ "5")).2 = .ok (some "neg = 5") ∧
    (empty.execute ("neg" ++ " = " ++ "5")).1.value? "neg" = some (.ofInt 5) ∧
    (empty.execute ("neg" ++ " = " ++ "5")).1.evaluate "neg" = fail (.missingOperand "-") := by
  refine ⟨⟨?_, by simp⟩, by decide +kernel, by decide +kernel, by decide +kernel⟩
  simp only [Text.isName, inRanges, ← Array.any_toList, String.reduceToList]
  decide +kernel

end Session

end Reckon.Calculator
