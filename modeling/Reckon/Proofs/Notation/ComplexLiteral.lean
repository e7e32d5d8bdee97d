/-
The texts that are read as complex numbers. Such a text is split at the last sign that does not belong to an exponent.
What stands in front of the sign is accepted as a real number up to the blanks behind it. What stands behind the sign
loses its spaces before it is read, so spaces are also taken where the reader of real numbers refuses them: between
the digits of the coefficient and in its exponent. A text keeps to the documented form exactly if there are none.
-/
import Reckon.Proofs.Notation.Joining

namespace Reckon.Notation

open Reckon.Text

/-! ## Blanks at the end -/

/-- Behind its first character a text is trimmed only at the end. -/
theorem exists_trim_append {cs : List Char} (hhead : ∀ c ∈ cs.head?, isBlank c = false) :
    ∃ blanks, cs = trim cs ++ blanks ∧ IsBlanks blanks := by
  refine ⟨(cs.reverse.takeWhile isBlank).reverse, ?_, fun c hc => List.mem_takeWhile_imp (List.mem_reverse.1 hc)⟩
  rw [trim, dropWhile_blank hhead, ← List.reverse_append, List.takeWhile_append_dropWhile, List.reverse_reverse]

theorem readReal_trim (cs : List Char) : readReal (String.ofList (trim cs)) = readReal (String.ofList cs) := by
  unfold readReal
  rw [String.toList_ofList, String.toList_ofList, trim_trim]

theorem readReal_append_blanks (cs : List Char) {blanks : List Char} (hblanks : IsBlanks blanks) :
    readReal (String.ofList (cs ++ blanks)) = readReal (String.ofList cs) := by
  rw [← readReal_trim, trim_append_blanks _ hblanks, readReal_trim]

/-! ## Signs of exponents -/

/-- A sign may only stand behind the letter of an exponent. -/
def MayFollow (d c : Char) : Prop := c = '+' ∨ c = '-' → d = 'e' ∨ d = 'E'

/-- Every sign in the text stands right behind the letter of an exponent. -/
structure SignsBelong (cs : List Char) : Prop where
  head : ∀ c ∈ cs.head?, c ≠ '+' ∧ c ≠ '-'
  chain : cs.IsChain MayFollow

theorem signsBelong_nil : SignsBelong [] := ⟨nofun, .nil⟩

theorem SignsBelong.concat {cs : List Char} {c : Char} (h : SignsBelong cs)
    (hc : c = '+' ∨ c = '-' → ∃ d ∈ cs.getLast?, d = 'e' ∨ d = 'E') : SignsBelong (cs ++ [c]) := by
  refine ⟨fun b hb => ?_, List.isChain_append.2 ⟨h.chain, .singleton c, fun d hd b hb hsign => ?_⟩⟩
  · rcases cs with _ | ⟨d, cs⟩
    · obtain rfl : c = b := Option.some.inj hb
      refine not_or.1 fun hsign => ?_
      obtain ⟨d, hd, -⟩ := hc hsign
      cases hd
    · exact h.head b hb
  · obtain rfl : c = b := Option.some.inj hb
    obtain ⟨d', hd', he⟩ := hc hsign
    obtain rfl := Option.some.inj (hd.symm.trans hd')
    exact he

theorem signsBelong_of_no_sign {cs : List Char} (h : ∀ c ∈ cs, c ≠ '+' ∧ c ≠ '-') : SignsBelong cs := by
  induction cs using List.reverseRecOn with
  | nil => exact signsBelong_nil
  | append_singleton cs c ih =>
    obtain ⟨hcs, hc⟩ := List.forall_mem_append.1 h
    exact (ih hcs).concat fun hsign => absurd hsign (not_or.2 (hc c (List.mem_singleton_self c)))

theorem SignsBelong.append {xs ys : List Char} (hx : SignsBelong xs) (hy : SignsBelong ys) : SignsBelong (xs ++ ys) := by
  refine ⟨fun c hc => ?_, List.isChain_append.2 ⟨hx.chain, hy.chain, fun _ _ c hc hsign => ?_⟩⟩
  · rcases eq_or_ne xs [] with rfl | hne
    · exact hy.head c hc
    · exact hx.head c (by rwa [List.head?_append_of_ne_nil _ hne] at hc)
  · exact absurd hsign (not_or.2 (hy.head c hc))

/-- Behind blanks there is no sign. -/
theorem SignsBelong.head_of_append {xs ys : List Char} (h : SignsBelong (xs ++ ys)) (hx : IsBlanks xs) :
    ∀ c ∈ ys.head?, c ≠ '+' ∧ c ≠ '-' := by
  intro c hc
  rcases eq_or_ne xs [] with rfl | hne
  · exact h.head c hc
  · refine not_or.1 fun hsign => ?_
    have hblank := hx _ (List.getLast_mem hne)
    have hletter := (List.isChain_append.1 h.chain).2.2 _ (List.getLast?_eq_some_getLast hne) c hc hsign
    rcases hletter with he | he <;> rw [he] at hblank <;> exact absurd hblank (by decide)

/-- The search for the joining sign passes over the text. -/
theorem SignsBelong.unsplit {cs : List Char} (h : SignsBelong cs) : Unsplit cs := by
  induction cs using List.reverseRecOn with
  | nil => exact fun _ _ => rfl
  | append_singleton cs c ih =>
    obtain ⟨hhead, hchain⟩ := h
    obtain ⟨hchain, -, hlast⟩ := List.isChain_append.1 hchain
    have hfront : SignsBelong cs := ⟨fun d hd => hhead d (List.mem_head?_append_of_mem_head? hd), hchain⟩
    intro before after
    rw [List.reverse_append, List.reverse_singleton, List.singleton_append, List.cons_append, List.append_assoc,
      List.singleton_append, ← ih hfront]
    by_cases hsign : c = '+' ∨ c = '-'
    · rcases hrev : cs.reverse with _ | ⟨e, front⟩
      · rw [List.reverse_eq_nil_iff.1 hrev] at hhead
        exact absurd hsign (not_or.2 (hhead c rfl))
      · have he : e = 'e' ∨ e = 'E' := hlast e (by rw [← List.head?_reverse, hrev]; rfl) c rfl hsign
        exact splitSum_exponent_sign he c _ after
    · exact splitSum_cons (not_or.1 hsign) _ after

theorem exists_signChars {c : Char} (h : c = '+' ∨ c = '-') : ∃ negative, signChars (some negative) = [c] := by
  rcases h with rfl | rfl
  · exact ⟨false, rfl⟩
  · exact ⟨true, rfl⟩

/-- The last sign that does not belong to an exponent ends the first part, if there is one in front of it. -/
theorem splitSum_spec (before after : List Char) : ∃ front sign middle,
    before.reverse = front ++ signChars sign ++ middle ∧ (splitSum before after).2 = signChars sign ++ middle ++ after ∧
      SignsBelong middle ∧ ((splitSum before after).1 = none ∧ front = [] ∨
        (splitSum before after).1 = some front ∧ sign ≠ none ∧ front ≠ []) := by
  induction before, after using splitSum.induct with
  | case1 after => exact ⟨[], none, [], rfl, rfl, signsBelong_nil, .inl ⟨rfl, rfl⟩⟩
  | case2 c after =>
    by_cases hsign : c = '+' ∨ c = '-'
    · obtain ⟨sign, hc⟩ := exists_signChars hsign
      exact ⟨[], some sign, [], by rw [hc]; rfl, by rw [hc]; rfl, signsBelong_nil, .inl ⟨rfl, rfl⟩⟩
    · exact ⟨[], none, [c], rfl, rfl, signsBelong_nil.concat fun h => absurd h hsign, .inl ⟨rfl, rfl⟩⟩
  | case3 c d before after hjoint =>
    have hsign : c = '+' ∨ c = '-' := by
      simp only [Bool.and_eq_true, Bool.or_eq_true, beq_iff_eq] at hjoint
      exact hjoint.1.1
    obtain ⟨sign, hc⟩ := exists_signChars hsign
    rw [splitSum, if_pos hjoint]
    exact ⟨(d :: before).reverse, some sign, [], by rw [hc]; simp, by rw [hc]; rfl, signsBelong_nil,
      .inr ⟨rfl, Option.some_ne_none _, by simp⟩⟩
  | case4 c d before after hnot ih =>
    obtain ⟨front, sign, middle, hreverse, hsnd, hmiddle, hfst⟩ := ih
    rw [splitSum, if_neg hnot]
    refine ⟨front, sign, middle ++ [c], ?_, ?_, hmiddle.concat fun hsign => ?_, hfst⟩
    · rw [List.reverse_cons, hreverse, ← List.append_assoc]
    · rw [hsnd]
      simp
    -- the letter in front of the sign that is passed over ends the passed text
    have hd : d = 'e' ∨ d = 'E' := by
      simp only [Bool.and_eq_true, Bool.or_eq_true, beq_iff_eq, bne_iff_ne] at hnot
      tauto
    have hlast : (front ++ signChars sign ++ middle).getLast? = some d := by
      rw [← hreverse, List.reverse_cons, List.getLast?_concat]
    rcases eq_or_ne middle [] with rfl | hne
    · rw [List.append_nil] at hlast
      rcases sign with _ | _ | _
      · rcases hfst with ⟨-, rfl⟩ | ⟨-, hsome, -⟩
        · cases hlast
        · exact absurd rfl hsome
      · rw [signChars, List.getLast?_concat] at hlast
        obtain rfl := Option.some.inj hlast
        exact absurd hd (by decide)
      · rw [signChars, List.getLast?_concat] at hlast
        obtain rfl := Option.some.inj hlast
        exact absurd hd (by decide)
    · exact ⟨d, by rwa [List.getLast?_append_of_ne_nil _ hne] at hlast, hd⟩

/-! ## Complex literals -/

/-- The pieces of a complex literal: the real part with the blanks behind it, the sign, the coefficient, the blanks
behind that and the imaginary unit. -/
structure ComplexLiteral where
  real : Option (List Char × List Char)
  sign : Option Bool
  coefficient : List Char
  blanks : List Char
  unit : Char

namespace ComplexLiteral

/-- What stands in front of the sign. -/
def front (l : ComplexLiteral) : List Char := (l.real.map fun p => p.1 ++ p.2).getD []

/-- The literal up to the coefficient. -/
def body (l : ComplexLiteral) : List Char := l.front ++ signChars l.sign ++ l.coefficient

/-- The literal as it is written. -/
def text (l : ComplexLiteral) : List Char := l.body ++ l.blanks ++ [l.unit]

/-- What is read for the real part; without one it is zero. -/
def realPart (l : ComplexLiteral) : Outcome Real :=
  match l.real with
  | some p => readReal (String.ofList p.1)
  | none => .ok .zero

/-- What is read for the imaginary part: the coefficient behind its sign, without the spaces. -/
def imaginaryPart (l : ComplexLiteral) : Outcome Real :=
  readCoefficient (String.ofList (signChars l.sign ++ l.coefficient.filter (· != ' ')))

/-- The pieces are those into which the reader splits the text. -/
structure IsSplit (l : ComplexLiteral) : Prop where
  real : ∀ p ∈ l.real, trim p.1 = p.1 ∧ IsBlanks p.2 ∧ ∃ c ∈ p.1.getLast?, c ≠ 'e' ∧ c ≠ 'E'
  sign : l.sign = none → l.real = none
  signs : SignsBelong l.coefficient
  ends : ∀ c ∈ l.coefficient.getLast?, isBlank c = false
  blanks : IsBlanks l.blanks
  unit : l.unit = 'i' ∨ l.unit = 'I'

/-- The reader splits the text into these pieces and reads the two numbers from them. -/
structure Denotes (l : ComplexLiteral) (x y : Real) : Prop where
  split : l.IsSplit
  real : l.realPart = .ok x
  imaginary : l.imaginaryPart = .ok y

end ComplexLiteral

theorem complexOf_eq_ok_iff {re im : Outcome Real} {x y : Real} :
    complexOf re im = .ok (.complex x y) ↔ re = .ok x ∧ im = .ok y := by
  cases re with
  | error e => exact iff_of_false nofun fun h => nomatch h.1
  | ok a =>
    cases im with
    | error e => exact iff_of_false nofun fun h => nomatch h.2
    | ok b =>
      constructor
      · rintro ⟨⟩
        exact ⟨rfl, rfl⟩
      · rintro ⟨⟨⟩, ⟨⟩⟩
        rfl

theorem readParts_eq (re : Option (List Char)) (im : List Char) : readParts re im = complexOf
    (match re with
      | some re => readReal (String.ofList re)
      | none => .ok .zero)
    (readCoefficient (String.ofList (im.filter (· != ' ')))) := by
  cases re <;> rfl

namespace ComplexLiteral.IsSplit

variable {l : ComplexLiteral}

theorem last_body (h : l.IsSplit) : ∀ c ∈ l.body.getLast?, isBlank c = false := by
  intro c hc
  unfold body at hc
  rcases eq_or_ne l.coefficient [] with hnil | hne
  · rw [hnil, List.append_nil] at hc
    rcases hs : l.sign with _ | negative
    · rw [hs, front, h.sign hs] at hc
      cases hc
    · rw [hs, List.getLast?_append_of_ne_nil _ (signChars_ne_nil negative)] at hc
      exact signChars_not_blank _ c (List.mem_of_mem_getLast? hc)
  · rw [List.getLast?_append_of_ne_nil _ hne] at hc
    exact h.ends c hc

theorem splitComplex_body (h : l.IsSplit) :
    splitComplex l.body = (l.real.map fun p => p.1 ++ p.2, signChars l.sign ++ l.coefficient) := by
  unfold body front
  rcases hr : l.real with _ | ⟨a, before⟩
  · exact splitComplex_signed h.signs.unsplit l.sign
  rcases hs : l.sign with _ | negative
  · rw [h.sign hs] at hr
    cases hr
  obtain ⟨-, hbefore, hlast⟩ := h.real _ hr
  refine splitComplex_append h.signs.unsplit negative ?_
  show ∃ d ∈ (a ++ before).getLast?, d ≠ 'e' ∧ d ≠ 'E'
  rcases eq_or_ne before [] with rfl | hne
  · rwa [List.append_nil]
  · refine ⟨before.getLast hne, ?_, ?_⟩
    · rw [List.getLast?_append_of_ne_nil _ hne]
      exact List.getLast?_eq_some_getLast hne
    · have hblank := hbefore _ (List.getLast_mem hne)
      constructor <;> intro he <;> rw [he] at hblank <;> exact absurd hblank (by decide)

theorem body_eq (h : l.IsSplit) {text : String} (htext : trim text.toList = l.text) :
    l.body = trim (trim text.toList).dropLast := by
  have hhead := head?_trim text.toList
  rw [htext] at hhead ⊢
  have hbody : ∀ c ∈ l.body.head?, isBlank c = false := fun c hc =>
    hhead c (List.mem_head?_append_of_mem_head? (List.mem_head?_append_of_mem_head? hc))
  rw [ComplexLiteral.text, List.dropLast_concat, trim_append_blanks _ h.blanks, trim_of_ends hbody h.last_body]

/-- A text of such pieces is read as the complex number of its two parts. -/
theorem readScalar_text (h : l.IsSplit) {text : String} (htext : trim text.toList = l.text) :
    readScalar text = complexOf l.realPart l.imaginaryPart := by
  have hlast : (trim text.toList).getLast? = some l.unit := by rw [htext, ComplexLiteral.text, List.getLast?_concat]
  have hne : ¬ (trim text.toList).isEmpty = true := by
    rw [List.isEmpty_iff]
    intro hnil
    rw [hnil] at hlast
    cases hlast
  rw [readScalar_eq, if_neg hne, if_pos (by simpa [hlast] using h.unit), ← h.body_eq htext, h.splitComplex_body,
    readParts_eq, List.filter_append, filter_of_not_blank (signChars_not_blank _)]
  unfold realPart imaginaryPart
  rcases hr : l.real with _ | ⟨a, before⟩
  · rfl
  · obtain ⟨-, hbefore, -⟩ := h.real _ hr
    simp only [Option.map_some]
    rw [readReal_append_blanks _ hbefore]

end ComplexLiteral.IsSplit

/-- The text is accepted as a real number and has no blanks around it. -/
structure IsNumberText (cs : List Char) : Prop where
  trimmed : trim cs = cs
  accepted : ∃ x, readReal (String.ofList cs) = .ok x

theorem IsNumberText.not_blank {cs : List Char} (h : IsNumberText cs) : ∀ c ∈ cs, isBlank c = false := by
  obtain ⟨x, hx⟩ := h.accepted
  obtain ⟨s, body, value, rfl, hnumeral, -⟩ := exists_isNumeral h.trimmed hx
  exact hnumeral.signed_not_blank s

theorem IsNumberText.exists_last {cs : List Char} (h : IsNumberText cs) : ∃ c ∈ cs.getLast?, MayEnd c := by
  obtain ⟨x, hx⟩ := h.accepted
  obtain ⟨s, body, value, rfl, hnumeral, -⟩ := exists_isNumeral h.trimmed hx
  obtain ⟨d, before, hrev, hd⟩ := hnumeral.last_signed s
  exact ⟨d, by rw [← List.head?_reverse, hrev]; rfl, hd⟩

/-- The reader splits every text that ends with the imaginary unit, if it accepts the real part. -/
theorem exists_isSplit {cs : List Char} (htrim : trim cs = cs) (hunit : EndsWithUnit cs)
    (hreal : ∀ re ∈ (splitComplex (trim cs.dropLast)).1, ∃ x, readReal (String.ofList re) = .ok x) :
    ∃ l : ComplexLiteral, cs = l.text ∧ l.IsSplit := by
  obtain ⟨unit, hu, hlast⟩ : ∃ unit, (unit = 'i' ∨ unit = 'I') ∧ cs.getLast? = some unit :=
    hunit.elim (fun h => ⟨'i', .inl rfl, h⟩) fun h => ⟨'I', .inr rfl, h⟩
  obtain ⟨init, rfl⟩ := List.getLast?_eq_some_iff.1 hlast
  rw [List.dropLast_concat] at hreal
  have hhead : ∀ c ∈ init.head?, isBlank c = false := fun c hc =>
    head?_trim (init ++ [unit]) c (by rw [htrim]; exact List.mem_head?_append_of_mem_head? hc)
  obtain ⟨blanks, hinit, hblanks⟩ := exists_trim_append hhead
  obtain ⟨front, sign, middle, hbody, -, hmiddle, hfront⟩ := splitSum_spec (trim init).reverse []
  rw [List.reverse_reverse] at hbody
  have hends : ∀ c ∈ middle.getLast?, isBlank c = false := by
    intro c hc
    refine getLast?_trim init c ?_
    rw [hbody, List.getLast?_append_of_ne_nil _ (by rintro rfl; cases hc)]
    exact hc
  -- without a split the whole text is the coefficient
  rcases hfront with ⟨-, rfl⟩ | ⟨hsplit, hsign, hne⟩
  · refine ⟨⟨none, sign, middle, blanks, unit⟩, ?_, nofun, fun _ => rfl, hmiddle, hends, hblanks, hu⟩
    rw [ComplexLiteral.text, ComplexLiteral.body, ComplexLiteral.front]
    show init ++ [unit] = [] ++ signChars sign ++ middle ++ blanks ++ [unit]
    rw [← hbody, ← hinit]
  · obtain ⟨x, hx⟩ := hreal front hsplit
    have hfrontHead : ∀ c ∈ front.head?, isBlank c = false := fun c hc =>
      head?_trim init c (by rw [hbody, List.append_assoc]; exact List.mem_head?_append_of_mem_head? hc)
    obtain ⟨before, hbefore, hblank⟩ := exists_trim_append hfrontHead
    have hnumber : IsNumberText (trim front) := ⟨trim_trim front, x, (readReal_trim front).trans hx⟩
    obtain ⟨c, hc, hend⟩ := hnumber.exists_last
    refine ⟨⟨some (trim front, before), sign, middle, blanks, unit⟩, ?_, ?_, fun h => absurd h hsign, hmiddle, hends,
      hblanks, hu⟩
    · rw [ComplexLiteral.text, ComplexLiteral.body, ComplexLiteral.front]
      show init ++ [unit] = (trim front ++ before) ++ signChars sign ++ middle ++ blanks ++ [unit]
      rw [← hbefore, ← hbody, ← hinit]
    · rintro _ ⟨⟩
      exact ⟨trim_trim front, hblank, c, hc, hend.not_power⟩

theorem readScalar_eq_complex_iff {text : String} {x y : Real} :
    readScalar text = .ok (.complex x y) ↔ ∃ l : ComplexLiteral, trim text.toList = l.text ∧ l.Denotes x y := by
  constructor
  · intro h
    have hread := h
    rw [readScalar_eq] at hread
    split at hread
    · cases hread
    split at hread
    · rename_i hunit
      have hreal : ∀ re ∈ (splitComplex (trim (trim text.toList).dropLast)).1, ∃ x, readReal (String.ofList re) = .ok x := by
        intro re hre
        rw [readParts_eq, Option.mem_def.1 hre, complexOf_eq_ok_iff] at hread
        exact ⟨x, hread.1⟩
      obtain ⟨l, hl, hsplit⟩ := exists_isSplit (trim_trim _) (by simpa [EndsWithUnit] using hunit) hreal
      rw [hsplit.readScalar_text hl, complexOf_eq_ok_iff] at h
      exact ⟨l, hl, hsplit, h.1, h.2⟩
    · obtain ⟨z, -, hz⟩ := Outcome.map_eq_ok.1 hread
      cases hz
  · rintro ⟨l, hl, hsplit, hx, hy⟩
    rw [hsplit.readScalar_text hl, complexOf_eq_ok_iff]
    exact ⟨hx, hy⟩

/-! ## The documented form -/

theorem IsNumeral.signsBelong {cs : List Char} {value : Bool → Outcome Real} (h : IsNumeral cs value) : SignsBelong cs := by
  have hpass := h.unsplit [] []
  rw [List.append_nil, List.append_nil] at hpass
  obtain ⟨front, sign, middle, hcs, -, hmiddle, hfront⟩ := splitSum_spec cs.reverse []
  rw [hpass] at hfront
  obtain rfl : front = [] := hfront.elim And.right fun hsome => nomatch hsome.1
  rw [List.reverse_reverse, List.nil_append] at hcs
  obtain ⟨c, rest, rfl, hc⟩ := h.head
  rcases sign with _ | _ | _
  · rwa [hcs]
  · exact absurd (List.cons.inj hcs).1 hc.1
  · exact absurd (List.cons.inj hcs).1 hc.2

/-- A coefficient that is read behind a sign is accepted without it. -/
theorem isNumberText_of_readCoefficient {s : Option Bool} {cs : List Char} {y : Real} (hne : cs ≠ [])
    (hhead : ∀ c ∈ cs.head?, c ≠ '+' ∧ c ≠ '-') (htrim : trim (signChars s ++ cs) = signChars s ++ cs)
    (h : readCoefficient (String.ofList (signChars s ++ cs)) = .ok y) : IsNumberText cs := by
  rw [readCoefficient_of_head hne hhead] at h
  obtain ⟨s', body, value, hcs, hnumeral, hfollows, hy⟩ := exists_isNumeral htrim h
  -- both texts have lost their sign
  obtain rfl : cs = body := by
    have hbody : ∀ c ∈ body.head?, c ≠ '-' ∧ c ≠ '+' := by
      obtain ⟨d, rest, rfl, hd⟩ := hnumeral.head
      rintro _ ⟨⟩
      exact hd.symm
    have hleft := sign_append (s := s) (fun c hc => (hhead c hc).symm) 0
    rw [hcs, sign_append hbody] at hleft
    exact (congrArg (fun r => r.2.rest) hleft).symm
  obtain ⟨v, hv⟩ : ∃ v, value false = .ok v := by
    rcases s' with _ | _ | _
    · exact ⟨y, hy⟩
    · exact ⟨y, hy⟩
    · exact hfollows.plus y hy
  exact ⟨trim_of_not_blank hnumeral.not_blank, v, (hnumeral.read none).trans hv⟩

namespace ComplexLiteral

variable {l : ComplexLiteral} {text : String} {x y : Real}

/-- The documented form: an accepted number and a sign, both or the number of which may be missing, an accepted number
or none and the imaginary unit, with blanks only next to the sign and in front of the unit. -/
structure IsDocumented (l : ComplexLiteral) : Prop where
  real : ∀ p ∈ l.real, IsNumberText p.1 ∧ IsBlanks p.2
  sign : l.sign = none → l.real = none
  coefficient : ∃ blanks number, l.coefficient = blanks ++ number ∧ IsBlanks blanks ∧ (l.sign = none → blanks = []) ∧
    (number = [] ∨ IsNumberText number)
  blanks : IsBlanks l.blanks
  unit : l.unit = 'i' ∨ l.unit = 'I'

/-- The spaces of the coefficient stand in front of it. -/
def SpacesLead (l : ComplexLiteral) : Prop :=
  ∃ n, l.coefficient = List.replicate n ' ' ++ l.coefficient.filter (· != ' ')

theorem spacesLead_of_append {blanks number : List Char} (hcoefficient : l.coefficient = blanks ++ number)
    (hblanks : IsSpaces blanks) (hnumber : ∀ c ∈ number, isBlank c = false) : l.SpacesLead := by
  refine ⟨blanks.length, ?_⟩
  rw [hcoefficient, List.filter_append, hblanks.filter_eq_nil, filter_of_not_blank hnumber, List.nil_append,
    ← List.eq_replicate_iff.2 ⟨rfl, hblanks⟩]

theorem Denotes.of_read (hread : readScalar text = .ok (.complex x y)) (htext : trim text.toList = l.text) (h : l.IsSplit) :
    l.Denotes x y := by
  rw [h.readScalar_text htext, complexOf_eq_ok_iff] at hread
  exact ⟨h, hread.1, hread.2⟩

/-- With spaces only in front of the coefficient the pieces have the documented form. -/
theorem Denotes.isDocumented (h : l.Denotes x y) (htext : trim text.toList = l.text) (hlead : l.SpacesLead) :
    l.IsDocumented := by
  obtain ⟨n, hcoefficient⟩ := hlead
  have himaginary := h.imaginary
  unfold imaginaryPart at himaginary
  generalize l.coefficient.filter (· != ' ') = number at hcoefficient himaginary
  have hspaces := isSpaces_replicate n
  -- without a sign the coefficient begins the text
  have hunsigned : l.sign = none → ∀ c ∈ l.coefficient.head?, isBlank c = false := by
    intro hs c hc
    refine head?_trim text.toList c ?_
    rw [htext, ComplexLiteral.text, body, front, h.split.sign hs, hs]
    exact List.mem_head?_append_of_mem_head? (List.mem_head?_append_of_mem_head? hc)
  have hnone : l.sign = none → List.replicate n ' ' = [] := by
    intro hs
    rcases n with _ | n
    · rfl
    · have := hunsigned hs ' ' (by rw [hcoefficient]; rfl)
      exact absurd this (by decide)
  refine ⟨fun p hp => ?_, h.split.sign, ⟨_, number, hcoefficient, hspaces.isBlanks, hnone, ?_⟩, h.split.blanks, h.split.unit⟩
  · obtain ⟨htrim, hblanks, -⟩ := h.split.real p hp
    have hreal := h.real
    rw [realPart, Option.mem_def.1 hp] at hreal
    exact ⟨⟨htrim, x, hreal⟩, hblanks⟩
  · refine or_iff_not_imp_left.2 fun hne => isNumberText_of_readCoefficient hne
      ((hcoefficient ▸ h.split.signs).head_of_append hspaces.isBlanks) (trim_of_ends ?_ ?_) himaginary
    · rcases hs : l.sign with _ | negative
      · rw [hnone hs, List.nil_append] at hcoefficient
        rw [← hcoefficient]
        exact hunsigned hs
      · exact head?_signChars_append negative number
    · intro c hc
      refine h.split.ends c ?_
      rw [hcoefficient, List.getLast?_append_of_ne_nil _ hne]
      rwa [List.getLast?_append_of_ne_nil _ hne] at hc

namespace IsDocumented

theorem isSplit_real (h : l.IsDocumented) :
    ∀ p ∈ l.real, trim p.1 = p.1 ∧ IsBlanks p.2 ∧ ∃ c ∈ p.1.getLast?, c ≠ 'e' ∧ c ≠ 'E' := by
  intro p hp
  obtain ⟨hnumber, hblanks⟩ := h.real p hp
  obtain ⟨c, hc, hend⟩ := hnumber.exists_last
  exact ⟨hnumber.trimmed, hblanks, c, hc, hend.not_power⟩

variable {blanks body : List Char} {value : Bool → Outcome Real}

/-- Without a number in the coefficient its blanks stand in front of the unit. -/
theorem exists_denotes_nil (h : l.IsDocumented) (htext : trim text.toList = l.text) (hread : readScalar text = .ok (.complex x y))
    (hblanks : IsBlanks blanks) (hcoefficient : l.coefficient = blanks) :
    ∃ m : ComplexLiteral, trim text.toList = m.text ∧ m.Denotes x y ∧ m.SpacesLead := by
  have hm : trim text.toList = ComplexLiteral.text { l with coefficient := [], blanks := blanks ++ l.blanks } := by
    rw [htext]
    simp [ComplexLiteral.text, ComplexLiteral.body, front, hcoefficient]
  exact ⟨_, hm, .of_read hread hm ⟨h.isSplit_real, h.sign, signsBelong_nil, nofun, hblanks.append h.blanks, h.unit⟩, 0, rfl⟩

/-- A number without a sign of its own is the coefficient, and the blanks in front of it are spaces. -/
theorem exists_denotes_numeral (h : l.IsDocumented) (htext : trim text.toList = l.text)
    (hread : readScalar text = .ok (.complex x y)) (hblanks : IsBlanks blanks) (hsign : l.sign = none → blanks = [])
    (hnumeral : IsNumeral body value) (hcoefficient : l.coefficient = blanks ++ body) :
    ∃ m : ComplexLiteral, trim text.toList = m.text ∧ m.Denotes x y ∧ m.SpacesLead := by
  obtain ⟨c, rest, hbody, hc⟩ := hnumeral.head
  have hne : body ≠ [] := hbody ▸ List.cons_ne_nil _ _
  have hlast : ∀ xs : List Char, ∀ c ∈ (xs ++ body).getLast?, isBlank c = false := by
    intro xs c hc
    rw [List.getLast?_append_of_ne_nil _ hne] at hc
    exact hnumeral.not_blank c (List.mem_of_mem_getLast? hc)
  have hdenotes : l.Denotes x y := .of_read hread htext ⟨h.isSplit_real, h.sign,
    hcoefficient ▸ (signsBelong_of_no_sign hblanks.no_sign).append hnumeral.signsBelong, hcoefficient ▸ hlast _,
    h.blanks, h.unit⟩
  -- a blank that is no space would remain in the number that is read
  have hnumber : IsNumberText (blanks.filter (· != ' ') ++ body) := by
    have himaginary := hdenotes.imaginary
    rw [imaginaryPart, hcoefficient, List.filter_append, filter_of_not_blank hnumeral.not_blank] at himaginary
    refine isNumberText_of_readCoefficient (List.append_ne_nil_of_right_ne_nil _ hne) (fun d hd => ?_) (trim_of_ends ?_ ?_) himaginary
    · rcases eq_or_ne (blanks.filter (· != ' ')) [] with hnil | hfilter
      · rw [hnil, hbody] at hd
        obtain rfl := Option.some.inj hd
        exact hc
      · rw [List.head?_append_of_ne_nil _ hfilter] at hd
        exact hblanks.no_sign d (List.mem_of_mem_filter (List.mem_of_mem_head? hd))
    · rcases hs : l.sign with _ | negative
      · rw [hsign hs]
        exact fun c hc => hnumeral.not_blank c (List.mem_of_mem_head? hc)
      · exact head?_signChars_append negative _
    · rw [← List.append_assoc]
      exact hlast _
  have hspaces : IsSpaces blanks := by
    intro c hc
    by_contra hnot
    have hmem : c ∈ blanks.filter (· != ' ') := List.mem_filter.2 ⟨hc, bne_iff_ne.2 hnot⟩
    exact Bool.false_ne_true ((hnumber.not_blank c (List.mem_append_left _ hmem)).symm.trans (hblanks c hc))
  exact ⟨l, htext, hdenotes, spacesLead_of_append hcoefficient hspaces hnumeral.not_blank⟩

/-- A number with a sign of its own is the coefficient behind that sign, and then nothing stands in front of it. -/
theorem exists_denotes_signed (h : l.IsDocumented) (htext : trim text.toList = l.text)
    (hread : readScalar text = .ok (.complex x y)) (hblanks : IsBlanks blanks) (hsign : l.sign = none → blanks = [])
    (hnumeral : IsNumeral body value) {negative : Bool}
    (hcoefficient : l.coefficient = blanks ++ (signChars (some negative) ++ body)) :
    ∃ m : ComplexLiteral, trim text.toList = m.text ∧ m.Denotes x y ∧ m.SpacesLead := by
  have hends : ∀ c ∈ body.getLast?, isBlank c = false := fun c hc => hnumeral.not_blank c (List.mem_of_mem_getLast? hc)
  rcases hs : l.sign with _ | joint
  · have hm : trim text.toList = ComplexLiteral.text ⟨none, some negative, body, l.blanks, l.unit⟩ := by
      rw [htext]
      simp [ComplexLiteral.text, ComplexLiteral.body, front, hcoefficient, hsign hs, hs, h.sign hs, signChars]
    exact ⟨_, hm, .of_read hread hm ⟨fun _ hp => absurd hp (Option.not_mem_none _), fun _ => rfl, hnumeral.signsBelong,
      hends, h.blanks, h.unit⟩, spacesLead_of_append (List.nil_append _).symm isSpaces_nil hnumeral.not_blank⟩
  · -- the reader splits at the second sign, and then the first one ends the real part
    have hm : trim text.toList =
        ComplexLiteral.text ⟨some (l.front ++ signChars (some joint), blanks), some negative, body, l.blanks, l.unit⟩ := by
      rw [htext]
      simp [ComplexLiteral.text, ComplexLiteral.body, front, hcoefficient, hs]
    have hlast : (l.front ++ signChars (some joint)).getLast? = (signChars (some joint)).getLast? :=
      List.getLast?_append_of_ne_nil _ (signChars_ne_nil joint)
    have htrim : trim (l.front ++ signChars (some joint)) = l.front ++ signChars (some joint) := by
      refine trim_of_ends (fun c hc => head?_trim text.toList c ?_) fun c hc => ?_
      · rw [htext, ComplexLiteral.text, ComplexLiteral.body, hs]
        exact List.mem_head?_append_of_mem_head? (List.mem_head?_append_of_mem_head?
          (List.mem_head?_append_of_mem_head? hc))
      · exact signChars_not_blank _ c (List.mem_of_mem_getLast? (hlast ▸ hc))
    have hdenotes := Denotes.of_read hread hm ⟨fun p hp => ?_, fun hnone => absurd hnone (Option.some_ne_none _),
      hnumeral.signsBelong, hends, h.blanks, h.unit⟩
    -- then the real part would be a number that ends with a sign
    · obtain ⟨c, hc, hend⟩ := IsNumberText.exists_last ⟨htrim, x, hdenotes.real⟩
      rw [hlast] at hc
      cases joint
      · obtain rfl := Option.some.inj hc
        exact absurd rfl hend.not_sign.1
      · obtain rfl := Option.some.inj hc
        exact absurd rfl hend.not_sign.2
    · obtain rfl := Option.some.inj hp
      refine ⟨htrim, hblanks, ?_⟩
      rw [hlast]
      cases joint
      · exact ⟨'+', rfl, by decide⟩
      · exact ⟨'-', rfl, by decide⟩

/-- A text in the documented form that is read is split into pieces with spaces only in front of the coefficient. -/
theorem exists_denotes (h : l.IsDocumented) (htext : trim text.toList = l.text) (hread : readScalar text = .ok (.complex x y)) :
    ∃ m : ComplexLiteral, trim text.toList = m.text ∧ m.Denotes x y ∧ m.SpacesLead := by
  obtain ⟨blanks, number, hcoefficient, hblanks, hsign, rfl | hnumber⟩ := h.coefficient
  · exact h.exists_denotes_nil htext hread hblanks (hcoefficient.trans (List.append_nil _))
  obtain ⟨v, hv⟩ := hnumber.accepted
  obtain ⟨s, body, value, rfl, hnumeral, -⟩ := exists_isNumeral hnumber.trimmed hv
  rcases s with _ | negative
  · exact h.exists_denotes_numeral htext hread hblanks hsign hnumeral hcoefficient
  · exact h.exists_denotes_signed htext hread hblanks hsign hnumeral hcoefficient

end IsDocumented

end ComplexLiteral

/-! ## The texts of complex numbers -/

/-- A text is read as a complex number exactly if it consists of the pieces of a complex literal, where the spaces in
the coefficient do not count. It has the documented form exactly if these stand only in front of the coefficient. -/
theorem readScalar_complex_iff (text : String) (x y : Real) :
    (readScalar text = .ok (.complex x y) ↔ ∃ l : ComplexLiteral, trim text.toList = l.text ∧ l.Denotes x y) ∧
    (readScalar text = .ok (.complex x y) ∧ (∃ l : ComplexLiteral, trim text.toList = l.text ∧ l.IsDocumented) ↔
      ∃ l : ComplexLiteral, trim text.toList = l.text ∧ l.Denotes x y ∧ l.SpacesLead) := by
  refine ⟨readScalar_eq_complex_iff, ?_, ?_⟩
  · rintro ⟨hread, l, htext, hl⟩
    exact hl.exists_denotes htext hread
  · rintro ⟨l, htext, hl, hlead⟩
    exact ⟨readScalar_eq_complex_iff.2 ⟨l, htext, hl⟩, l, htext, hl.isDocumented htext hlead⟩

/-- A space between two digits: the coefficient is read as twelve, though it is no real number and the text does not
have the documented form. -/
theorem readScalar_inner_space :
    readScalar "1 2i" = .ok (.complex .zero (.big ⟨false, 12, 0⟩)) ∧ (∃ e, readReal "1 2" = .error (.malformed e)) ∧
    ¬ ∃ l : ComplexLiteral, trim "1 2i".toList = l.text ∧ l.IsDocumented := by
  have hread : readScalar "1 2i" = .ok (.complex .zero (.big ⟨false, 12, 0⟩)) := by decide +kernel
  refine ⟨hread, ⟨_, by with_unfolding_all rfl⟩, ?_⟩
  rintro ⟨l, htext, hl⟩
  obtain ⟨m, hm, hdenotes, n, hcoefficient⟩ := hl.exists_denotes htext hread
  have hbody : m.body = ['1', ' ', '2'] := by
    rw [hdenotes.split.body_eq hm]
    decide +kernel
  have hsplit := hdenotes.split.splitComplex_body
  rw [hbody, show splitComplex ['1', ' ', '2'] = (none, ['1', ' ', '2']) by decide +kernel] at hsplit
  have hpieces : ['1', ' ', '2'] = signChars m.sign ++ m.coefficient := (Prod.mk.inj hsplit).2
  generalize m.sign = sign at hpieces
  rcases sign with _ | _ | _
  · rw [← show ['1', ' ', '2'] = m.coefficient from hpieces] at hcoefficient
    rcases n with _ | n
    · exact absurd (congrArg List.length hcoefficient) (by decide)
    · exact absurd (List.cons.inj hcoefficient).1 (by decide)
  · exact absurd (List.cons.inj hpieces).1 (by decide)
  · exact absurd (List.cons.inj hpieces).1 (by decide)

end Reckon.Notation
