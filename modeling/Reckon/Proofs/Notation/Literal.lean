/-
Real literals by their pieces. A `Literal` is what a text can consist of, `text` writes it down,
and the reader takes every well-formed one apart again: what remains is the number that the pieces
denote.
-/
import Reckon.Notation.Reader
import Reckon.Proofs.Digits

namespace Reckon.Notation

open Reckon.Text

/-! ## Characters -/

/-- All characters are ASCII digits. -/
def IsDigits (cs : List Char) : Prop := ∀ c ∈ cs, isAsciiDigit c = true

/-- The text does not go on with a digit. -/
def EndsDigits (cs : List Char) : Prop := ∀ c ∈ cs.head?, isAsciiDigit c = false

/-- A number may end with the character: it is no imaginary unit, no letter of a power and no sign. -/
structure MayEnd (c : Char) : Prop where
  not_unit : c ≠ 'i' ∧ c ≠ 'I'
  not_power : c ≠ 'e' ∧ c ≠ 'E'
  not_sign : c ≠ '+' ∧ c ≠ '-'

theorem mayEnd_of_isAsciiDigit {c : Char} (h : isAsciiDigit c = true) : MayEnd c := by
  refine ⟨⟨?_, ?_⟩, ⟨?_, ?_⟩, ?_, ?_⟩ <;> rintro rfl <;> exact absurd h (by decide)

theorem IsDigits.append {xs ys : List Char} (hx : IsDigits xs) (hy : IsDigits ys) : IsDigits (xs ++ ys) := by
  intro c hc
  rcases List.mem_append.1 hc with hc | hc
  · exact hx c hc
  · exact hy c hc

theorem isDigits_of_all {cs : List Char} (h : cs.all isAsciiDigit = true) : IsDigits cs := List.all_eq_true.1 h

theorem EndsDigits.append {xs ys : List Char} (hx : EndsDigits xs) (hy : EndsDigits ys) : EndsDigits (xs ++ ys) := by
  rcases eq_or_ne xs [] with rfl | hne
  · exact hy
  · intro c hc
    exact hx c (by rwa [List.head?_append_of_ne_nil _ hne] at hc)

theorem isDigits_replicate_zero (k : Nat) : IsDigits (List.replicate k '0') := by
  intro c hc
  rw [List.eq_of_mem_replicate hc]
  rfl

theorem isDigits_ofNat (n : Nat) : IsDigits (Digits.ofNat n) := Digits.ofNat_isDigit n

theorem takeWhile_digits {ds rest : List Char} (hds : IsDigits ds) (hrest : EndsDigits rest) :
    (ds ++ rest).takeWhile isAsciiDigit = ds := by
  rw [List.takeWhile_append_of_pos hds]
  cases rest with
  | nil => simp
  | cons c cs => rw [List.takeWhile_cons_of_neg (by rw [hrest c rfl]; exact Bool.false_ne_true), List.append_nil]

theorem dropWhile_blank {cs : List Char} (h : ∀ c ∈ cs.head?, isBlank c = false) : cs.dropWhile isBlank = cs := by
  cases cs with
  | nil => rfl
  | cons c cs => rw [List.dropWhile_cons_of_neg (by rw [h c rfl]; exact Bool.false_ne_true)]

/-- Trimming stops at both ends. -/
theorem trim_of_ends {cs : List Char} (hhead : ∀ c ∈ cs.head?, isBlank c = false)
    (hlast : ∀ c ∈ cs.getLast?, isBlank c = false) : trim cs = cs := by
  unfold trim
  rw [dropWhile_blank hhead, dropWhile_blank (by rwa [List.head?_reverse]), List.reverse_reverse]

theorem head?_dropWhile_blank (cs : List Char) : ∀ c ∈ (cs.dropWhile isBlank).head?, isBlank c = false := by
  intro c hc
  have hhead := List.head?_dropWhile_not isBlank cs
  rwa [Option.mem_def.1 hc] at hhead

theorem head?_trim (cs : List Char) : ∀ c ∈ (trim cs).head?, isBlank c = false := by
  intro c hc
  -- what remains starts like the text without its leading blanks
  obtain ⟨tail, htail⟩ := List.rdropWhile_prefix isBlank (l := cs.dropWhile isBlank)
  refine head?_dropWhile_blank cs c ?_
  rw [← htail]
  exact List.mem_head?_append_of_mem_head? hc

theorem getLast?_trim (cs : List Char) : ∀ c ∈ (trim cs).getLast?, isBlank c = false := by
  intro c hc
  unfold trim at hc
  rw [List.getLast?_reverse] at hc
  exact head?_dropWhile_blank _ c hc

theorem trim_trim (cs : List Char) : trim (trim cs) = trim cs := trim_of_ends (head?_trim cs) (getLast?_trim cs)

theorem trim_of_not_blank {cs : List Char} (h : ∀ c ∈ cs, isBlank c = false) : trim cs = cs :=
  trim_of_ends (fun c hc => h c (List.mem_of_mem_head? hc)) (fun c hc => h c (List.mem_of_mem_getLast? hc))

theorem isBlank_of_printable {c : Char} (h : 33 ≤ c.toNat ∧ c.toNat < 127) : isBlank c = false := by
  unfold isBlank
  simp only [Bool.or_eq_false_iff, Bool.and_eq_false_iff, decide_eq_false_iff_not, beq_eq_false_iff_ne]
  omega

theorem isBlank_of_isAsciiDigit {c : Char} (h : isAsciiDigit c = true) : isBlank c = false := by
  rw [Digits.isAsciiDigit_iff] at h
  exact isBlank_of_printable (by omega)

/-- What a number begins with behind its sign is no second one. -/
theorem ne_sign_of_digit_or_point {c : Char} (h : isAsciiDigit c = true ∨ c = '.') : c ≠ '-' ∧ c ≠ '+' := by
  rcases h with h | rfl
  · constructor <;> rintro rfl <;> exact absurd h (by decide)
  · decide

theorem lower_of_isAsciiDigit {c : Char} (h : isAsciiDigit c = true) : lower c = [c] := by
  rw [← Digits.digitChar_digitValue h]
  have := Digits.digitValue_lt h
  generalize Digits.digitValue c = d at this
  interval_cases d <;> rfl

/-! ## Pieces of a literal -/

/-- A sign as it is written. -/
def signChars : Option Bool → List Char
  | none => []
  | some true => ['-']
  | some false => ['+']

/-- A power of ten at the end of a literal. -/
structure Power where
  upper : Bool
  sign : Option Bool
  digits : List Char

/-- The digits behind a point, and a cycle in brackets. -/
structure Fraction where
  digits : List Char
  cycle : Option (List Char)

/-- The pieces of a real literal. -/
structure Literal where
  sign : Option Bool
  whole : List Char
  point : Option Fraction
  power : Option Power
  approximate : Bool

namespace Power

/-- The power of ten as it is written. -/
def text (p : Power) : List Char := (if p.upper then 'E' else 'e') :: (signChars p.sign ++ p.digits)

/-- The exponent that is meant. -/
def value (p : Power) : Int := signed (p.sign == some true) (Digits.toNat p.digits)

/-- The exponent has digits, and no more than are read. -/
structure WellFormed (p : Power) : Prop where
  digits : IsDigits p.digits
  nonempty : p.digits ≠ []
  limit : p.digits.length ≤ Failure.digitLimit

end Power

namespace Fraction

/-- The fraction as it is written. -/
def text (f : Fraction) : List Char :=
  '.' :: (f.digits ++ match f.cycle with
    | none => []
    | some cycle => '(' :: (cycle ++ [')']))

/-- A cycle has digits. -/
structure WellFormed (f : Fraction) : Prop where
  digits : IsDigits f.digits
  cycle : ∀ cycle ∈ f.cycle, IsDigits cycle ∧ cycle ≠ []

end Fraction

namespace Literal

/-- The digits behind the point, if there is one. -/
def fraction (l : Literal) : List Char := (l.point.map Fraction.digits).getD []

/-- The digits in brackets. -/
def cycle? (l : Literal) : Option (List Char) := l.point.bind Fraction.cycle

/-- A minus sign stands in front. -/
def negative (l : Literal) : Bool := l.sign == some true

/-- The power of ten that is meant; without one it is zero. -/
def exponent (l : Literal) : Int := (l.power.map Power.value).getD 0

/-- The literal without its sign and its mark. -/
def body (l : Literal) : List Char :=
  l.whole ++ ((l.point.map Fraction.text).getD [] ++ (l.power.map Power.text).getD [])

/-- The literal without its mark. -/
def unmarked (l : Literal) : List Char := signChars l.sign ++ l.body

/-- The literal as it is written. -/
def text (l : Literal) : List Char := l.unmarked ++ if l.approximate then approximationMark else []

/-- The pieces are digits where they have to be, and there is a digit before the power. -/
structure WellFormed (l : Literal) : Prop where
  whole : IsDigits l.whole
  point : ∀ f ∈ l.point, f.WellFormed
  power : ∀ p ∈ l.power, p.WellFormed
  nonempty : l.whole ≠ [] ∨ l.fraction ≠ []

end Literal

/-! ## Reading the pieces -/

theorem digits_append {ds rest : List Char} (hds : IsDigits ds) (hrest : EndsDigits rest) (n : Nat) :
    Cursor.digits ⟨ds ++ rest, n⟩ = (ds, ⟨rest, n + ds.length⟩) := by
  unfold Cursor.digits Cursor.skip
  simp only [takeWhile_digits hds hrest, List.drop_left]

theorem sign_append {s : Option Bool} {rest : List Char} (h : ∀ c ∈ rest.head?, c ≠ '-' ∧ c ≠ '+') (n : Nat) :
    Cursor.sign ⟨signChars s ++ rest, n⟩ = (s == some true, ⟨rest, n + (signChars s).length⟩) := by
  rcases s with _ | _ | _
  · unfold Cursor.sign signChars
    split
    · rename_i heq
      exact absurd rfl (h '-' (by simpa using congrArg List.head? heq)).1
    · rename_i heq
      exact absurd rfl (h '+' (by simpa using congrArg List.head? heq)).2
    · rfl
  · rfl
  · rfl

theorem readFraction_append (s : String) {point : Option Fraction} (hp : ∀ f ∈ point, f.WellFormed)
    {rest : List Char} (hrest : ∀ c ∈ rest.head?, c = 'e' ∨ c = 'E') (n : Nat) :
    ∃ m, readFraction s ⟨(point.map Fraction.text).getD [] ++ rest, n⟩ =
      .ok ((point.map Fraction.digits).getD [], point.bind Fraction.cycle, ⟨rest, m⟩) := by
  have hends : EndsDigits rest := fun c hc => by
    rcases hrest c hc with rfl | rfl <;> rfl
  have hne : ∀ d : Char, d ≠ 'e' → d ≠ 'E' → rest.head? ≠ some d := fun d h1 h2 h => by
    rcases hrest d h with rfl | rfl
    · exact h1 rfl
    · exact h2 rfl
  rcases point with _ | ⟨digits, _ | cycle⟩
  · refine ⟨n, ?_⟩
    unfold readFraction
    rw [if_pos (by simpa using hne '.' (by decide) (by decide))]
    rfl
  · obtain ⟨hd, -⟩ := hp _ rfl
    refine ⟨n + 1 + digits.length, ?_⟩
    have hdigits := digits_append hd hends (n + 1)
    unfold readFraction
    simp only [Option.map_some, Option.getD_some, Fraction.text, List.append_nil, List.cons_append, Cursor.skip,
      List.drop_succ_cons, List.drop_zero]
    rw [if_neg (by simp), hdigits]
    simp only
    rw [if_pos (by simpa using hne '(' (by decide) (by decide))]
    rfl
  · obtain ⟨hd, hc⟩ := hp _ rfl
    obtain ⟨hc, hcne⟩ := hc cycle rfl
    refine ⟨n + 1 + digits.length + 1 + cycle.length + 1, ?_⟩
    have hopen : EndsDigits ('(' :: (cycle ++ (')' :: rest))) := fun c hc => by
      obtain rfl := Option.some.inj hc
      rfl
    have hclose : EndsDigits (')' :: rest) := fun c hc => by
      obtain rfl := Option.some.inj hc
      rfl
    have hdigits := digits_append hd hopen (n + 1)
    have hcycle := digits_append hc hclose (n + 1 + digits.length + 1)
    unfold readFraction
    simp only [Option.map_some, Option.getD_some, Fraction.text, List.cons_append, List.append_assoc, Cursor.skip,
      List.drop_succ_cons, List.drop_zero, List.nil_append]
    rw [if_neg (by simp), hdigits]
    simp only
    rw [if_neg (by simp)]
    simp only [List.drop_succ_cons, List.drop_zero, hcycle, Cursor.expect, List.head?_cons, beq_self_eq_true, if_true,
      Cursor.skip]
    show (if cycle.isEmpty = true then _ else _) = _
    rw [if_neg (by simpa using hcne)]
    rfl

/-- A power of ten starts with its letter. -/
theorem Power.head_text (p : Power) (rest : List Char) : ∀ c ∈ (p.text ++ rest).head?, c = 'e' ∨ c = 'E' := by
  intro c hc
  obtain rfl := Option.some.inj hc
  cases p.upper
  · exact .inl rfl
  · exact .inr rfl

/-- The digits of a power are counted before anything behind them is looked at. -/
theorem readPower_append (s : String) {p : Power} (hd : IsDigits p.digits) (hne : p.digits ≠ []) {rest : List Char}
    (hrest : EndsDigits rest) (n : Nat) :
    ∃ m, readPower s ⟨p.text ++ rest, n⟩ =
      if Failure.digitLimit < p.digits.length then .error .textValue else .ok (p.value, ⟨rest, m⟩) := by
  refine ⟨n + 1 + (signChars p.sign).length + p.digits.length, ?_⟩
  have hhead : ∀ c ∈ (p.digits ++ rest).head?, c ≠ '-' ∧ c ≠ '+' := fun c hc => by
    rw [List.head?_append_of_ne_nil _ hne] at hc
    exact ne_sign_of_digit_or_point (.inl (hd c (List.mem_of_mem_head? hc)))
  have hsign := sign_append (s := p.sign) hhead (n + 1)
  have hdigits := digits_append hd hrest (n + 1 + (signChars p.sign).length)
  unfold readPower
  simp only [Power.text, List.cons_append, List.append_assoc, Cursor.skip, List.drop_succ_cons, List.drop_zero]
  rw [if_pos (by cases p.upper <;> simp), hsign]
  simp only
  rw [hdigits]
  simp only
  rw [if_neg (by simpa using hne)]
  rfl

theorem readPower_text (s : String) {power : Option Power} (hp : ∀ p ∈ power, p.WellFormed) (n : Nat) :
    ∃ m, readPower s ⟨(power.map Power.text).getD [], n⟩ = .ok ((power.map Power.value).getD 0, ⟨[], m⟩) := by
  rcases power with _ | p
  · exact ⟨n, rfl⟩
  · obtain ⟨hd, hne, hlimit⟩ := hp p rfl
    obtain ⟨m, hm⟩ := readPower_append s hd hne (show EndsDigits [] from nofun) n
    rw [if_neg (not_lt.2 hlimit), List.append_nil] at hm
    exact ⟨m, hm⟩

/-! ## The mark of an approximation -/

theorem eq_of_mem_mark {c : Char} (h : c ∈ approximationMark) : c = '.' := List.eq_of_mem_replicate (n := 3) h

theorem endsDigits_mark (approximate : Bool) : EndsDigits (if approximate then approximationMark else []) := by
  intro c hc
  split at hc
  · rw [eq_of_mem_mark (List.mem_of_mem_head? hc)]
    rfl
  · cases hc

theorem splitMark_append (cs : List Char) : splitMark (cs ++ approximationMark) = (cs, true) := by
  unfold splitMark
  rw [if_pos (List.isSuffixOf_iff_suffix.2 (List.suffix_append cs approximationMark)), List.length_append]
  show (List.take (cs.length + 3 - 3) (cs ++ approximationMark), true) = _
  rw [Nat.add_sub_cancel, List.take_left]

theorem count_point_of_isDigits {cs : List Char} (h : IsDigits cs) : cs.count '.' = 0 :=
  List.count_eq_zero.2 fun hc => absurd (h _ hc) (by decide)

theorem count_point_signChars (s : Option Bool) : (signChars s).count '.' = 0 := by
  rcases s with _ | _ | _ <;> rfl

/-- A literal has at most one point besides its mark. -/
theorem Literal.WellFormed.count_point {l : Literal} (h : l.WellFormed) : l.unmarked.count '.' ≤ 1 := by
  have hpower : ((l.power.map Power.text).getD []).count '.' = 0 := by
    rcases hp : l.power with _ | p
    · rfl
    · have := h.power p hp
      simp only [Option.map_some, Option.getD_some, Power.text, List.count_cons, List.count_append,
        count_point_signChars, count_point_of_isDigits this.digits]
      cases p.upper <;> rfl
  have hpoint : ((l.point.map Fraction.text).getD []).count '.' ≤ 1 := by
    rcases hp : l.point with _ | ⟨digits, _ | cycle⟩
    · exact Nat.zero_le 1
    · have := h.point _ hp
      simp [Fraction.text, count_point_of_isDigits this.digits]
    · have := h.point _ hp
      simp [Fraction.text, List.count_append, count_point_of_isDigits this.digits,
        count_point_of_isDigits (this.cycle cycle rfl).1]
  unfold unmarked body
  rw [List.count_append, List.count_append, List.count_append, count_point_signChars,
    count_point_of_isDigits h.whole, hpower]
  omega

theorem splitMark_text {l : Literal} (h : l.WellFormed) : splitMark l.text = (l.unmarked, l.approximate) := by
  unfold Literal.text
  rcases l.approximate with _ | _
  · have hnot : ¬ approximationMark.isSuffixOf l.unmarked = true := fun hs => by
      have hcount := (List.isSuffixOf_iff_suffix.1 hs).sublist.count_le '.'
      have := h.count_point
      rw [show approximationMark.count '.' = 3 from rfl] at hcount
      omega
    rw [if_neg Bool.false_ne_true, List.append_nil, splitMark, if_neg hnot]
  · rw [if_pos rfl]
    exact splitMark_append _

/-! ## Reading a literal -/

theorem signChars_not_blank (s : Option Bool) : ∀ c ∈ signChars s, isBlank c = false := by
  rcases s with _ | _ | _
  · exact fun c hc => absurd hc List.not_mem_nil
  · exact fun c hc => by rw [List.mem_singleton.1 hc]; rfl
  · exact fun c hc => by rw [List.mem_singleton.1 hc]; rfl

theorem signChars_ne_nil (negative : Bool) : signChars (some negative) ≠ [] := by
  cases negative <;> exact List.cons_ne_nil _ _

theorem head?_signChars_append (negative : Bool) (cs : List Char) :
    ∀ c ∈ (signChars (some negative) ++ cs).head?, isBlank c = false := by
  intro c hc
  rw [List.head?_append_of_ne_nil _ (signChars_ne_nil negative)] at hc
  exact signChars_not_blank _ c (List.mem_of_mem_head? hc)

namespace Literal.WellFormed

variable {l : Literal}

/-- Behind the sign stands a digit or the point. -/
theorem head_body (h : l.WellFormed) :
    ∃ c cs, l.body = c :: cs ∧ (isAsciiDigit c = true ∨ c = '.') := by
  unfold body
  rcases hw : l.whole with _ | ⟨c, cs⟩
  · rcases hp : l.point with _ | f
    · rcases h.nonempty with hne | hne
      · exact absurd hw hne
      · exact absurd (by rw [fraction, hp]; rfl) hne
    · exact ⟨'.', _, rfl, .inr rfl⟩
  · exact ⟨c, _, rfl, .inl (h.whole c (hw ▸ List.mem_cons_self))⟩

theorem head_body_ne (h : l.WellFormed) (rest : List Char) :
    ∀ c ∈ (l.body ++ rest).head?, c ≠ '-' ∧ c ≠ '+' := by
  obtain ⟨d, cs, heq, hd⟩ := h.head_body
  rintro c hc
  rw [heq] at hc
  obtain rfl := Option.some.inj hc
  exact ne_sign_of_digit_or_point hd

theorem not_blank (h : l.WellFormed) : ∀ c ∈ l.text, isBlank c = false := by
  have hdigits : ∀ {ds : List Char}, IsDigits ds → ∀ c ∈ ds, isBlank c = false :=
    fun hds c hc => isBlank_of_isAsciiDigit (hds c hc)
  have hmark : ∀ c ∈ (if l.approximate then approximationMark else []), isBlank c = false := by
    cases l.approximate
    · exact fun c hc => absurd hc List.not_mem_nil
    · exact fun c hc => by rw [eq_of_mem_mark hc]; rfl
  have hpower : ∀ c ∈ (l.power.map Power.text).getD [], isBlank c = false := by
    rcases hp : l.power with _ | p
    · exact fun c hc => absurd hc List.not_mem_nil
    · intro c hc
      rcases List.mem_cons.1 hc with rfl | hc
      · cases p.upper <;> rfl
      rcases List.mem_append.1 hc with hc | hc
      · exact signChars_not_blank _ c hc
      · exact hdigits (h.power p hp).digits c hc
  have hpoint : ∀ c ∈ (l.point.map Fraction.text).getD [], isBlank c = false := by
    rcases hp : l.point with _ | ⟨digits, cycle⟩
    · exact fun c hc => absurd hc List.not_mem_nil
    · have hf := h.point _ hp
      intro c hc
      rcases List.mem_cons.1 hc with rfl | hc
      · rfl
      rcases List.mem_append.1 hc with hc | hc
      · exact hdigits hf.digits c hc
      rcases cycle with _ | cycle
      · exact absurd hc List.not_mem_nil
      rcases List.mem_cons.1 hc with rfl | hc
      · rfl
      rcases List.mem_append.1 hc with hc | hc
      · exact hdigits (hf.cycle cycle rfl).1 c hc
      · rw [List.mem_singleton.1 hc]; rfl
  intro c hc
  unfold text unmarked body at hc
  simp only [List.mem_append] at hc
  rcases hc with (hc | hc | hc | hc) | hc
  · exact signChars_not_blank _ c hc
  · exact hdigits h.whole c hc
  · exact hpoint c hc
  · exact hpower c hc
  · exact hmark c hc

end Literal.WellFormed

/-- The digits of a literal are read whatever follows them, as long as it starts like a power of ten. -/
theorem readDigitsReal_digits {l : Literal} (h : l.WellFormed) {cs tail : List Char} {approximate : Bool}
    (hsplit : splitMark cs = (signChars l.sign ++ (l.whole ++ ((l.point.map Fraction.text).getD [] ++ tail)), approximate))
    (htail : ∀ c ∈ tail.head?, c = 'e' ∨ c = 'E') (negative : Bool) :
    ∃ m, readDigitsReal negative (signChars l.sign).length cs =
      readPower (String.ofList (splitMark cs).1) ⟨tail, m⟩ >>= fun power =>
        if !power.2.rest.isEmpty then malformed (.trailing power.2.position (String.ofList (splitMark cs).1))
        else realOfParts (String.ofList (splitMark cs).1) negative l.whole l.fraction l.cycle? power.1 approximate := by
  have hpoint : EndsDigits ((l.point.map Fraction.text).getD [] ++ tail) := by
    intro c hc
    rcases hf : l.point with _ | f
    · rw [hf] at hc
      rcases htail c hc with rfl | rfl <;> rfl
    · rw [hf] at hc
      obtain rfl := Option.some.inj hc
      rfl
  have hcursor : cursorAt (splitMark cs).1 (signChars l.sign).length =
      ⟨l.whole ++ ((l.point.map Fraction.text).getD [] ++ tail), (signChars l.sign).length⟩ := by
    rw [hsplit, cursorAt, List.drop_left]
  have hdigits := digits_append h.whole hpoint (signChars l.sign).length
  obtain ⟨m, hm⟩ := readFraction_append (String.ofList (splitMark cs).1) h.point htail
    ((signChars l.sign).length + l.whole.length)
  have hne : ¬ (l.whole.isEmpty && l.fraction.isEmpty) = true := by
    rw [Bool.and_eq_true, List.isEmpty_iff, List.isEmpty_iff]
    rintro ⟨h1, h2⟩
    rcases h.nonempty with hn | hn
    · exact hn h1
    · exact hn h2
  refine ⟨m, ?_⟩
  unfold readDigitsReal
  simp only [hcursor, hdigits, hm]
  show (if (l.whole.isEmpty && l.fraction.isEmpty) = true then _ else _) = _
  rw [if_neg hne, hsplit]
  rfl

theorem readDigitsReal_text {l : Literal} (h : l.WellFormed) (negative : Bool) :
    readDigitsReal negative (signChars l.sign).length l.text =
      realOfParts (String.ofList l.unmarked) negative l.whole l.fraction l.cycle? l.exponent l.approximate := by
  have hpower : ∀ c ∈ ((l.power.map Power.text).getD []).head?, c = 'e' ∨ c = 'E' := by
    intro c hc
    rcases hp : l.power with _ | p
    · rw [hp] at hc
      exact nomatch hc
    · rw [hp] at hc
      exact p.head_text [] c (by rwa [List.append_nil])
  obtain ⟨m, hm⟩ := readDigitsReal_digits h (splitMark_text h) hpower negative
  obtain ⟨k, hk⟩ := readPower_text (String.ofList l.unmarked) h.power m
  rw [hm, splitMark_text h, hk]
  rfl

/-- A text that has a digit or a point behind its sign is no special word. -/
theorem readReal_of_digit {text : String} {sign : Option Bool} {d : Char} {rest : List Char}
    (hcs : trim text.toList = signChars sign ++ d :: rest) (hd : isAsciiDigit d = true ∨ d = '.') :
    readReal text = readDigitsReal (sign == some true) (signChars sign).length (trim text.toList) := by
  have hne : ∀ c ∈ (d :: rest).head?, c ≠ '-' ∧ c ≠ '+' := by
    intro c hc
    obtain rfl := Option.some.inj hc
    exact ne_sign_of_digit_or_point hd
  have hsign := sign_append (s := sign) hne 0
  rw [← hcs, Nat.zero_add] at hsign
  -- lower case keeps the first character, and no special word begins with it
  have hword : ∀ w : String, String.ofList (lowerAll (d :: rest)) = w → w.toList.head? = some d := by
    rintro w rfl
    rw [String.toList_ofList]
    rcases hd with hd | rfl
    · rw [lowerAll, List.flatMap_cons, lower_of_isAsciiDigit hd]
      rfl
    · rfl
  have hletter : d ≠ 'n' ∧ d ≠ 'i' := by
    rcases hd with hd | rfl
    · constructor <;> rintro rfl <;> exact absurd hd (by decide)
    · decide
  have hcursor : cursorAt (trim text.toList) 0 = ⟨trim text.toList, 0⟩ := rfl
  unfold readReal
  simp only [hcursor, hsign]
  split
  · rename_i heq
    exact absurd (Option.some.inj (hword _ heq)).symm hletter.1
  · rename_i heq
    exact absurd (Option.some.inj (hword _ heq)).symm hletter.2
  · rename_i heq
    exact absurd (Option.some.inj (hword _ heq)).symm hletter.2
  · rfl

theorem readReal_of_trim {l : Literal} (h : l.WellFormed) {text : String} (htext : trim text.toList = l.text) :
    readReal text =
      realOfParts (String.ofList l.unmarked) l.negative l.whole l.fraction l.cycle? l.exponent l.approximate := by
  obtain ⟨d, cs, hbody, hd⟩ := h.head_body
  have hcs : trim text.toList = signChars l.sign ++ d :: (cs ++ if l.approximate then approximationMark else []) := by
    rw [htext, Literal.text, Literal.unmarked, hbody, List.append_assoc, List.cons_append]
  rw [readReal_of_digit hcs hd, htext]
  exact readDigitsReal_text h l.negative

/-- Reading a literal gives the number that its pieces denote. -/
theorem readReal_text {l : Literal} (h : l.WellFormed) :
    readReal (String.ofList l.text) =
      realOfParts (String.ofList l.unmarked) l.negative l.whole l.fraction l.cycle? l.exponent l.approximate :=
  readReal_of_trim h (by rw [String.toList_ofList, trim_of_not_blank h.not_blank])

end Reckon.Notation
