/-
Cutting a text into lexemes loses nothing and can be repeated. How far a lexeme goes may depend on what
follows it: a cycle needs its closing bracket, a power its digits, and a unit must not begin a word. But
what a lexeme counts of a text is counted again in the lexeme alone, and it has no blank.
-/
import Reckon.Proofs.Calculator.Lexemes

namespace Reckon.Calculator

open Reckon.Outcome Reckon.Text

/-! ## Blanks -/

/-- The code points of the blank characters. -/
def blankCodes : List Nat :=
  [9, 10, 11, 12, 13, 28, 29, 30, 31, 32, 0x85, 0xA0, 0x1680, 0x2000, 0x2001, 0x2002, 0x2003, 0x2004, 0x2005,
    0x2006, 0x2007, 0x2008, 0x2009, 0x200A, 0x2028, 0x2029, 0x202F, 0x205F, 0x3000]

theorem mem_blankCodes {c : Char} (h : isBlank c = true) : c.toNat ∈ blankCodes := by
  simp only [isBlank, Bool.or_eq_true, Bool.and_eq_true, decide_eq_true_eq, beq_iff_eq] at h
  simp only [blankCodes, List.mem_cons, List.not_mem_nil, or_false]
  omega

/-- A class of characters without the blank ones. The tables of a class are searched as lists, which the
kernel does faster. -/
theorem isBlank_of_class {p : Char → Bool} (h : ∀ n ∈ blankCodes, p (Char.ofNat n) = false) {c : Char}
    (hc : p c = true) : isBlank c = false := by
  by_contra hblank
  have := h _ (mem_blankCodes (by simpa using hblank))
  rw [Char.ofNat_toNat, hc] at this
  cases this

theorem isBlank_of_isWordPart {c : Char} (h : isWordPart c = true) : isBlank c = false := by
  refine isBlank_of_class ?_ h
  simp only [isWordPart, isLetterOrNumeral, isLetter, isDigit, inRanges, ← Array.any_toList]
  decide +kernel

theorem isWordPart_of_isDigit {c : Char} (h : isDigit c = true) : isWordPart c = true := by
  simp [isWordPart, isLetterOrNumeral, h]

theorem isWordPart_of_isWordStart {c : Char} (h : isWordStart c = true) : isWordPart c = true := by
  rcases Bool.or_eq_true_iff.1 h with hletter | hline
  · simp [isWordPart, isLetterOrNumeral, hletter]
  · simp [isWordPart, hline]

theorem isBlank_of_isDigit {c : Char} (h : isDigit c = true) : isBlank c = false :=
  isBlank_of_isWordPart (isWordPart_of_isDigit h)

/-! ## Lengths that are counted again -/

/-- The length counts no blank. -/
def IsSolid (f : List Char → Nat) : Prop :=
  ∀ cs : List Char, ∀ c ∈ cs.take (f cs), isBlank c = false

/-- The length is the same in a text that is cut off behind it. -/
def IsSteady (f : List Char → Nat) : Prop :=
  ∀ (cs : List Char) (k : Nat), f cs ≤ k → f (cs.take k) = f cs

/-- What the length counts is counted again on its own. -/
def IsReadAgain (f : List Char → Nat) : Prop := ∀ cs : List Char, f (cs.take (f cs)) = f cs

theorem IsSteady.isReadAgain {f : List Char → Nat} (h : IsSteady f) : IsReadAgain f := fun cs => h cs _ le_rfl

section Behind

variable {f g : List Char → Nat}

theorem IsSolid.add (hf : IsSolid f) (hg : IsSolid g) : IsSolid fun cs => f cs + g (cs.drop (f cs)) := by
  intro cs c hc
  rw [List.take_add] at hc
  rcases List.mem_append.1 hc with hc | hc
  · exact hf cs c hc
  · exact hg _ c hc

theorem IsSteady.add (hf : IsSteady f) (hg : IsSteady g) : IsSteady fun cs => f cs + g (cs.drop (f cs)) := by
  intro cs k (hk : f cs + g (cs.drop (f cs)) ≤ k)
  have hfirst := hf cs k (by omega)
  have hbehind := hg (cs.drop (f cs)) (k - f cs) (by omega)
  simp only [hfirst, List.drop_take, hbehind]

/-- Only the last of several lengths may depend on what follows it. -/
theorem IsSteady.add_isReadAgain (hf : IsSteady f) (hg : IsReadAgain g) :
    IsReadAgain fun cs => f cs + g (cs.drop (f cs)) := by
  intro cs
  have hfirst := hf cs (f cs + g (cs.drop (f cs))) (by omega)
  have hbehind := hg (cs.drop (f cs))
  simp only [hfirst, List.drop_take, Nat.add_sub_cancel_left, hbehind]

end Behind

section TakeWhile

variable {p : Char → Bool}

theorem length_takeWhile_take (cs : List Char) (k : Nat) :
    ((cs.take k).takeWhile p).length = min k (cs.takeWhile p).length := by
  induction cs generalizing k with
  | nil => simp
  | cons c cs ih =>
    cases k with
    | zero => simp
    | succ k =>
      rw [List.take_succ_cons, List.takeWhile_cons, List.takeWhile_cons]
      split
      · rw [List.length_cons, List.length_cons, ih, Nat.succ_min_succ]
      · simp

theorem isSteady_takeWhile : IsSteady fun cs => (cs.takeWhile p).length := by
  intro cs k hk
  simp only [length_takeWhile_take]
  exact Nat.min_eq_right hk

theorem isSolid_takeWhile (h : ∀ c, p c = true → isBlank c = false) :
    IsSolid fun cs => (cs.takeWhile p).length := by
  intro cs c hc
  rw [← List.prefix_iff_eq_take.1 (List.takeWhile_prefix p)] at hc
  exact h c (List.mem_takeWhile_imp hc)

end TakeWhile

/-! ## The parts of a number -/

theorem isSolid_cycleLength : IsSolid cycleLength := by
  intro cs c hc
  unfold cycleLength at hc
  split at hc
  · rename_i cs
    dsimp only at hc
    split at hc
    · rename_i hclosing
      rw [Bool.and_eq_true, beq_iff_eq, List.head?_eq_some_iff] at hclosing
      obtain ⟨-, rest, hrest⟩ := hclosing
      rw [List.take_succ_cons, List.take_add, hrest, List.take_one, List.head?_cons] at hc
      rcases List.mem_cons.1 hc with rfl | hc
      · decide
      · rcases List.mem_append.1 hc with hc | hc
        · exact isSolid_takeWhile (fun _ => isBlank_of_isDigit) cs c hc
        · obtain rfl := List.mem_singleton.1 hc
          decide
    · cases hc
  · cases hc

theorem isSteady_cycleLength : IsSteady cycleLength := by
  intro cs k hk
  match cs, k with
  | [], _ => rw [List.take_nil]
  | c :: cs, 0 => exact (Nat.le_zero.1 hk).symm
  | c :: cs, k + 1 =>
    rw [List.take_succ_cons]
    by_cases hc : c = '('
    · subst hc
      simp only [cycleLength, length_takeWhile_take, List.head?_drop, List.getElem?_take] at hk ⊢
      by_cases hlt : (cs.takeWhile isDigit).length < k
      · rw [Nat.min_eq_right hlt.le, if_pos hlt]
      · -- cut off before the closing bracket there is no cycle, and there was none
        rw [Nat.min_eq_left (not_lt.1 hlt), if_neg (lt_irrefl k)]
        split at hk
        · omega
        · rename_i hnone
          rw [if_neg hnone, if_neg (by simp)]
    · rw [cycleLength_of_ne hc, cycleLength_of_ne hc]

/-- The length of the sign of a power. -/
def signLength (cs : List Char) : Nat := if cs.head? == some '+' || cs.head? == some '-' then 1 else 0

/-- How many digits a power has behind its sign. -/
def powerDigits (cs : List Char) : Nat := ((cs.drop (signLength cs)).takeWhile isDigit).length

theorem powerLength_cons (c : Char) (cs : List Char) : powerLength (c :: cs) =
    if c == 'e' || c == 'E' then if powerDigits cs = 0 then 0 else 1 + signLength cs + powerDigits cs else 0 := rfl

theorem signLength_take_succ (cs : List Char) (k : Nat) : signLength (cs.take (k + 1)) = signLength cs := by
  cases cs <;> rfl

theorem isSolid_signLength : IsSolid signLength := by
  intro cs c hc
  cases cs with
  | nil => cases hc
  | cons d cs =>
    unfold signLength at hc
    split at hc
    · rename_i hsign
      obtain rfl := List.mem_singleton.1 hc
      simp only [List.head?_cons, Bool.or_eq_true, beq_iff_eq, Option.some.injEq] at hsign
      rcases hsign with rfl | rfl <;> decide
    · cases hc

theorem powerDigits_take (cs : List Char) (k : Nat) :
    powerDigits (cs.take k) = min (k - signLength cs) (powerDigits cs) := by
  cases k with
  | zero =>
    rw [Nat.zero_sub, Nat.zero_min, List.take_zero]
    rfl
  | succ k => rw [powerDigits, signLength_take_succ, List.drop_take, length_takeWhile_take, powerDigits]

theorem isSteady_powerLength : IsSteady powerLength := by
  intro cs k hk
  match cs, k with
  | [], _ => rw [List.take_nil]
  | c :: cs, 0 => exact (Nat.le_zero.1 hk).symm
  | c :: cs, k + 1 =>
    rw [powerLength_cons] at hk ⊢
    rw [List.take_succ_cons, powerLength_cons, powerDigits_take]
    split
    · rename_i hmark
      rw [if_pos hmark] at hk
      by_cases hnone : powerDigits cs = 0
      · rw [if_pos hnone, if_pos (by omega)]
      · -- the sign and a digit stand before the cut
        rw [if_neg hnone] at hk
        obtain ⟨l, rfl⟩ : ∃ l, k = l + 1 := ⟨k - 1, by omega⟩
        rw [signLength_take_succ, Nat.min_eq_right (by omega)]
    · rfl

theorem isSolid_powerLength : IsSolid powerLength := by
  intro cs c hc
  cases cs with
  | nil => cases hc
  | cons m cs =>
    rw [powerLength_cons] at hc
    split at hc
    · rename_i hmark
      split at hc
      · cases hc
      · rw [Nat.add_assoc, Nat.add_comm 1, List.take_succ_cons] at hc
        rcases List.mem_cons.1 hc with rfl | hc
        · simp only [Bool.or_eq_true, beq_iff_eq] at hmark
          rcases hmark with rfl | rfl <;> decide
        · exact isSolid_signLength.add (isSolid_takeWhile fun _ => isBlank_of_isDigit) cs c hc
    · cases hc

theorem isSolid_unitLength : IsSolid unitLength := by
  intro cs c hc
  unfold unitLength at hc
  split at hc
  · split at hc
    · cases hc
    · obtain rfl := List.mem_singleton.1 hc
      decide
  · cases hc

/-- A unit before a word is none, but it is one where the word is cut off. -/
theorem isReadAgain_unitLength : IsReadAgain unitLength := by
  intro cs
  cases cs with
  | nil => rfl
  | cons c cs =>
    by_cases hc : c = 'i'
    · subst hc
      rw [show unitLength ('i' :: cs) = if cs.head?.any isWordPart then 0 else 1 from rfl]
      split <;> rfl
    · rw [unitLength_of_ne hc]
      rfl

/-! ## Numbers -/

/-- The digits and points of a number, its cycle and its power, without a unit. -/
theorem isReadAgain_plainLength : IsReadAgain numberLength.plainLength :=
  ((isSteady_takeWhile.add isSteady_cycleLength).add isSteady_powerLength).add_isReadAgain isReadAgain_unitLength

theorem isSolid_plainLength : IsSolid numberLength.plainLength := by
  have hdigits : ∀ c, (isDigit c || c == '.') = true → isBlank c = false := by
    intro c hc
    rcases Bool.or_eq_true_iff.1 hc with hdigit | hpoint
    · exact isBlank_of_isDigit hdigit
    · obtain rfl := beq_iff_eq.1 hpoint
      decide
  exact (((isSolid_takeWhile hdigits).add isSolid_cycleLength).add isSolid_powerLength).add isSolid_unitLength

theorem isReadAgain_numberLength : IsReadAgain numberLength := by
  intro cs
  obtain ⟨m, us, rfl, hm⟩ | hplain := marked_or cs
  · have hword := (@isSteady_takeWhile isWordPart).isReadAgain us
    simp only [numberLength, hm, if_true, Nat.add_comm 2, List.take_succ_cons] at hword ⊢
    rw [hword]
  · rw [numberLength_of_ne hplain, numberLength_of_ne, isReadAgain_plainLength]
    -- a text without the mark of a radix has none when it is cut off
    intro m us hcut
    obtain ⟨rest, hrest⟩ := hcut ▸ List.take_prefix (numberLength.plainLength cs) cs
    exact hplain m (us ++ rest) hrest.symm

theorem isSolid_numberLength : IsSolid numberLength := by
  intro cs c hc
  obtain ⟨m, us, rfl, hm⟩ | hplain := marked_or cs
  · simp only [numberLength, hm, if_true, Nat.add_comm 2, List.take_succ_cons] at hc
    rcases List.mem_cons.1 hc with rfl | hc
    · decide
    · rcases List.mem_cons.1 hc with rfl | hc
      · refine isBlank_of_class ?_ hm
        decide
      · exact isSolid_takeWhile (fun _ => isBlank_of_isWordPart) us c hc
  · rw [numberLength_of_ne hplain] at hc
    exact isSolid_plainLength cs c hc

theorem numberLength_pos {c : Char} (h : (isDigit c || c == '.') = true) (cs : List Char) :
    0 < numberLength (c :: cs) := by
  obtain ⟨m, us, hcs, hm⟩ | hplain := marked_or (c :: cs)
  · rw [hcs]
    simp only [numberLength, hm, if_true]
    omega
  · rw [numberLength_of_ne hplain]
    simp only [numberLength.plainLength, List.takeWhile_cons, h, if_true, List.length_cons]
    omega

/-! ## Lexemes -/

/-- The first character of a number and what its length counts behind it. -/
theorem take_numberLength {c : Char} (h : (isDigit c || c == '.') = true) (cs : List Char) :
    (c :: cs).take (numberLength (c :: cs)) = c :: cs.take (numberLength (c :: cs) - 1) := by
  obtain ⟨n, hn⟩ := Nat.exists_eq_succ_of_ne_zero (numberLength_pos h cs).ne'
  rw [hn, List.take_succ_cons, Nat.succ_sub_one]

/-- A pair of characters in a text that is cut off stands in the text. -/
theorem any_head?_take {p : Char → Bool} {cs : List Char} {k : Nat} (h : cs.head?.any p = false) :
    (cs.take k).head?.any p = false := by
  cases cs with
  | nil => rwa [List.take_nil]
  | cons c cs =>
    cases k with
    | zero => rfl
    | succ k => exact h

/-- What belongs to a lexeme belongs to it when the text ends there. -/
theorem lexemeTail_take {c : Char} {cs : List Char} {k : Nat} (h : lexemeTail c cs = some k) :
    lexemeTail c (cs.take k) = some k := by
  unfold lexemeTail at h ⊢
  by_cases hpair : cs.head?.any (isPair c) = true
  · rw [if_pos hpair] at h
    obtain rfl := Option.some.inj h
    cases cs with
    | nil => cases hpair
    | cons d cs => exact if_pos hpair
  rw [if_neg hpair] at h
  rw [if_neg (by rw [any_head?_take (by simpa using hpair)]; exact Bool.false_ne_true)]
  by_cases hsign : isSign c = true
  · rwa [if_pos hsign] at h ⊢
  rw [if_neg hsign] at h ⊢
  by_cases hdigit : (isDigit c || c == '.') = true
  · rw [if_pos hdigit] at h ⊢
    obtain rfl := Option.some.inj h
    rw [← take_numberLength hdigit, isReadAgain_numberLength]
  rw [if_neg hdigit] at h ⊢
  by_cases hstart : isWordStart c = true
  · rw [if_pos hstart] at h ⊢
    obtain rfl := Option.some.inj h
    exact congrArg some (isSteady_takeWhile.isReadAgain cs)
  · rw [if_neg hstart] at h
    cases h

/-- No blank belongs to a lexeme. -/
theorem isBlank_of_lexemeTail {c : Char} {cs : List Char} {k : Nat} (h : lexemeTail c cs = some k) :
    ∀ d ∈ cs.take k, isBlank d = false := by
  intro d hd
  unfold lexemeTail at h
  split at h
  · rename_i hpair
    obtain rfl := Option.some.inj h
    cases cs with
    | nil => cases hd
    | cons e cs =>
      obtain rfl := List.mem_singleton.1 hd
      simp only [List.head?_cons, Option.any_some, isPair, Bool.and_eq_true, beq_iff_eq] at hpair
      rw [hpair.1]
      decide
  · split at h
    · obtain rfl := Option.some.inj h
      cases hd
    · split at h
      · rename_i hdigit
        obtain rfl := Option.some.inj h
        exact isSolid_numberLength (c :: cs) d (take_numberLength hdigit cs ▸ List.mem_cons_of_mem c hd)
      · split at h
        · obtain rfl := Option.some.inj h
          exact isSolid_takeWhile (fun _ => isBlank_of_isWordPart) cs d hd
        · cases h

/-- A lexeme of a text is the only lexeme of itself. -/
theorem lexemes_of_lexemeTail {c : Char} {cs : List Char} {k : Nat} (hblank : isBlank c = false)
    (h : lexemeTail c cs = some k) :
    lexemes (String.ofList (c :: cs.take k)) = .ok [String.ofList (c :: cs.take k)] := by
  rw [lexemes, String.toList_ofList, lexemesFrom, hblank, lexemeTail_take h]
  simp only [Bool.false_eq_true, if_false, List.take_take, Nat.min_self]
  rw [List.drop_eq_nil_of_le (List.length_take_le _ _), lexemesFrom]
  rfl

/-! ## Texts -/

/-- The lexemes of a text are all of it but its blanks, and each of them is a lexeme on its own. -/
theorem lexemesFrom_pieces {i : Nat} {cs : List Char} {ts : List String} (h : lexemesFrom i cs = .ok ts) :
    ts.flatMap String.toList = cs.filter (!isBlank ·) ∧
      ∀ t ∈ ts, lexemes t = .ok [t] ∧ t ≠ "" ∧ ∀ c ∈ t.toList, isBlank c = false := by
  fun_induction lexemesFrom i cs generalizing ts with
  | case1 i =>
    obtain rfl := Except.ok.inj h
    exact ⟨rfl, List.forall_mem_nil _⟩
  | case2 i c cs hblank ih =>
    rw [List.filter_cons_of_neg (by simp [hblank])]
    exact ih h
  | case3 i c cs hblank hnone => cases h
  | case4 i c cs hblank k hk ih =>
    obtain ⟨rest, hrest, hts⟩ := bind_eq_ok.1 h
    obtain rfl := Except.ok.inj hts
    obtain ⟨hjoined, hpieces⟩ := ih hrest
    have hblank : isBlank c = false := by simpa using hblank
    -- a lexeme holds no blank, so leaving blanks out leaves it as it is
    have hsolid : ∀ d ∈ c :: cs.take k, isBlank d = false :=
      List.forall_mem_cons.2 ⟨hblank, isBlank_of_lexemeTail hk⟩
    have hkept : (c :: cs.take k).filter (!isBlank ·) = c :: cs.take k :=
      List.filter_eq_self.2 fun d hd => by rw [hsolid d hd]; rfl
    constructor
    · calc (String.ofList (c :: cs.take k) :: rest).flatMap String.toList
          = (c :: cs.take k) ++ rest.flatMap String.toList := by rw [List.flatMap_cons, String.toList_ofList]
        _ = (c :: cs.take k).filter (!isBlank ·) ++ (cs.drop k).filter (!isBlank ·) := by
            rw [hjoined, hkept]
        _ = (c :: cs).filter (!isBlank ·) := by
            rw [← List.filter_append, List.cons_append, List.take_append_drop]
    · refine List.forall_mem_cons.2 ⟨⟨lexemes_of_lexemeTail hblank hk, ?_, ?_⟩, hpieces⟩
      · exact fun hempty => List.cons_ne_nil _ _ (String.ofList_eq_empty_iff.1 hempty)
      · rwa [String.toList_ofList]

/-- Cutting a text fails at a character of the text, which the error names with its position. -/
theorem lexemesFrom_error {i : Nat} {cs : List Char} {f : Failure} (h : lexemesFrom i cs = .error f) :
    ∃ n c, cs[n]? = some c ∧ isBlank c = false ∧ f = .numeric (.unexpectedCharacter c (i + n)) := by
  fun_induction lexemesFrom i cs with
  | case1 i => cases h
  | case2 i c cs hblank ih =>
    obtain ⟨n, d, hd, hsolid, hf⟩ := ih h
    exact ⟨n + 1, d, hd, hsolid, by rw [hf, Nat.add_right_comm, Nat.add_assoc]⟩
  | case3 i c cs hblank hnone => exact ⟨0, c, rfl, by simpa using hblank, (Except.error.inj h).symm⟩
  | case4 i c cs hblank k hk ih =>
    rcases bind_eq_error.1 h with h | ⟨_, _, h⟩
    · obtain ⟨n, d, hd, hsolid, hf⟩ := ih h
      rw [List.getElem?_drop] at hd
      exact ⟨k + n + 1, d, hd, hsolid, by rw [hf, Nat.add_assoc, Nat.add_assoc, Nat.add_comm 1]⟩
    · cases h

/-- The lexemes of a text are not empty, have no blanks, give the text without its blanks when they are
put together, and are found again when they are joined by spaces. A text that has none is refused as of an
invalid format, and the error names a character of the text and its position. -/
theorem lexemes_stable (text : String) :
    (∀ ts, lexemes text = .ok ts → (∀ t ∈ ts, t ≠ "" ∧ ∀ c ∈ t.toList, isBlank c = false) ∧
      String.join ts = String.ofList (text.toList.filter (!isBlank ·)) ∧ lexemes (" ".intercalate ts) = .ok ts) ∧
    ∀ f, lexemes text = .error f → f.code? = some .invalidFormat ∧
      ∃ n c, text.toList[n]? = some c ∧ isBlank c = false ∧ f = .numeric (.unexpectedCharacter c n) := by
  constructor
  · intro ts h
    obtain ⟨hjoined, hpieces⟩ := lexemesFrom_pieces h
    refine ⟨fun t ht => (hpieces t ht).2, ?_, lexemes_intercalate fun t ht => (hpieces t ht).1⟩
    rw [← hjoined, ← String.toList_join, String.ofList_toList]
  · intro f h
    obtain ⟨n, c, hc, hsolid, hf⟩ := lexemesFrom_error h
    rw [Nat.zero_add] at hf
    refine ⟨?_, n, c, hc, hsolid, hf⟩
    rw [hf]
    rfl

/-- A repeating literal, one that ends before a longer word, and a text with a strange character. -/
theorem lexemes_stable_repeating :
    lexemes "0.(3)e2i *\t2ix" = .ok ["0.(3)e2i", "*", "2", "ix"] ∧
    lexemes "0.(3)e2i * 2 ix" = .ok ["0.(3)e2i", "*", "2", "ix"] ∧
    ∃ n c, "1 # 2".toList[n]? = some c ∧ lexemes "1 # 2" = .error (.numeric (.unexpectedCharacter c n)) := by
  have hlexemes : lexemes "0.(3)e2i *\t2ix" = .ok ["0.(3)e2i", "*", "2", "ix"] := by with_unfolding_all decide
  have hrefused : lexemes "1 # 2" = .error (.numeric (.unexpectedCharacter '#' 2)) := by with_unfolding_all decide
  obtain ⟨-, -, hagain⟩ := (lexemes_stable _).1 _ hlexemes
  obtain ⟨-, n, c, hc, -, hf⟩ := (lexemes_stable _).2 _ hrefused
  exact ⟨hlexemes, hagain, n, c, hc, hf ▸ hrefused⟩

end Reckon.Calculator
