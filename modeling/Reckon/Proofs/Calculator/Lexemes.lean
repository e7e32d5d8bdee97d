/-
Lexemes with blanks between them. How far a lexeme goes is decided before the next blank, so the text
of lexemes that are joined by blanks has just these lexemes.
-/
import Reckon.Proofs.Calculator.Failures

namespace Reckon.Calculator

open Reckon.Outcome Reckon.Text

/-! ## Lengths that end before a blank -/

/-- The length counts characters at the start of a text, and none behind a blank. -/
structure StopsAtBlank (f : List Char → Nat) : Prop where
  le : ∀ cs, f cs ≤ cs.length
  blank : ∀ cs rest, f (cs ++ ' ' :: rest) = f cs

namespace StopsAtBlank

theorem takeWhile {p : Char → Bool} (h : p ' ' = false) : StopsAtBlank fun cs => (cs.takeWhile p).length where
  le cs := (List.takeWhile_prefix p).length_le
  blank cs rest := by
    congr 1
    induction cs with
    | nil => simp [h]
    | cons c cs ih => simp [List.takeWhile_cons, ih]

/-- One length behind another. -/
theorem add {f g : List Char → Nat} (hf : StopsAtBlank f) (hg : StopsAtBlank g) :
    StopsAtBlank fun cs => f cs + g (cs.drop (f cs)) where
  le cs := by
    have hbehind := hg.le (cs.drop (f cs))
    rw [List.length_drop] at hbehind
    have := hf.le cs
    omega
  blank cs rest := by rw [hf.blank, List.drop_append_of_le_length (hf.le cs), hg.blank]

end StopsAtBlank

theorem stopsAtBlank_digits : StopsAtBlank fun cs => (cs.takeWhile isDigit).length := .takeWhile (by decide)

/-- Only a closing bracket before the blank closes. -/
theorem head?_blank {d : Char} (h : d ≠ ' ') (cs rest : List Char) :
    ((cs ++ ' ' :: rest).head? == some d) = (cs.head? == some d) := by
  cases cs with
  | nil => simpa using h.symm
  | cons c cs => rfl

theorem cycleLength_of_ne {c : Char} (h : c ≠ '(') (cs : List Char) : cycleLength (c :: cs) = 0 := by
  unfold cycleLength
  split
  · rename_i heq
    exact absurd (List.cons.inj heq).1 h
  · rfl

theorem stopsAtBlank_cycleLength : StopsAtBlank cycleLength where
  le cs := by
    unfold cycleLength
    split
    · rename_i cs
      have hdigits := stopsAtBlank_digits.le cs
      simp only [List.length_cons] at hdigits ⊢
      split
      · rename_i hclosing
        have hlt : (cs.takeWhile isDigit).length < cs.length := by
          by_contra hge
          rw [List.drop_eq_nil_of_le (not_lt.1 hge)] at hclosing
          simp at hclosing
        omega
      · exact Nat.zero_le _
    · exact Nat.zero_le _
  blank cs rest := by
    cases cs with
    | nil => exact cycleLength_of_ne (by decide) rest
    | cons c cs =>
      by_cases hc : c = '('
      · subst hc
        rw [List.cons_append]
        simp only [cycleLength, stopsAtBlank_digits.blank cs rest]
        rw [List.drop_append_of_le_length (stopsAtBlank_digits.le cs), head?_blank (by decide)]
      · rw [List.cons_append, cycleLength_of_ne hc, cycleLength_of_ne hc]

theorem stopsAtBlank_sign :
    StopsAtBlank fun cs => if cs.head? == some '+' || cs.head? == some '-' then 1 else 0 where
  le cs := by
    cases cs with
    | nil => exact le_rfl
    | cons c cs => split <;> simp
  blank cs rest := by rw [head?_blank (by decide), head?_blank (by decide)]

theorem stopsAtBlank_powerLength : StopsAtBlank powerLength where
  le cs := by
    cases cs with
    | nil => exact le_rfl
    | cons c cs =>
      have hdigits := (stopsAtBlank_sign.add stopsAtBlank_digits).le cs
      simp only [powerLength, List.length_cons] at hdigits ⊢
      generalize (if (cs.head? == some '+' || cs.head? == some '-') = true then 1 else 0) = sign at hdigits ⊢
      split
      · split <;> omega
      · exact Nat.zero_le _
  blank cs rest := by
    cases cs with
    | nil => rfl
    | cons c cs =>
      have hsign := stopsAtBlank_sign.blank cs rest
      have hle := stopsAtBlank_sign.le cs
      have hdigits := fun n => stopsAtBlank_digits.blank (cs.drop n) rest
      simp only [List.cons_append, powerLength] at hsign hle hdigits ⊢
      rw [hsign, List.drop_append_of_le_length hle, hdigits]

theorem unitLength_of_ne {c : Char} (h : c ≠ 'i') (cs : List Char) : unitLength (c :: cs) = 0 := by
  unfold unitLength
  split
  · rename_i heq
    exact absurd (List.cons.inj heq).1 h
  · rfl

theorem stopsAtBlank_unitLength : StopsAtBlank unitLength where
  le cs := by
    unfold unitLength
    split
    · split <;> simp
    · exact Nat.zero_le _
  blank cs rest := by
    cases cs with
    | nil => exact unitLength_of_ne (by decide) rest
    | cons c cs =>
      by_cases hc : c = 'i'
      · subst hc
        cases cs with
        | nil => rfl
        | cons d cs => rfl
      · rw [List.cons_append, unitLength_of_ne hc, unitLength_of_ne hc]

theorem numberLength_of_ne {cs : List Char} (h : ∀ m us, cs = '0' :: m :: us → isRadixMark m = false) :
    numberLength cs = numberLength.plainLength cs := by
  unfold numberLength
  split
  · rename_i m us
    rw [if_neg (by simp [h m us rfl])]
  · rfl

theorem stopsAtBlank_plainLength : StopsAtBlank numberLength.plainLength :=
  (((StopsAtBlank.takeWhile (by decide)).add stopsAtBlank_cycleLength).add stopsAtBlank_powerLength).add
    stopsAtBlank_unitLength

theorem stopsAtBlank_wordPart : StopsAtBlank fun cs => (cs.takeWhile isWordPart).length := .takeWhile (by decide)

/-- The text starts with the mark of a radix. -/
theorem marked_or (cs : List Char) : (∃ m us, cs = '0' :: m :: us ∧ isRadixMark m = true) ∨
    ∀ m us, cs = '0' :: m :: us → isRadixMark m = false := by
  by_cases h : ∃ m us, cs = '0' :: m :: us ∧ isRadixMark m = true
  · exact .inl h
  · exact .inr fun m us hcs => by
      by_contra hm
      exact h ⟨m, us, hcs, by simpa using hm⟩

theorem stopsAtBlank_numberLength : StopsAtBlank numberLength where
  le cs := by
    obtain ⟨m, us, rfl, hm⟩ | hplain := marked_or cs
    · have := stopsAtBlank_wordPart.le us
      simp only [numberLength, hm, if_true, List.length_cons]
      omega
    · rw [numberLength_of_ne hplain]
      exact stopsAtBlank_plainLength.le cs
  blank cs rest := by
    obtain ⟨m, us, rfl, hm⟩ | hplain := marked_or cs
    · have := stopsAtBlank_wordPart.blank us rest
      simp only [List.cons_append, numberLength, hm, if_true, this]
    · rw [numberLength_of_ne hplain, numberLength_of_ne, stopsAtBlank_plainLength.blank]
      intro m us hcs
      cases cs with
      | nil => cases hcs
      | cons c cs =>
        cases cs with
        | nil =>
          cases hcs
          decide
        | cons d cs =>
          cases hcs
          exact hplain _ _ rfl

theorem lexemeTail_le {c : Char} {cs : List Char} {k : Nat} (h : lexemeTail c cs = some k) : k ≤ cs.length := by
  have hnumber := stopsAtBlank_numberLength.le (c :: cs)
  have hword := stopsAtBlank_wordPart.le cs
  rw [List.length_cons] at hnumber
  unfold lexemeTail at h
  split at h
  · rename_i hpair
    obtain rfl := Option.some.inj h
    cases cs with
    | nil => cases hpair
    | cons d cs => simp
  · split_ifs at h <;> obtain rfl := Option.some.inj h <;> omega

theorem lexemeTail_blank (c : Char) (cs rest : List Char) : lexemeTail c (cs ++ ' ' :: rest) = lexemeTail c cs := by
  have hpair : (cs ++ ' ' :: rest).head?.any (isPair c) = cs.head?.any (isPair c) := by
    cases cs with
    | nil => rfl
    | cons d cs => rfl
  have hnumber := stopsAtBlank_numberLength.blank (c :: cs) rest
  have hword := stopsAtBlank_wordPart.blank cs rest
  rw [List.cons_append] at hnumber
  simp only [lexemeTail, hpair, hnumber, hword]

/-! ## Joined lexemes -/

/-- A text that is one lexeme: what belongs to the lexeme is all of it. -/
theorem lexemeTail_of_lexemes {s : String} (h : lexemes s = .ok [s]) :
    ∃ c cs, s.toList = c :: cs ∧ isBlank c = false ∧ lexemeTail c cs = some cs.length := by
  unfold lexemes at h
  cases hs : s.toList with
  | nil =>
    rw [hs, lexemesFrom] at h
    cases h
  | cons c cs =>
    refine ⟨c, cs, rfl, ?_⟩
    rw [hs, lexemesFrom] at h
    split at h
    · -- what stands behind a blank is shorter than the text
      have hsub := ((lexemesFrom_spec _ _).2 _ h s List.mem_cons_self).2.length_le
      rw [hs, List.length_cons] at hsub
      omega
    · rename_i hblank
      refine ⟨by simpa using hblank, ?_⟩
      split at h
      · cases h
      · rename_i k hk
        obtain ⟨ls, -, h⟩ := bind_eq_ok.1 h
        have hfirst := congrArg String.toList (List.cons.inj (Except.ok.inj h)).1
        rw [String.toList_ofList, hs] at hfirst
        have hlength := congrArg List.length (List.cons.inj hfirst).2
        rw [List.length_take] at hlength
        have := lexemeTail_le hk
        rw [hk, show k = cs.length by omega]

/-- A lexeme at the start of a text is cut off if the text ends behind it or goes on with a blank. -/
theorem lexemesFrom_append {t : String} (h : lexemes t = .ok [t]) (i : Nat) (rest : List Char)
    (hrest : rest = [] ∨ rest.head? = some ' ') :
    ∃ j, lexemesFrom i (t.toList ++ rest) = (lexemesFrom j rest).map (t :: ·) := by
  obtain ⟨c, cs, ht, hblank, htail⟩ := lexemeTail_of_lexemes h
  have htail' : lexemeTail c (cs ++ rest) = some cs.length := by
    obtain rfl | hrest := hrest
    · rwa [List.append_nil]
    · obtain ⟨rest, rfl⟩ := List.head?_eq_some_iff.1 hrest
      rw [lexemeTail_blank, htail]
  refine ⟨i + 1 + cs.length, ?_⟩
  rw [ht, List.cons_append, lexemesFrom, hblank, htail']
  simp only [Bool.false_eq_true, if_false, List.drop_left, List.take_left]
  rw [← ht, String.ofList_toList]
  cases lexemesFrom (i + 1 + cs.length) rest <;> rfl

/-- Lexemes with blanks between them are found again. -/
theorem lexemes_intercalate {ts : List String} (h : ∀ t ∈ ts, lexemes t = .ok [t]) :
    lexemes (" ".intercalate ts) = .ok ts := by
  suffices hfrom : ∀ i, lexemesFrom i ([' '].intercalate (ts.map String.toList)) = .ok ts by
    rw [lexemes, String.toList_intercalate]
    exact hfrom 0
  induction ts with
  | nil => exact fun i => lexemesFrom.eq_1 i
  | cons t ts ih =>
    obtain ⟨ht, hts⟩ := List.forall_mem_cons.1 h
    intro i
    cases ts with
    | nil =>
      obtain ⟨j, hj⟩ := lexemesFrom_append ht i [] (.inl rfl)
      rw [List.append_nil] at hj
      simp [List.intercalate, hj, lexemesFrom, Except.map]
    | cons u ts =>
      have hcut : [' '].intercalate ((t :: u :: ts).map String.toList) =
          t.toList ++ ' ' :: [' '].intercalate ((u :: ts).map String.toList) := by simp
      obtain ⟨j, hj⟩ := lexemesFrom_append ht i (' ' :: [' '].intercalate ((u :: ts).map String.toList)) (.inr rfl)
      rw [hcut, hj, lexemesFrom, if_pos (by decide), ih hts]
      rfl

end Reckon.Calculator
