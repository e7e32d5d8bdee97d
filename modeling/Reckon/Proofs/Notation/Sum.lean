/-
Reading complex numbers. The text of a complex number is a numeral, a joining sign and a
coefficient of the imaginary unit, with any number of spaces around the sign, or only the coefficient
behind its sign. The reader finds the joining sign, since both parts let the search pass over them,
and gives back the two numbers.
-/
import Reckon.Proofs.Notation.Numeral

namespace Reckon.Notation

open Reckon.Text

/-! ## Coefficients -/

/-- The text of the coefficient of the imaginary unit, and what is read from it behind a sign. -/
structure IsCoefficient (cs : List Char) (value : Bool → Outcome Real) : Prop where
  read : ∀ s, readCoefficient (String.ofList (signChars s ++ cs)) = value (s == some true)
  unsplit : Unsplit cs
  not_blank : ∀ c ∈ cs, isBlank c = false

theorem isCoefficient_nil : IsCoefficient [] fun negative => .ok (if negative then Real.one.neg else .one) := by
  refine ⟨?_, fun _ _ => rfl, fun _ hc => absurd hc List.not_mem_nil⟩
  rintro (_ | _ | _) <;> rfl

/-- Only an empty text and a sign alone stand for a one. -/
theorem readCoefficient_of_ne {cs : List Char} (hempty : cs ≠ []) (hplus : cs ≠ ['+']) (hminus : cs ≠ ['-']) :
    readCoefficient (String.ofList cs) = readReal (String.ofList cs) := by
  have hword : ∀ w : String, String.ofList cs = w → cs = w.toList := fun w hw => by rw [← hw, String.toList_ofList]
  unfold readCoefficient
  split
  · rename_i heq
    exact absurd (hword _ heq) hempty
  · rename_i heq
    exact absurd (hword _ heq) hplus
  · rename_i heq
    exact absurd (hword _ heq) hminus
  · rfl

theorem readCoefficient_of_head {cs : List Char} (hne : cs ≠ []) (hhead : ∀ c ∈ cs.head?, c ≠ '+' ∧ c ≠ '-')
    (s : Option Bool) : readCoefficient (String.ofList (signChars s ++ cs)) = readReal (String.ofList (signChars s ++ cs)) := by
  obtain ⟨c, rest, rfl⟩ := List.exists_cons_of_ne_nil hne
  have hc := hhead c rfl
  refine readCoefficient_of_ne (List.append_ne_nil_of_right_ne_nil _ hne) ?_ ?_
  · rcases s with _ | _ | _ <;> simp [signChars, hc.1]
  · rcases s with _ | _ | _ <;> simp [signChars, hc.2]

theorem IsNumeral.isCoefficient {cs : List Char} {value : Bool → Outcome Real} (h : IsNumeral cs value) :
    IsCoefficient cs value := by
  refine ⟨fun s => ?_, h.unsplit, h.not_blank⟩
  obtain ⟨c, rest, rfl, hc⟩ := h.head
  rw [← h.read s]
  refine readCoefficient_of_head (List.cons_ne_nil _ _) (fun d hd => ?_) s
  obtain rfl := Option.some.inj hd
  exact hc

/-! ## Blanks -/

theorem filter_of_not_blank {cs : List Char} (h : ∀ c ∈ cs, isBlank c = false) : cs.filter (· != ' ') = cs := by
  refine List.filter_eq_self.2 fun c hc => ?_
  rw [bne_iff_ne]
  rintro rfl
  exact absurd (h _ hc) (by decide)

/-- All characters are blanks. -/
def IsBlanks (cs : List Char) : Prop := ∀ c ∈ cs, isBlank c = true

namespace IsBlanks

theorem append {xs ys : List Char} (hx : IsBlanks xs) (hy : IsBlanks ys) : IsBlanks (xs ++ ys) :=
  List.forall_mem_append.2 ⟨hx, hy⟩

theorem no_sign {cs : List Char} (h : IsBlanks cs) : ∀ c ∈ cs, c ≠ '+' ∧ c ≠ '-' := by
  intro c hc
  constructor <;> rintro rfl <;> exact absurd (h _ hc) (by decide)

end IsBlanks

/-- All characters are spaces. -/
def IsSpaces (cs : List Char) : Prop := ∀ c ∈ cs, c = ' '

namespace IsSpaces

variable {pad : List Char}

theorem isBlanks (h : IsSpaces pad) : IsBlanks pad := fun c hc => h c hc ▸ rfl

theorem unsplit (h : IsSpaces pad) : Unsplit pad := unsplit_of_no_sign fun c hc => by rw [h c hc]; decide

theorem filter_eq_nil (h : IsSpaces pad) : pad.filter (· != ' ') = [] :=
  List.filter_eq_nil_iff.2 fun c hc => by rw [h c hc]; decide

end IsSpaces

theorem isSpaces_nil : IsSpaces [] := nofun

theorem isSpaces_replicate (n : Nat) : IsSpaces (List.replicate n ' ') := fun _ hc => List.eq_of_mem_replicate hc

/-- Blanks behind a text are trimmed. -/
theorem trim_append_blanks (cs : List Char) {pad : List Char} (hpad : IsBlanks pad) : trim (cs ++ pad) = trim cs := by
  unfold trim
  rw [List.dropWhile_append]
  split
  · rename_i hempty
    rw [List.isEmpty_iff.1 hempty, List.dropWhile_eq_nil_iff.2 hpad]
  · rw [List.reverse_append, List.dropWhile_append_of_pos fun c hc => hpad c (List.mem_reverse.1 hc)]

namespace IsNumeral

variable {cs : List Char} {value : Bool → Outcome Real}

theorem ne_nil (h : IsNumeral cs value) (s : Option Bool) : signChars s ++ cs ≠ [] := by
  obtain ⟨c, rest, rfl, -⟩ := h.head
  exact fun hnil => List.cons_ne_nil _ _ (List.append_eq_nil_iff.1 hnil).2

theorem signed_not_blank (h : IsNumeral cs value) (s : Option Bool) : ∀ c ∈ signChars s ++ cs, isBlank c = false := by
  intro c hc
  rcases List.mem_append.1 hc with hc | hc
  · exact signChars_not_blank s c hc
  · exact h.not_blank c hc

theorem last_signed (h : IsNumeral cs value) (s : Option Bool) :
    ∃ d before, (signChars s ++ cs).reverse = d :: before ∧ MayEnd d := by
  rcases hrev : (signChars s ++ cs).reverse with _ | ⟨d, before⟩
  · exact absurd (List.reverse_eq_nil_iff.1 hrev) (h.ne_nil s)
  · refine ⟨d, before, rfl, h.last d ?_⟩
    obtain ⟨c, rest, hcs, -⟩ := h.head
    have hlast : (signChars s ++ cs).getLast? = some d := by
      rw [← List.head?_reverse, hrev]
      rfl
    rwa [List.getLast?_append_of_ne_nil _ (by rw [hcs]; exact List.cons_ne_nil _ _)] at hlast

/-- Spaces behind a numeral are not read. -/
theorem read_padded (h : IsNumeral cs value) (s : Option Bool) {pad : List Char} (hpad : IsSpaces pad) :
    readReal (String.ofList (signChars s ++ cs ++ pad)) = value (s == some true) := by
  rw [← h.read s]
  unfold readReal
  rw [String.toList_ofList, String.toList_ofList, trim_append_blanks _ hpad.isBlanks]

/-- A real number by itself. -/
theorem readScalar_eq (h : IsNumeral cs value) (s : Option Bool) :
    readScalar (String.ofList (signChars s ++ cs)) = (value (s == some true)).map .real := by
  obtain ⟨d, before, hrev, hd⟩ := h.last_signed s
  have hlast : (signChars s ++ cs).getLast? = some d := by
    rw [← List.head?_reverse, hrev]
    rfl
  unfold readScalar
  rw [String.toList_ofList, trim_of_not_blank (h.signed_not_blank s)]
  simp only
  rw [if_neg (by rw [List.isEmpty_iff]; exact h.ne_nil s), hlast, if_neg (by simp [hd.not_unit]), h.read s]

end IsNumeral

/-! ## Complex numbers -/

/-- The two parts of a complex number, read one after the other. -/
def complexOf (re im : Outcome Real) : Outcome Scalar := do .ok (.complex (← re) (← im))

/-- A coefficient alone is not split. -/
theorem splitComplex_signed {coefficient : List Char} (h : Unsplit coefficient) (s : Option Bool) :
    splitComplex (signChars s ++ coefficient) = (none, signChars s ++ coefficient) := by
  unfold splitComplex
  rw [List.reverse_append, h, List.append_nil]
  rcases s with _ | _ | _ <;> rfl

/-- A sign that does not belong to an exponent is where the text is split, if it is the last one. -/
theorem splitComplex_append {front coefficient : List Char} (h : Unsplit coefficient) (negative : Bool)
    (hlast : ∃ d ∈ front.getLast?, d ≠ 'e' ∧ d ≠ 'E') :
    splitComplex (front ++ signChars (some negative) ++ coefficient) =
      (some front, signChars (some negative) ++ coefficient) := by
  obtain ⟨d, hd, hletter⟩ := hlast
  obtain ⟨before, rfl⟩ := List.getLast?_eq_some_iff.1 hd
  unfold splitComplex
  rw [List.reverse_append, h, List.append_nil]
  cases negative <;> simp [signChars, splitSum, hletter]

theorem readScalar_unit {front : List Char} (hhead : ∀ c ∈ front.head?, isBlank c = false) :
    readScalar (String.ofList (front ++ ['i'])) = complexOf
      (match (splitComplex (trim front)).1 with
        | some re => readReal (String.ofList re)
        | none => .ok .zero)
      (readCoefficient (String.ofList ((splitComplex (trim front)).2.filter (· != ' ')))) := by
  have htrim : trim (front ++ ['i']) = front ++ ['i'] := by
    refine trim_of_ends (fun c hc => ?_) fun c hc => ?_
    · rcases front with _ | ⟨d, rest⟩
      · obtain rfl := Option.some.inj hc
        rfl
      · exact hhead c hc
    · rw [List.getLast?_concat] at hc
      obtain rfl := Option.some.inj hc
      rfl
  unfold readScalar
  rw [String.toList_ofList, htrim]
  simp only
  rw [if_neg (by simp), List.getLast?_concat, if_pos (by simp), List.dropLast_concat]
  cases (splitComplex (trim front)).1 <;> rfl

/-- Trimming leaves a coefficient up to the spaces in front of it, and without a coefficient these go as well. -/
theorem IsCoefficient.exists_trim {front pad ci : List Char} {vi : Bool → Outcome Real} (hi : IsCoefficient ci vi)
    (hhead : ∀ c ∈ front.head?, isBlank c = false) (hlast : ∀ c ∈ front.getLast?, isBlank c = false) (hpad : IsSpaces pad)
    (hne : front = [] → pad = []) :
    ∃ tail, trim (front ++ pad ++ ci) = front ++ tail ∧ Unsplit tail ∧ tail.filter (· != ' ') = ci := by
  rcases eq_or_ne ci [] with rfl | hci
  · refine ⟨[], ?_, fun _ _ => rfl, rfl⟩
    rw [List.append_nil, List.append_nil, trim_append_blanks _ hpad.isBlanks, trim_of_ends hhead hlast]
  · refine ⟨pad ++ ci, ?_, hpad.unsplit.append hi.unsplit, ?_⟩
    · rw [← List.append_assoc]
      refine trim_of_ends (fun c hc => ?_) fun c hc => ?_
      · rcases eq_or_ne front [] with rfl | hfront
        · rw [hne rfl] at hc
          exact hi.not_blank c (List.mem_of_mem_head? hc)
        · rw [List.append_assoc, List.head?_append_of_ne_nil _ hfront] at hc
          exact hhead c hc
      · rw [List.getLast?_append_of_ne_nil _ hci] at hc
        exact hi.not_blank c (List.mem_of_mem_getLast? hc)
    · rw [List.filter_append, filter_of_not_blank hi.not_blank, hpad.filter_eq_nil, List.nil_append]

/-- Only an imaginary part. -/
theorem readScalar_imaginary {ci pad : List Char} {vi : Bool → Outcome Real} (hi : IsCoefficient ci vi) (s : Option Bool)
    (hpad : IsSpaces pad) (hs : s = none → pad = []) :
    readScalar (String.ofList (signChars s ++ pad ++ ci ++ ['i'])) = complexOf (.ok .zero) (vi (s == some true)) := by
  have hsblank := signChars_not_blank s
  obtain ⟨tail, htrim, htail, hfilter⟩ := hi.exists_trim (fun c hc => hsblank c (List.mem_of_mem_head? hc))
    (fun c hc => hsblank c (List.mem_of_mem_getLast? hc)) hpad fun hnil => hs (by
      rcases s with _ | _ | _
      · rfl
      · cases hnil
      · cases hnil)
  have hhead : ∀ c ∈ (signChars s ++ pad ++ ci).head?, isBlank c = false := by
    rcases s with _ | negative
    · rw [hs rfl]
      exact fun c hc => hi.not_blank c (List.mem_of_mem_head? hc)
    · rw [List.append_assoc]
      exact head?_signChars_append negative _
  rw [readScalar_unit hhead, htrim, splitComplex_signed htail]
  simp only
  rw [List.filter_append, filter_of_not_blank hsblank, hfilter, hi.read]

/-- A real and an imaginary part around a sign, with any number of spaces. -/
theorem readScalar_sum {cr ci before after : List Char} {vr vi : Bool → Outcome Real} (hr : IsNumeral cr vr)
    (hi : IsCoefficient ci vi) (s : Option Bool) (negative : Bool) (hbefore : IsSpaces before) (hafter : IsSpaces after) :
    readScalar (String.ofList (signChars s ++ cr ++ before ++ signChars (some negative) ++ after ++ ci ++ ['i'])) =
      complexOf (vr (s == some true)) (vi negative) := by
  have hhead : ∀ rest : List Char, ∀ c ∈ (signChars s ++ cr ++ rest).head?, isBlank c = false := by
    intro rest c hc
    rw [List.head?_append_of_ne_nil _ (hr.ne_nil s)] at hc
    exact hr.signed_not_blank s c (List.mem_of_mem_head? hc)
  have hsign : ∀ c ∈ signChars (some negative), isBlank c = false := signChars_not_blank _
  have hne := signChars_ne_nil negative
  have hend : ∀ c ∈ (signChars s ++ cr ++ before ++ signChars (some negative)).getLast?, isBlank c = false := by
    intro c hc
    rw [List.getLast?_append_of_ne_nil _ hne] at hc
    exact hsign c (List.mem_of_mem_getLast? hc)
  obtain ⟨tail, htrim, htail, hfilter⟩ := hi.exists_trim (by rw [List.append_assoc]; exact hhead _) hend hafter
    (fun hnil => absurd (List.append_eq_nil_iff.1 hnil).2 hne)
  -- in front of the sign stands a space or the end of the numeral
  have hlast : ∃ d ∈ (signChars s ++ cr ++ before).getLast?, d ≠ 'e' ∧ d ≠ 'E' := by
    rcases eq_or_ne before [] with rfl | hspaces
    · obtain ⟨d, front, hrev, hd⟩ := hr.last_signed s
      exact ⟨d, by rw [List.append_nil, ← List.head?_reverse, hrev]; rfl, hd.not_power⟩
    · rw [List.getLast?_append_of_ne_nil _ hspaces]
      exact ⟨_, List.getLast?_eq_some_getLast hspaces, by rw [hbefore _ (List.getLast_mem hspaces)]; decide⟩
  rw [readScalar_unit (by
    rw [List.append_assoc, List.append_assoc, List.append_assoc]
    exact hhead _), htrim, splitComplex_append htail negative hlast]
  simp only
  rw [hr.read_padded s hbefore, List.filter_append, filter_of_not_blank hsign, hfilter, hi.read]
  cases negative <;> rfl

end Reckon.Notation
