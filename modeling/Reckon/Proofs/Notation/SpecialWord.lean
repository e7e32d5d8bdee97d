/-
The words for special values. They stand behind a sign, their letters in either case, and no letter of another
script stands for one of theirs.
-/
import Reckon.Proofs.Notation.Literal

namespace Reckon.Notation

open Reckon.Text

/-! ## Letters in either case -/

/-- The letters of a lower-case word, each in either case. -/
def InAnyCase (word cs : List Char) : Prop := List.Forall₂ (fun l c => c = l ∨ c = l.toUpper) word cs

theorem isAlpha_of_isLower {l : Char} (h : l.isLower = true) : l.isAlpha = true := by
  rw [Char.isAlpha, h, Bool.or_true]

theorem toLower_eq_iff {l : Char} (h : l.isLower = true) (c : Char) : c.toLower = l ↔ c = l ∨ c = l.toUpper := by
  have hlower : l.toLower = l := Char.toLower_eq_of_not_isUpper (Char.not_isUpper_of_isLower h)
  constructor
  · rintro rfl
    by_cases hupper : c.isUpper = true
    · right
      rw [Char.toUpper_toLower_eq_toUpper, Char.toUpper_eq_of_not_isLower fun hc => Char.not_isUpper_of_isLower hc hupper]
    · exact .inl (Char.toLower_eq_of_not_isUpper hupper).symm
  · rintro (rfl | rfl)
    · exact hlower
    · rw [Char.toLower_toUpper_eq_toLower, hlower]

/-- No sign outside the alphabet is a letter of it in either case. -/
theorem not_letter_of_not_isAlpha {l c : Char} (h : l.isLower = true) (hc : c.isAlpha = false) : ¬ (c = l ∨ c = l.toUpper) := by
  rintro (rfl | rfl)
  · rw [isAlpha_of_isLower h] at hc
    cases hc
  · rw [Char.isAlpha_toUpper_eq_isAlpha, isAlpha_of_isLower h] at hc
    cases hc

/-- Words without the letter K are the lower case only of themselves, with letters in either case. -/
theorem lowerAll_eq_iff {word : List Char} (h : ∀ l ∈ word, l.isLower = true ∧ l ≠ 'k') (cs : List Char) :
    lowerAll cs = word ↔ InAnyCase word cs := by
  induction cs generalizing word with
  | nil => exact ⟨fun hw => hw ▸ .nil, fun hw => (List.forall₂_nil_right_iff.1 hw).symm⟩
  | cons c cs ih =>
    rw [InAnyCase, List.forall₂_cons_right_iff, lowerAll, List.flatMap_cons]
    -- the Kelvin sign and the dotted capital I have a lower case of their own
    by_cases hkelvin : c = '\u212a'
    · subst hkelvin
      refine iff_of_false ?_ ?_
      · rintro rfl
        exact (h 'k' List.mem_cons_self).2 rfl
      · rintro ⟨l, w, hl, -, rfl⟩
        exact not_letter_of_not_isAlpha (h l List.mem_cons_self).1 (by decide) hl
    by_cases hdotted : c = '\u0130'
    · subst hdotted
      refine iff_of_false ?_ ?_
      · rintro rfl
        exact absurd (h '\u0307' (List.mem_cons_of_mem _ List.mem_cons_self)).1 (by decide)
      · rintro ⟨l, w, hl, -, rfl⟩
        exact not_letter_of_not_isAlpha (h l List.mem_cons_self).1 (by decide) hl
    have hlower : lower c = [c.toLower] := by
      rw [lower, if_neg (by simpa using hkelvin), if_neg (by simpa using hdotted)]
    rw [hlower, List.singleton_append]
    constructor
    · rintro rfl
      exact ⟨_, _, (toLower_eq_iff (h _ List.mem_cons_self).1 c).1 rfl,
        (ih fun l hl => h l (List.mem_cons_of_mem _ hl)).1 rfl, rfl⟩
    · rintro ⟨l, w, hl, hw, rfl⟩
      rw [(toLower_eq_iff (h l List.mem_cons_self).1 c).2 hl]
      exact congrArg _ ((ih fun l hl => h l (List.mem_cons_of_mem _ hl)).2 hw)

theorem InAnyCase.isAlpha {word cs : List Char} (h : InAnyCase word cs) (hword : ∀ l ∈ word, l.isLower = true) :
    ∀ c ∈ cs, c.isAlpha = true := by
  induction h with
  | nil => exact nofun
  | @cons l c word cs hl _ ih =>
    intro d hd
    rcases List.mem_cons.1 hd with rfl | hd
    · by_contra hnot
      exact not_letter_of_not_isAlpha (hword l List.mem_cons_self) (by simpa using hnot) hl
    · exact ih (fun l hl => hword l (List.mem_cons_of_mem _ hl)) d hd

/-- The last letter is that of the word in either case. -/
theorem InAnyCase.last {word cs : List Char} (h : InAnyCase word cs) :
    ∀ c ∈ cs.getLast?, ∃ l ∈ word.getLast?, c = l ∨ c = l.toUpper := by
  intro c hc
  have hreverse := List.forall₂_reverse_iff.2 h
  rw [Option.mem_def, ← List.head?_reverse] at hc
  obtain ⟨front, hfront⟩ := List.head?_eq_some_iff.1 hc
  rw [hfront, List.forall₂_cons_right_iff] at hreverse
  obtain ⟨l, w, hl, -, hw⟩ := hreverse
  exact ⟨l, by rw [Option.mem_def, ← List.head?_reverse, hw]; rfl, hl⟩

/-! ## Special values -/

/-- A word for NaN or an infinity, and what it stands for behind a sign; NaN has none. -/
inductive IsSpecialWord : List Char → (Bool → Real) → Prop
  | nan {cs : List Char} (h : InAnyCase ['n', 'a', 'n'] cs) : IsSpecialWord cs fun _ => .nan
  | inf {cs : List Char} (h : InAnyCase ['i', 'n', 'f'] cs) : IsSpecialWord cs .infinite
  | infinity {cs : List Char} (h : InAnyCase ['i', 'n', 'f', 'i', 'n', 'i', 't', 'y'] cs) : IsSpecialWord cs .infinite

/-- The text is a sign and a special word, and this is its value. -/
inductive IsSpecial : List Char → Real → Prop
  | intro (sign : Option Bool) {word : List Char} {value : Bool → Real} (h : IsSpecialWord word value) :
    IsSpecial (signChars sign ++ word) (value (sign == some true))

namespace IsSpecialWord

variable {cs : List Char} {value : Bool → Real}

theorem isAlpha (h : IsSpecialWord cs value) : ∀ c ∈ cs, c.isAlpha = true := by
  cases h with
  | nan h => exact h.isAlpha (by simp)
  | inf h => exact h.isAlpha (by simp)
  | infinity h => exact h.isAlpha (by simp)

theorem exists_cons (h : IsSpecialWord cs value) : ∃ c rest, cs = c :: rest := by
  cases h with
  | nan h => obtain ⟨c, rest, -, -, rfl⟩ := List.forall₂_cons_left_iff.1 h; exact ⟨c, rest, rfl⟩
  | inf h => obtain ⟨c, rest, -, -, rfl⟩ := List.forall₂_cons_left_iff.1 h; exact ⟨c, rest, rfl⟩
  | infinity h => obtain ⟨c, rest, -, -, rfl⟩ := List.forall₂_cons_left_iff.1 h; exact ⟨c, rest, rfl⟩

theorem no_sign (h : IsSpecialWord cs value) : ∀ c ∈ cs, c ≠ '-' ∧ c ≠ '+' := by
  intro c hc
  constructor <;> rintro rfl <;> exact absurd (h.isAlpha _ hc) (by decide)

theorem not_blank (h : IsSpecialWord cs value) : ∀ c ∈ cs, isBlank c = false := by
  intro c hc
  have hletter := h.isAlpha c hc
  simp only [Char.isAlpha, Char.isUpper, Char.isLower, Bool.or_eq_true, Bool.and_eq_true, decide_eq_true_eq, ge_iff_le,
    UInt32.le_iff_toNat_le] at hletter
  refine isBlank_of_printable ?_
  rw [show c.toNat = c.val.toNat from rfl]
  rcases hletter with hupper | hlower
  · exact ⟨le_trans (by decide) hupper.1, hupper.2.trans_lt (by decide)⟩
  · exact ⟨le_trans (by decide) hlower.1, hlower.2.trans_lt (by decide)⟩

theorem last (h : IsSpecialWord cs value) : ∀ c ∈ cs.getLast?, MayEnd c := by
  have hletter : ∀ {word : List Char} {l : Char}, InAnyCase word cs → word.getLast? = some l →
      (∀ d, d = l ∨ d = l.toUpper → MayEnd d) → ∀ c ∈ cs.getLast?, MayEnd c := by
    intro word l hword hl hd c hc
    obtain ⟨l', hl', hcl⟩ := hword.last c hc
    obtain rfl := Option.some.inj (hl.symm.trans hl')
    exact hd c hcl
  cases h with
  | nan h => exact hletter h rfl (by rintro d (rfl | rfl) <;> exact ⟨by decide, by decide, by decide⟩)
  | inf h => exact hletter h rfl (by rintro d (rfl | rfl) <;> exact ⟨by decide, by decide, by decide⟩)
  | infinity h => exact hletter h rfl (by rintro d (rfl | rfl) <;> exact ⟨by decide, by decide, by decide⟩)

end IsSpecialWord

/-- Behind its sign a special word is its value. -/
theorem readReal_of_isSpecial {text : String} {x : Real} (h : IsSpecial (trim text.toList) x) : readReal text = .ok x := by
  generalize htrim : trim text.toList = cs at h
  obtain ⟨sign, hword⟩ := h
  rename_i word value
  have hsign := sign_append (s := sign) (fun c hc => hword.no_sign c (List.mem_of_mem_head? hc)) 0
  unfold readReal
  simp only [htrim, show cursorAt (signChars sign ++ word) 0 = ⟨signChars sign ++ word, 0⟩ from rfl, hsign]
  cases hword with
  | nan h =>
    rw [(lowerAll_eq_iff (by simp) _).2 h]
    rfl
  | inf h =>
    rw [(lowerAll_eq_iff (by simp) _).2 h]
    rfl
  | infinity h =>
    rw [(lowerAll_eq_iff (by simp) _).2 h]
    rfl

end Reckon.Notation
