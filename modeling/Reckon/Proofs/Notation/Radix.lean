/-
Integers in a radix. What is written are the digits of the magnitude, the most significant first. What
is read as a digit is every character whose lower case is the sign of that digit, so writing and reading
are inverse up to underscores, upper case, a plus sign and leading zeros.
-/
import Reckon.Proofs.Notation.Failures
import Reckon.Proofs.Notation.Numeral

namespace Reckon.Notation

open Reckon.Outcome Reckon.Text

/-! ## Single digits -/

theorem radixDigit_toNat {d : Nat} (h : d < 36) : (radixDigit d).toNat = if d < 10 then 48 + d else 87 + d := by
  interval_cases d <;> rfl

theorem radixDigit_range {d : Nat} (h : d < 36) :
    48 ≤ (radixDigit d).toNat ∧ (radixDigit d).toNat ≤ 57 ∨ 97 ≤ (radixDigit d).toNat ∧ (radixDigit d).toNat ≤ 122 := by
  rw [radixDigit_toNat h]
  split <;> omega

theorem ne_radixDigit {c : Char} (h : c.toNat < 48) {d : Nat} (hd : d < 36) : c ≠ radixDigit d := by
  rintro rfl
  have := radixDigit_range hd
  omega

theorem radixDigit_eq_zero_iff {d : Nat} (h : d < 36) : radixDigit d = '0' ↔ d = 0 := by
  rw [← Char.toNat_inj, radixDigit_toNat h, show '0'.toNat = 48 from rfl]
  split <;> omega

theorem letterValue_eq_iff {l : Char} (hl : isAsciiDigit l = false) {d : Nat} (hd : d < 36) :
    (if 'a' ≤ l && l ≤ 'z' then l.toNat - 87 else 99) = d ↔ l = radixDigit d := by
  have hletter : ('a' ≤ l && l ≤ 'z') = true ↔ 97 ≤ l.toNat ∧ l.toNat ≤ 122 := by
    rw [Bool.and_eq_true, decide_eq_true_eq, decide_eq_true_eq, Char.le_def, Char.le_def,
      UInt32.le_iff_toNat_le, UInt32.le_iff_toNat_le]
    rfl
  have hl : ¬ (48 ≤ l.toNat ∧ l.toNat ≤ 57) := by
    rw [← Digits.isAsciiDigit_iff, hl]
    exact Bool.false_ne_true
  rw [← Char.toNat_inj, radixDigit_toNat hd]
  simp only [hletter]
  split <;> split <;> omega

theorem lower_dottedI_ne (l : Char) : lower dottedI ≠ [l] := fun h => nomatch congrArg List.tail h

/-- In lower case a character is itself, unless it is a capital letter, the Kelvin sign or the dotted
capital I. -/
theorem lower_cases (c : Char) : c = dottedI ∨ c = '\u212a' ∨
    ∃ l, lower c = [l] ∧ (l = c ∨ 65 ≤ c.toNat ∧ c.toNat ≤ 90 ∧ l.toNat = c.toNat + 32) := by
  by_cases hkelvin : c = '\u212a'
  · exact .inr (.inl hkelvin)
  by_cases hdotted : c = dottedI
  · exact .inl hdotted
  refine .inr (.inr ⟨c.toLower, ?_, ?_⟩)
  · rw [lower, if_neg (by simpa using hkelvin), if_neg (by simpa [dottedI] using hdotted)]
  by_cases hupper : c.isUpper = true
  · right
    have hrange : 65 ≤ c.toNat ∧ c.toNat ≤ 90 := by
      simpa [Char.isUpper, UInt32.le_iff_toNat_le, ← Char.toNat_val] using hupper
    have hvalid : (c.toNat + 32).isValidChar := .inl (by omega)
    exact ⟨hrange.1, hrange.2, by rw [Char.toLower_eq_of_isUpper hupper, Char.toNat_ofNat, if_pos hvalid]⟩
  · exact .inl (Char.toLower_eq_of_not_isUpper hupper)

/-- A character has a value below all radices just if its lower case is the sign of this digit. -/
theorem radixValue_eq_ok_iff {c : Char} {d : Nat} (hd : d < 36) : radixValue c = .ok d ↔ lower c = [radixDigit d] := by
  rcases lower_cases c with rfl | rfl | ⟨l, hl, hcase⟩
  · refine iff_of_false ?_ (lower_dottedI_ne _)
    rw [radixValue_eq_error_iff.2 ⟨rfl, rfl⟩]
    exact nofun
  · have hk := letterValue_eq_iff (l := 'k') (by decide) hd
    change Except.ok _ = Except.ok _ ↔ ['k'] = _
    rw [Except.ok.injEq, List.cons.injEq, hk, and_iff_left rfl]
  unfold radixValue
  rw [hl, List.cons.injEq, and_iff_left rfl]
  by_cases hdigit : isAsciiDigit c = true
  · rw [if_pos hdigit, Except.ok.injEq]
    rw [Digits.isAsciiDigit_iff] at hdigit
    obtain rfl : l = c := hcase.resolve_right (by omega)
    rw [← Char.toNat_inj, radixDigit_toNat hd]
    split <;> omega
  · have hletter : isAsciiDigit l = false := by
      rw [← Bool.not_eq_true, Digits.isAsciiDigit_iff]
      rw [Digits.isAsciiDigit_iff] at hdigit
      rcases hcase with rfl | hcase
      · exact hdigit
      · omega
    rw [if_neg hdigit]
    simp only
    rw [Except.ok.injEq, letterValue_eq_iff hletter hd]

/-- What stands for a digit is a visible character from `0` on. -/
theorem range_of_lower {c : Char} {d : Nat} (hd : d < 36) (h : lower c = [radixDigit d]) :
    48 ≤ c.toNat ∧ c.toNat ≤ 122 ∨ c = '\u212a' := by
  rcases lower_cases c with rfl | rfl | ⟨l, hl, hcase⟩
  · exact absurd h (lower_dottedI_ne _)
  · exact .inr rfl
  · rw [hl] at h
    obtain rfl := (List.cons.inj h).1
    have := radixDigit_range hd
    rcases hcase with hcase | hcase
    · rw [hcase] at this
      omega
    · omega

theorem radixValue_radixDigit {d : Nat} (hd : d < 36) : radixValue (radixDigit d) = .ok d := by
  rw [radixValue_eq_ok_iff hd]
  interval_cases d <;> rfl

/-! ## Digit texts -/

/-- The characters are digits in either case, and underscores anywhere between them. -/
def SpellsDigits (radix : Nat) (cs : List Char) (digits : List Nat) : Prop :=
  (∀ d ∈ digits, d < radix) ∧ lowerAll (cs.filter (· != '_')) = digits.map radixDigit

section Spelled

variable {radix : Nat} {cs : List Char} {digits : List Nat}

theorem spellsDigits_nil : SpellsDigits radix [] digits ↔ digits = [] := by
  rw [SpellsDigits, List.filter_nil, lowerAll, List.flatMap_nil, eq_comm, List.map_eq_nil_iff]
  refine and_iff_right_of_imp ?_
  rintro rfl
  exact fun d hd => absurd hd List.not_mem_nil

theorem spellsDigits_underscore : SpellsDigits radix ('_' :: cs) digits ↔ SpellsDigits radix cs digits := by
  rw [SpellsDigits, List.filter_cons_of_neg (by decide), SpellsDigits]

/-- The first character stands for the first digit. -/
theorem spellsDigits_cons (hradix : radix ≤ 36) {c : Char} (hc : c ≠ '_') : SpellsDigits radix (c :: cs) digits ↔
    ∃ d rest, digits = d :: rest ∧ d < radix ∧ radixValue c = .ok d ∧ SpellsDigits radix cs rest := by
  rw [SpellsDigits, List.filter_cons_of_pos (by simpa using hc), lowerAll, List.flatMap_cons]
  constructor
  · rintro ⟨hlt, htext⟩
    cases digits with
    | nil =>
      obtain ⟨l, ls, hl⟩ := exists_lower c
      rw [hl] at htext
      cases htext
    | cons d rest =>
      obtain ⟨hd, hrest⟩ := List.forall_mem_cons.1 hlt
      refine ⟨d, rest, rfl, hd, ?_⟩
      rcases lower_cases c with rfl | rfl | ⟨l, hl, -⟩
      · -- the second part of the dotted capital I is no digit
        cases rest with
        | nil => exact absurd (List.cons.inj htext).2 (List.cons_ne_nil _ _)
        | cons e rest =>
          have he : '\u0307' = radixDigit e := (List.cons.inj (List.cons.inj htext).2).1
          have := radixDigit_range ((hrest e List.mem_cons_self).trans_le hradix)
          rw [← he] at this
          exact absurd this (by decide)
      · obtain ⟨hhead, htail⟩ := List.cons.inj htext
        exact ⟨(radixValue_eq_ok_iff (hd.trans_le hradix)).2 (congrArg (fun x => [x]) hhead), hrest, htail⟩
      · rw [hl] at htext
        obtain ⟨hhead, htail⟩ := List.cons.inj htext
        exact ⟨(radixValue_eq_ok_iff (hd.trans_le hradix)).2 (hhead ▸ hl), hrest, htail⟩
  · rintro ⟨d, rest, rfl, hd, hvalue, hrest, htext⟩
    refine ⟨List.forall_mem_cons.2 ⟨hd, hrest⟩, ?_⟩
    rw [(radixValue_eq_ok_iff (hd.trans_le hradix)).1 hvalue]
    exact congrArg _ htext

theorem spellsDigits_map (hradix : radix ≤ 36) (hlt : ∀ d ∈ digits, d < radix) :
    SpellsDigits radix (digits.map radixDigit) digits := by
  induction digits with
  | nil => exact spellsDigits_nil.2 rfl
  | cons d digits ih =>
    obtain ⟨hd, hdigits⟩ := List.forall_mem_cons.1 hlt
    have hd36 := hd.trans_le hradix
    have hne : radixDigit d ≠ '_' := by
      intro h
      have := radixDigit_range hd36
      rw [h] at this
      exact absurd this (by decide)
    exact (spellsDigits_cons hradix hne).2 ⟨d, digits, rfl, hd, radixValue_radixDigit hd36, ih hdigits⟩

/-- Every character is an underscore or stands for a digit. -/
theorem SpellsDigits.lower_mem (h : SpellsDigits radix cs digits) (hradix : radix ≤ 36) :
    ∀ c ∈ cs, c = '_' ∨ ∃ d < 36, lower c = [radixDigit d] := by
  induction cs generalizing digits with
  | nil => exact nofun
  | cons c cs ih =>
    by_cases hc : c = '_'
    · subst hc
      exact List.forall_mem_cons.2 ⟨.inl rfl, ih (spellsDigits_underscore.1 h)⟩
    · obtain ⟨d, rest, -, hd, hvalue, hrest⟩ := (spellsDigits_cons hradix hc).1 h
      have hd := hd.trans_le hradix
      exact List.forall_mem_cons.2 ⟨.inr ⟨d, hd, (radixValue_eq_ok_iff hd).1 hvalue⟩, ih hrest⟩

theorem SpellsDigits.range (h : SpellsDigits radix cs digits) (hradix : radix ≤ 36) :
    ∀ c ∈ cs, 48 ≤ c.toNat ∧ c.toNat ≤ 122 ∨ c = '\u212a' := by
  intro c hc
  rcases h.lower_mem hradix c hc with rfl | ⟨d, hd, hlower⟩
  · exact .inl (by decide)
  · exact range_of_lower hd hlower

theorem SpellsDigits.not_blank (h : SpellsDigits radix cs digits) (hradix : radix ≤ 36) : ∀ c ∈ cs, isBlank c = false := by
  intro c hc
  rcases h.range hradix c hc with hc | rfl
  · exact isBlank_of_printable (by omega)
  · decide

theorem SpellsDigits.ne_sign (h : SpellsDigits radix cs digits) (hradix : radix ≤ 36) : ∀ c ∈ cs, c ≠ '-' ∧ c ≠ '+' := by
  intro c hc
  rcases h.range hradix c hc with hc | rfl
  · constructor <;> rintro rfl <;> exact absurd hc (by decide)
  · decide

/-! ## Reading -/

/-- The reader goes on with the digits that the characters spell, and gives up where they spell none. -/
theorem accumulate_eq_ok_iff (hradix : radix ≤ 36) (text : String) : ∀ {i acc n : Nat} {seen seen' : Bool},
    accumulate radix text cs i acc seen = .ok (n, seen') ↔ ∃ digits, SpellsDigits radix cs digits ∧
      n = digits.foldl (fun acc d => acc * radix + d) acc ∧ seen' = (seen || !digits.isEmpty) := by
  -- the accumulator is the number read so far
  induction cs with
  | nil =>
    intro i acc n seen seen'
    simp only [accumulate, spellsDigits_nil, exists_eq_left, Except.ok.injEq, Prod.mk.injEq, List.foldl_nil,
      List.isEmpty_nil, Bool.not_true, Bool.or_false, eq_comm]
  | cons c cs ih =>
    intro i acc n seen seen'
    rw [accumulate]
    by_cases hc : c = '_'
    · subst hc
      simp only [BEq.rfl, if_true, ih, spellsDigits_underscore]
    rw [if_neg (by simpa using hc), bind_eq_ok]
    simp only [spellsDigits_cons hradix hc]
    constructor
    · rintro ⟨d, hd, h⟩
      split at h
      · cases h
      · rename_i hlt
        obtain ⟨rest, hrest, hn, hseen⟩ := ih.1 h
        refine ⟨d :: rest, ⟨d, rest, rfl, by omega, hd, hrest⟩, hn, ?_⟩
        simpa using hseen
    · rintro ⟨_, ⟨d, rest, rfl, hlt, hd, hrest⟩, hn, hseen⟩
      refine ⟨d, hd, ?_⟩
      rw [if_neg (by omega)]
      exact ih.2 ⟨rest, hrest, hn, by simpa using hseen⟩

theorem foldl_eq_ofDigits (radix : Nat) (digits : List Nat) :
    digits.foldl (fun acc d => acc * radix + d) 0 = Nat.ofDigits radix digits.reverse := by
  rw [Nat.ofDigits_eq_foldr, List.foldr_reverse]
  congr 1
  funext acc d
  rw [Nat.cast_id, Nat.mul_comm, Nat.add_comm]

theorem radixNumber_eq_ok_iff (hradix : radix ≤ 36) {n : Nat} : radixNumber radix cs = .ok n ↔
    ∃ digits, digits ≠ [] ∧ SpellsDigits radix cs digits ∧ n = Nat.ofDigits radix digits.reverse := by
  unfold radixNumber
  simp only [bind_eq_ok, Prod.exists, accumulate_eq_ok_iff hradix, foldl_eq_ofDigits, Bool.false_or]
  constructor
  · rintro ⟨m, seen, ⟨digits, hspells, rfl, rfl⟩, h⟩
    cases digits with
    | nil => cases h
    | cons d digits => exact ⟨_, List.cons_ne_nil _ _, hspells, (Except.ok.inj h).symm⟩
  · rintro ⟨digits, hne, hspells, rfl⟩
    refine ⟨_, _, ⟨digits, hspells, rfl, rfl⟩, ?_⟩
    rw [if_pos (by simpa using hne)]

end Spelled

section Signed

variable {radix : ℤ} (hradix : 2 ≤ radix ∧ radix ≤ 36) {text : String} {sign : Option Bool} {body : List Char}
  {digits : List Nat}

include hradix

theorem readRadix_of_spellsDigits (htext : trim text.toList = signChars sign ++ body) (hne : digits ≠ [])
    (h : SpellsDigits radix.toNat body digits) :
    readRadix text radix = .ok (signed (sign == some true) (Nat.ofDigits radix.toNat digits.reverse)) := by
  have hbody := h.ne_sign (by omega)
  have hsign := sign_append (s := sign) (fun c hc => hbody c (List.mem_of_mem_head? hc)) 0
  unfold readRadix
  rw [if_neg (by omega)]
  simp only [htext, cursorAt, List.drop_zero, hsign]
  rw [(radixNumber_eq_ok_iff (by omega)).2 ⟨digits, hne, h, rfl⟩]
  rfl

theorem exists_spellsDigits {n : ℤ} (h : readRadix text radix = .ok n) : ∃ sign body digits,
    trim text.toList = signChars sign ++ body ∧ digits ≠ [] ∧ SpellsDigits radix.toNat body digits ∧
      n = signed (sign == some true) (Nat.ofDigits radix.toNat digits.reverse) := by
  obtain ⟨sign, body, htext, hsign⟩ := sign_spec (trim text.toList)
  unfold readRadix at h
  rw [if_neg (by omega)] at h
  simp only [hsign] at h
  obtain ⟨m, hm, h⟩ := bind_eq_ok.1 h
  obtain ⟨digits, hne, hspells, rfl⟩ := (radixNumber_eq_ok_iff (by omega)).1 hm
  exact ⟨sign, body, digits, htext, hne, hspells, (Except.ok.inj h).symm⟩

end Signed

/-! ## Writing -/

/-- The digits of a number as they are written, the most significant first; zero has one. -/
def writtenDigits (radix n : Nat) : List Nat := if n = 0 then [0] else (Nat.digits radix n).reverse

theorem radixDigits_eq {radix : Nat} (h : 1 < radix) (n : Nat) (acc : List Char) :
    radixDigits radix n acc = (Nat.digits radix n).reverse.map radixDigit ++ acc := by
  fun_induction radixDigits radix n acc with
  | case1 n acc hpos ih => rw [ih, Nat.digits_def' h hpos.2]; simp
  | case2 n acc hzero =>
    obtain rfl : n = 0 := by omega
    simp

theorem toRadix_eq {radix : ℤ} (hradix : 2 ≤ radix ∧ radix ≤ 36) (n : ℤ) : toRadix n radix =
    .ok (signText (n < 0) ++ String.ofList ((writtenDigits radix.toNat n.natAbs).map radixDigit)) := by
  unfold toRadix writtenDigits
  rw [if_neg (by omega)]
  by_cases hn : n = 0
  · subst hn
    rfl
  · rw [if_neg hn, if_neg (by simpa using hn), radixDigits_eq (by omega), List.append_nil]

section Written

variable {radix : Nat} (h : 1 < radix)

include h

theorem writtenDigits_lt (n : Nat) : ∀ d ∈ writtenDigits radix n, d < radix := by
  intro d hd
  unfold writtenDigits at hd
  split at hd
  · obtain rfl := List.mem_singleton.1 hd
    omega
  · exact Nat.digits_lt_base h (List.mem_reverse.1 hd)

omit h in
theorem writtenDigits_ne_nil (n : Nat) : writtenDigits radix n ≠ [] := by
  unfold writtenDigits
  split
  · exact List.cons_ne_nil _ _
  · rename_i hn
    simpa [Nat.digits_ne_nil_iff_ne_zero] using hn

omit h in
theorem ofDigits_writtenDigits (n : Nat) : Nat.ofDigits radix (writtenDigits radix n).reverse = n := by
  unfold writtenDigits
  split
  · rename_i hn
    simp [hn]
  · rw [List.reverse_reverse, Nat.ofDigits_digits]

/-- The digits of the number that digits spell are these digits without the zeros in front. -/
theorem digits_ofDigits_reverse {digits : List Nat} (hlt : ∀ d ∈ digits, d < radix) :
    Nat.digits radix (Nat.ofDigits radix digits.reverse) = (digits.dropWhile (· == 0)).reverse := by
  induction digits with
  | nil => exact Nat.digits_zero radix
  | cons d digits ih =>
    by_cases hzero : d = 0
    · subst hzero
      rw [List.reverse_cons, Nat.ofDigits_append, Nat.ofDigits_singleton, Nat.mul_zero, Nat.add_zero]
      exact ih (List.forall_mem_cons.1 hlt).2
    · rw [List.dropWhile_cons_of_neg (by simpa using hzero)]
      exact Nat.digits_ofDigits radix h _ (fun l hl => hlt l (List.mem_reverse.1 hl)) (by simpa using hzero)

end Written

/-! ## The plain text of an integer -/

/-- Digits without the zeros in front, behind their sign; zero has no sign. -/
def withoutZeros (negative : Bool) (ds : List Char) : String :=
  match ds.dropWhile (· == '0') with
  | [] => "0"
  | ds => signText negative ++ String.ofList ds

/-- A text without blanks around it, underscores, plus signs and leading zeros, in lower case. -/
def plainRadix (text : String) : String :=
  match lowerAll ((trim text.toList).filter fun c => c != '_' && c != '+') with
  | '-' :: ds => withoutZeros true ds
  | ds => withoutZeros false ds

theorem dropWhile_zeros {digits : List Nat} (h : ∀ d ∈ digits, d < 36) :
    (digits.map radixDigit).dropWhile (· == '0') = (digits.dropWhile (· == 0)).map radixDigit := by
  induction digits with
  | nil => rfl
  | cons d digits ih =>
    obtain ⟨hd, hdigits⟩ := List.forall_mem_cons.1 h
    by_cases hzero : d = 0
    · subst hzero
      exact ih hdigits
    · rw [List.map_cons, List.dropWhile_cons_of_neg (by simpa [radixDigit_eq_zero_iff hd] using hzero),
        List.dropWhile_cons_of_neg (by simpa using hzero), List.map_cons]

section Plain

variable {radix : ℤ} (hradix : 2 ≤ radix ∧ radix ≤ 36) {text : String} {n : ℤ}

include hradix

/-- The number that digits spell is written with these digits. -/
theorem toRadix_signed (negative : Bool) {digits : List Nat} (hlt : ∀ d ∈ digits, d < radix.toNat) :
    toRadix (signed negative (Nat.ofDigits radix.toNat digits.reverse)) radix =
      .ok (withoutZeros negative (digits.map radixDigit)) := by
  have hdigits := digits_ofDigits_reverse (by omega) hlt
  rw [withoutZeros, dropWhile_zeros fun d hd => (hlt d hd).trans_le (by omega),
    ← List.reverse_reverse (digits.dropWhile (· == 0)), ← hdigits, toRadix_eq hradix]
  generalize Nat.ofDigits radix.toNat digits.reverse = m
  by_cases hm : m = 0
  · subst hm
    rw [Nat.digits_zero]
    cases negative <;> rfl
  · have habs : (signed negative m).natAbs = m := by cases negative <;> simp [signed]
    have hneg : (signed negative m < 0) = (negative = true) := by
      cases negative
      · simp [signed]
      · simpa [signed] using Nat.pos_of_ne_zero hm
    have hne := Nat.digits_ne_nil_iff_ne_zero (b := radix.toNat).2 hm
    rw [habs, writtenDigits, if_neg hm]
    simp only [hneg, Bool.decide_eq_true]
    split
    · rename_i hnil
      simp [hne] at hnil
    · rfl

/-- A text is written again in its plain form. -/
theorem toRadix_readRadix (h : readRadix text radix = .ok n) : toRadix n radix = .ok (plainRadix text) := by
  obtain ⟨sign, body, digits, htext, -, hspells, rfl⟩ := exists_spellsDigits hradix h
  rw [toRadix_signed hradix _ hspells.1]
  have hfilter : body.filter (fun c => c != '_' && c != '+') = body.filter (· != '_') := by
    refine List.filter_congr fun c hc => ?_
    simp [(hspells.ne_sign (by omega) c hc).2]
  have htext : lowerAll ((trim text.toList).filter fun c => c != '_' && c != '+') =
      lowerAll ((signChars sign).filter fun c => c != '_' && c != '+') ++ digits.map radixDigit := by
    rw [htext, List.filter_append, hfilter, lowerAll, List.flatMap_append, ← lowerAll, ← lowerAll, hspells.2]
  have hunsigned : ∀ ds, digits.map radixDigit ≠ '-' :: ds := by
    intro ds hds
    obtain ⟨d, hd, hminus⟩ := List.mem_map.1 (hds ▸ List.mem_cons_self : '-' ∈ digits.map radixDigit)
    exact ne_radixDigit (by decide) ((hspells.1 d hd).trans_le (by omega)) hminus.symm
  unfold plainRadix
  rw [htext]
  rcases sign with _ | _ | _
  · split
    · rename_i hds
      exact absurd hds (hunsigned _)
    · rfl
  · split
    · rename_i hds
      exact absurd hds (hunsigned _)
    · rfl
  · rfl

/-- What is written is read again, with underscores between the digits and in either case. -/
theorem readRadix_toRadix {body : List Char}
    (h : SpellsDigits radix.toNat body (writtenDigits radix.toNat n.natAbs)) :
    readRadix (signText (n < 0) ++ String.ofList body) radix = .ok n := by
  have hblank : ∀ c ∈ signChars (if n < 0 then some true else none) ++ body, isBlank c = false := by
    intro c hc
    rcases List.mem_append.1 hc with hc | hc
    · exact signChars_not_blank _ c hc
    · exact h.not_blank (by omega) c hc
  have htext : trim (signText (n < 0) ++ String.ofList body).toList =
      signChars (if n < 0 then some true else none) ++ body := by
    rw [string_signText, String.toList_ofList, String.toList_ofList]
    simpa using trim_of_not_blank hblank
  rw [readRadix_of_spellsDigits hradix htext (writtenDigits_ne_nil _) h, ofDigits_writtenDigits]
  congr 1
  by_cases hn : n < 0
  · rw [if_pos hn, signed, if_pos (by decide)]
    omega
  · rw [if_neg hn, signed, if_neg (by decide)]
    omega

end Plain

end Reckon.Notation
