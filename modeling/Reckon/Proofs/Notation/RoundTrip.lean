/-
Written numbers are read back. The storage form gives every number without a repeating part back,
and writing what was read gives the same text again. The display form does so too, except where a
single digit stands at the least exponent: the point it forces there cannot be read.
-/
import Reckon.Proofs.Notation.Reread
import Reckon.Proofs.Notation.Sum

namespace Reckon.Notation

open Reckon.Text Reckon.Decimal

/-! ## Texts of complex numbers -/

section

variable {re im : Real}

theorem isCoefficient_coefficientText (h : IsPlain im) (forcePoint : Bool) :
    IsCoefficient (coefficientText forcePoint im).toList fun negative => rereadCoefficient forcePoint negative im := by
  unfold coefficientText rereadCoefficient
  split
  · exact isCoefficient_nil
  · exact (isNumeral_unsignedReal h forcePoint).isCoefficient

theorem canonicalComplex_eq (hr : IsPlain re) (hi : IsPlain im) : canonicalComplex re im = .ok
    (if re.isZero && !im.isZero then signText im.isNegative ++ coefficientText false im ++ "i"
      else signText (re.isNegative && !re.isZero) ++ unsignedReal false re ++ (if im.isNegative then "-" else "+") ++
        coefficientText false im ++ "i") := by
  unfold canonicalComplex
  rw [coefficient_eq hi, real_eq hr]
  show (if _ then _ else _) = _
  split <;> rfl

theorem renderComplex_eq (hr : IsPlain re) (hi : IsPlain im) : renderComplex re im =
    (if im.isZero then Style.display.real re
      else .ok (if re.isZero then signText im.isNegative ++ coefficientText true im ++ "i"
        else signText (re.isNegative && !re.isZero) ++ unsignedReal true re ++ (if im.isNegative then " - " else " + ") ++
          coefficientText true im ++ "i")) := by
  unfold renderComplex
  rw [coefficient_eq hi, real_eq hr]
  split
  · rfl
  · show (if _ then _ else _) = _
    split <;> rfl

theorem readScalar_imaginaryText (hi : IsPlain im) (forcePoint negative : Bool) :
    readScalar (signText negative ++ coefficientText forcePoint im ++ "i") =
      complexOf (.ok .zero) (rereadCoefficient forcePoint negative im) := by
  have htext : signText negative ++ coefficientText forcePoint im ++ "i" =
      String.ofList (signChars (if negative then some true else none) ++ [] ++ (coefficientText forcePoint im).toList ++ ['i']) := by
    rw [string_signText]
    apply String.toList_injective
    simp
  rw [htext, readScalar_imaginary (isCoefficient_coefficientText hi forcePoint) _ isSpaces_nil fun _ => rfl]
  cases negative <;> rfl

theorem readScalar_sumText (hr : IsPlain re) (hi : IsPlain im) (forcePoint negative negative' : Bool) {pad : String}
    (hpad : pad = "" ∨ pad = " ") :
    readScalar (signText negative ++ unsignedReal forcePoint re ++ (pad ++ (if negative' then "-" else "+") ++ pad) ++
        coefficientText forcePoint im ++ "i") =
      complexOf (rereadReal forcePoint negative re) (rereadCoefficient forcePoint negative' im) := by
  have htext : signText negative ++ unsignedReal forcePoint re ++ (pad ++ (if negative' then "-" else "+") ++ pad) ++
      coefficientText forcePoint im ++ "i" =
      String.ofList (signChars (if negative then some true else none) ++ (unsignedReal forcePoint re).toList ++
        pad.toList ++ signChars (some negative') ++ pad.toList ++ (coefficientText forcePoint im).toList ++ ['i']) := by
    rw [string_signText]
    apply String.toList_injective
    cases negative' <;> simp [signChars]
  have hspaces : IsSpaces pad.toList := by
    rcases hpad with rfl | rfl
    · exact isSpaces_nil
    · exact isSpaces_replicate 1
  rw [htext, readScalar_sum (isNumeral_unsignedReal hr forcePoint) (isCoefficient_coefficientText hi forcePoint) _ _
    hspaces hspaces]
  cases negative <;> rfl

end

/-! ## Round trips -/

/-- The parts are numbers whose texts have no cycle. -/
def IsPlainScalar : Scalar → Prop
  | .real x => IsPlain x
  | .complex re im => IsPlain re ∧ IsPlain im

/-- A part stores a single digit at the least exponent. -/
def TightScalar : Scalar → Prop
  | .real x => TightReal x
  | .complex re im => TightReal re ∨ TightReal im

/-- The text is read as a number equal to the given one, and a real number keeps its kind; a native
one becomes a decimal. -/
structure IsReadAs (text : String) (z z' : Scalar) : Prop where
  read : readScalar text = .ok z'
  equals : Number.equals (.scalar z') (.scalar z) = .ok true
  kind_eq : ∀ x, z = .real x → z'.kind = if x.kind = .small then .big else x.kind

theorem isNaN_of_isPlain {x : Real} (h : IsPlain x) : x.isNaN = false := by
  cases x with
  | nan => exact h.elim
  | small | big | irrational | recurring | infinite => rfl

theorem equals_of_parts {p q : Scalar} (hp : p.isNaN = false) (hq : q.isNaN = false)
    (hre : p.parts.1.equals q.parts.1 = .ok true) (him : p.parts.2.equals q.parts.2 = .ok true) :
    Number.equals (.scalar p) (.scalar q) = .ok true := by
  show (if p.isNaN || q.isNaN then Except.ok false
    else do if ← p.parts.1.equals q.parts.1 then p.parts.2.equals q.parts.2 else .ok false) = _
  rw [hp, hq, hre, him]
  rfl

theorem zero_equals {x : Real} (h : IsPlain x) (hz : x.isZero = true) : Real.zero.equals x = .ok true := by
  have hdecimal : ∀ {d : Decimal}, d.isZero = true → d.toRat = Decimal.zero.toRat := fun hd =>
    ((toRat_eq_zero_iff _).2 ((isZero_iff _).1 hd)).trans ((toRat_eq_zero_iff _).2 rfl).symm
  cases x with
  | small f b => exact equals_of_toRat (congrArg Except.ok (hdecimal hz)) rfl
  | big d => exact equals_of_toRat (congrArg Except.ok (hdecimal hz)) rfl
  | irrational d => exact equals_of_toRat (congrArg Except.ok (hdecimal hz)) rfl
  | infinite => cases hz
  | recurring | nan => exact h.elim

theorem rereadKind_eq {x : Real} (h : IsPlain x) :
    rereadKind (x.isNegative && !x.isZero) x = if x.kind = .small then .big else x.kind := by
  cases x with
  | small | big | irrational => rfl
  | infinite s => cases s <;> rfl
  | recurring | nan => exact h.elim

/-- A written real number is read as the number that its text spells. -/
theorem readScalar_real {x : Real} (h : IsPlain x) (style : Style) : ∃ text, style.real x = .ok text ∧
    readScalar text = (rereadReal style.forcePoint (x.isNegative && !x.isZero) x).map .real := by
  refine ⟨_, real_eq h style, ?_⟩
  rw [string_signText, (isNumeral_unsignedReal h style.forcePoint).readScalar_eq]
  cases x.isNegative && !x.isZero <;> rfl

theorem isReadAs_real {x y : Real} {text : String} (h : IsPlain x)
    (hread : readScalar text = .ok (.real y)) (hy : IsReread (x.isNegative && !x.isZero) x y) :
    IsReadAs text (.real x) (.real y) := by
  refine ⟨hread, equals_of_parts (isNaN_of_isPlain hy.plain) (isNaN_of_isPlain h) (hy.equals ?_) ?_, ?_⟩
  · cases hz : x.isZero
    · exact .inr (by rw [Bool.not_false, Bool.and_true])
    · exact .inl rfl
  · exact (by with_unfolding_all decide : Real.zero.equals Real.zero = .ok true)
  · rintro _ ⟨⟩
    exact hy.kind_eq.trans (rereadKind_eq h)

theorem isReadAs_complex {re im x y : Real} {text : String}
    (hread : readScalar text = .ok (.complex x y)) (hx : x.equals re = .ok true) (hy : y.equals im = .ok true) :
    IsReadAs text (.complex re im) (.complex x y) :=
  ⟨hread, equals_of_parts rfl rfl hx hy, nofun⟩

/-- The storage form of every number is read back, and it is the storage form of what was read. -/
theorem canonical_isReadAs {z : Scalar} (h : IsPlainScalar z) : ∃ text z', canonical (.scalar z) = .ok text ∧
    IsReadAs text z z' ∧ canonical (.scalar z') = .ok text := by
  have hfree : ∀ {p : Prop}, ¬ (false = true ∧ p) := fun hf => Bool.false_ne_true hf.1
  cases z with
  | real x =>
    obtain ⟨text, htext, hread⟩ := readScalar_real h Style.storage
    obtain ⟨y, hy, hrel⟩ := exists_reread h hfree (x.isNegative && !x.isZero)
    rw [show Style.storage.forcePoint = false from rfl, hy] at hread
    refine ⟨text, .real y, htext, isReadAs_real h hread hrel, ?_⟩
    show Style.storage.real y = .ok text
    rw [← htext, real_eq hrel.plain, real_eq h, hrel.isNegative_eq, hrel.isZero_eq]
    show Except.ok (_ ++ unsignedReal false y) = Except.ok (_ ++ unsignedReal false x)
    rw [unsignedReal_reread h hy]
    cases x.isZero <;> simp
  | complex re im =>
    obtain ⟨hr, hi⟩ := h
    obtain ⟨y, hy, hrely⟩ := exists_rereadCoefficient hi hfree im.isNegative
    have hsame := coefficientText_reread hi hrely hy
    have hyeq := hrely.equals (.inr rfl)
    -- a real part that is zero is left out, and read back as zero
    by_cases honly : (re.isZero && !im.isZero) = true
    · refine ⟨_, .complex .zero y, canonicalComplex_eq hr hi, ?_, ?_⟩
      · rw [if_pos honly]
        refine isReadAs_complex ?_ (zero_equals hr (by simpa using (Bool.and_eq_true_iff.1 honly).1)) hyeq
        rw [readScalar_imaginaryText hi, hy]
        rfl
      · have hzero : IsPlain Real.zero := (by with_unfolding_all decide : Decimal.zero.inRange = true)
        refine (canonicalComplex_eq hzero hrely.plain).trans ?_
        have honly' : (Real.zero.isZero && !y.isZero) = true := by
          rw [hrely.isZero_eq]
          exact (Bool.and_eq_true_iff.1 honly).2
        rw [if_pos honly, if_pos honly', hsame, hrely.isNegative_eq]
    · obtain ⟨x, hx, hrelx⟩ := exists_reread hr hfree (re.isNegative && !re.isZero)
      refine ⟨_, .complex x y, canonicalComplex_eq hr hi, ?_, ?_⟩
      · rw [if_neg honly]
        refine isReadAs_complex ?_ (hrelx.equals ?_) hyeq
        · have := readScalar_sumText hr hi false (re.isNegative && !re.isZero) im.isNegative (.inl rfl)
          rw [String.empty_append, String.append_empty] at this
          rw [this, hx, hy]
          rfl
        · cases hz : re.isZero
          · exact .inr (by rw [Bool.not_false, Bool.and_true])
          · exact .inl rfl
      · refine (canonicalComplex_eq hrelx.plain hrely.plain).trans ?_
        rw [hrelx.isZero_eq, hrely.isZero_eq, if_neg honly, if_neg honly, hsame, hrely.isNegative_eq,
          hrelx.isNegative_eq, unsignedReal_reread hr hx]
        cases re.isZero <;> simp

/-! ## The display form -/

/-- What is read from the text for display. -/
def rereadDisplay : Scalar → Outcome Scalar
  | .real x => (rereadReal true (x.isNegative && !x.isZero) x).map .real
  | .complex re im =>
    if im.isZero then (rereadReal true (re.isNegative && !re.isZero) re).map .real
    else complexOf (if re.isZero then .ok .zero else rereadReal true (re.isNegative && !re.isZero) re)
      (rereadCoefficient true im.isNegative im)

theorem render_eq {z : Scalar} (h : IsPlainScalar z) :
    ∃ text, render (.scalar z) = .ok text ∧ readScalar text = rereadDisplay z := by
  cases z with
  | real x => exact readScalar_real h Style.display
  | complex re im =>
    obtain ⟨hr, hi⟩ := h
    rw [rereadDisplay]
    by_cases him : im.isZero = true
    · obtain ⟨text, htext, hread⟩ := readScalar_real hr Style.display
      refine ⟨text, (renderComplex_eq hr hi).trans ?_, ?_⟩
      · rw [if_pos him, htext]
      · rw [if_pos him]
        exact hread
    · refine ⟨_, (renderComplex_eq hr hi).trans (if_neg him), ?_⟩
      rw [if_neg him]
      by_cases hre : re.isZero = true
      · rw [if_pos hre, if_pos hre, readScalar_imaginaryText hi]
      · rw [if_neg hre, if_neg hre, ← readScalar_sumText hr hi true _ _ (.inr rfl)]
        cases im.isNegative <;> rfl

theorem rereadDisplay_tight {z : Scalar} (h : IsPlainScalar z) (ht : TightScalar z) :
    rereadDisplay z = .error .decimalRange := by
  cases z with
  | real x =>
    show (rereadReal true _ x).map Scalar.real = _
    rw [rereadReal_tight h ht]
    rfl
  | complex re im =>
    obtain ⟨hr, hi⟩ := h
    rw [rereadDisplay]
    rcases ht with ht | ht
    · rw [if_neg (by rw [isZero_of_tight ht]; exact Bool.false_ne_true : ¬ re.isZero = true), rereadReal_tight hr ht]
      split <;> rfl
    · rw [if_neg (by rw [isZero_of_tight ht]; exact Bool.false_ne_true), rereadCoefficient_tight hi ht]
      by_cases hre : re.isZero = true
      · rw [if_pos hre]
        rfl
      · rw [if_neg hre]
        -- a real part that cannot be read either fails in the same way
        by_cases htre : TightReal re
        · rw [rereadReal_tight hr htre]
          rfl
        · obtain ⟨x, hx, -⟩ := exists_reread hr (fun hf => htre hf.2) (re.isNegative && !re.isZero)
          rw [hx]
          rfl

theorem exists_rereadDisplay {z : Scalar} (h : IsPlainScalar z) (ht : ¬ TightScalar z) {text : String}
    (hread : readScalar text = rereadDisplay z) : ∃ z', IsReadAs text z z' := by
  cases z with
  | real x =>
    obtain ⟨y, hy, hrel⟩ := exists_reread h (fun hf => ht hf.2) (x.isNegative && !x.isZero)
    refine ⟨.real y, isReadAs_real h ?_ hrel⟩
    rw [hread, rereadDisplay, hy]
    rfl
  | complex re im =>
    obtain ⟨hr, hi⟩ := h
    have hsign : re.isZero = true ∨ (re.isNegative && !re.isZero) = re.isNegative := by
      cases re.isZero
      · exact .inr (by rw [Bool.not_false, Bool.and_true])
      · exact .inl rfl
    obtain ⟨x, hx, hrelx⟩ := exists_reread hr (fun hf => ht (.inl hf.2)) (re.isNegative && !re.isZero)
    obtain ⟨y, hy, hrely⟩ := exists_rereadCoefficient hi (fun hf => ht (.inr hf.2)) im.isNegative
    have hxeq := hrelx.equals hsign
    have hyeq := hrely.equals (.inr rfl)
    rw [rereadDisplay, hx, hy] at hread
    by_cases him : im.isZero = true
    · rw [if_pos him] at hread
      exact ⟨.real x, hread, equals_of_parts (isNaN_of_isPlain hrelx.plain) rfl hxeq (zero_equals hi him), nofun⟩
    · rw [if_neg him] at hread
      by_cases hre : re.isZero = true
      · rw [if_pos hre] at hread
        exact ⟨_, isReadAs_complex hread (zero_equals hr hre) hyeq⟩
      · rw [if_neg hre] at hread
        exact ⟨_, isReadAs_complex hread hxeq hyeq⟩

/-- The display form is read back unless a part stores a single digit at the least exponent. -/
theorem render_isReadAs_iff {z : Scalar} (h : IsPlainScalar z) :
    (∃ text z', render (.scalar z) = .ok text ∧ IsReadAs text z z') ↔ ¬ TightScalar z := by
  obtain ⟨text, htext, hread⟩ := render_eq h
  constructor
  · rintro ⟨text', z', htext', hz'⟩ ht
    obtain rfl : text = text' := Except.ok.inj (htext.symm.trans htext')
    rw [rereadDisplay_tight h ht, hz'.read] at hread
    cases hread
  · intro ht
    obtain ⟨z', hz'⟩ := exists_rereadDisplay h ht hread
    exact ⟨text, z', htext, hz'⟩

/-! ## Both forms -/

/-- Every number without a repeating part is read back from its storage form, which is stable, and
from its display form exactly when no part stores a single digit at the least exponent. -/
theorem round_trip_iff {z : Scalar} (h : IsPlainScalar z) :
    (∃ text z', canonical (.scalar z) = .ok text ∧ IsReadAs text z z' ∧ canonical (.scalar z') = .ok text) ∧
      ((∃ text z', render (.scalar z) = .ok text ∧ IsReadAs text z z') ↔ ¬ TightScalar z) :=
  ⟨canonical_isReadAs h, render_isReadAs_iff h⟩

/-- The number `3.0 - 0.5...i`. -/
theorem round_trip_three_sub_half :
    (∃ text z', canonical (.scalar (.complex (.big ⟨false, 3, 0⟩) (.irrational ⟨true, 5, -1⟩))) = .ok text ∧
        IsReadAs text (.complex (.big ⟨false, 3, 0⟩) (.irrational ⟨true, 5, -1⟩)) z' ∧
        canonical (.scalar z') = .ok text) ∧
      ∃ text z', render (.scalar (.complex (.big ⟨false, 3, 0⟩) (.irrational ⟨true, 5, -1⟩))) = .ok text ∧
        IsReadAs text (.complex (.big ⟨false, 3, 0⟩) (.irrational ⟨true, 5, -1⟩)) z' := by
  have hplain : IsPlainScalar (.complex (.big ⟨false, 3, 0⟩) (.irrational ⟨true, 5, -1⟩)) :=
    ⟨(by decide +kernel : (⟨false, 3, 0⟩ : Decimal).inRange = true),
      (by decide +kernel : (⟨true, 5, -1⟩ : Decimal).inRange = true)⟩
  obtain ⟨hstorage, hdisplay⟩ := round_trip_iff hplain
  refine ⟨hstorage, hdisplay.2 ?_⟩
  rintro (ht | ht)
  · exact absurd ht.1 (by decide)
  · exact absurd ht.1 (by decide)

/-- A one at the least exponent is a stored number whose text for display is not read back. -/
theorem render_one_at_least_exponent :
    IsPlainScalar (.real (.big ⟨false, 1, -1999999999999999997⟩)) ∧
      render (.scalar (.real (.big ⟨false, 1, -1999999999999999997⟩))) = .ok "1.0e-1999999999999999997" ∧
      readScalar "1.0e-1999999999999999997" = .error .decimalRange := by
  have hplain : IsPlainScalar (.real (.big ⟨false, 1, -1999999999999999997⟩)) :=
    (by decide +kernel : (⟨false, 1, -1999999999999999997⟩ : Decimal).inRange = true)
  have htext : render (.scalar (.real (.big ⟨false, 1, -1999999999999999997⟩))) = .ok "1.0e-1999999999999999997" := by
    decide +kernel
  obtain ⟨text, hrender, hread⟩ := render_eq hplain
  obtain rfl := Except.ok.inj (hrender.symm.trans htext)
  exact ⟨hplain, htext, hread.trans (rereadDisplay_tight hplain ⟨rfl, by decide, by decide⟩)⟩

end Reckon.Notation
