/-
The number that is read back from the text of another one, alone or as a coefficient of the
imaginary unit. It is the same number with the sign that was written, a native one as a decimal, and
its text in the storage form is the same again.
-/
import Reckon.Proofs.Notation.Numeral
import Reckon.Proofs.Real.Equality

namespace Reckon.Notation

open Reckon.Text Reckon.Decimal

/-! ## The number that is read back -/

/-- A single digit at the least exponent is stored. -/
def TightReal : Real → Prop
  | .big d | .irrational d => Tight d
  | .small .. | .recurring _ | .infinite _ | .nan => False

/-- The kind of a number that is read back; a native number becomes a decimal. -/
def rereadKind (negative : Bool) : Real → Kind
  | .small .. | .big _ => .big
  | .irrational _ => .irrational
  | .recurring _ => .recurring
  | .infinite _ => (Real.infinite negative).kind
  | .nan => .nan

/-- The number `y` is `x` with the sign `negative`, as it is read back from a text. -/
structure IsReread (negative : Bool) (x y : Real) : Prop where
  plain : IsPlain y
  kind_eq : y.kind = rereadKind negative x
  isZero_eq : y.isZero = x.isZero
  isNegative_eq : y.isNegative = negative
  isUnit_eq : isUnit y = isUnit x
  equals : x.isZero = true ∨ negative = x.isNegative → y.equals x = .ok true

theorem isUnit_iff (d : Decimal) : isUnit (.big d) = true ↔ |d.toRat| = 1 := by
  rw [← normalize_one_iff]
  show (true && (d.normalize.coefficient == 1 && d.normalize.exponent == 0)) = true ↔ _
  rw [Bool.true_and, Bool.and_eq_true, beq_iff_eq, beq_iff_eq]

theorem isUnit_big_congr {d d' : Decimal} (h : |d.toRat| = |d'.toRat|) : isUnit (.big d) = isUnit (.big d') := by
  rw [Bool.eq_iff_iff, isUnit_iff, isUnit_iff, h]

theorem toRat_eq_ite_abs (d : Decimal) : d.toRat = if d.negative then -|d.toRat| else |d.toRat| := by
  rw [abs_toRat, toRat_eq_sign]
  cases d.negative <;> simp

theorem toRat_reread_eq {negative : Bool} {d : Decimal} (h : d.isZero = true ∨ negative = d.negative) (forcePoint : Bool) :
    (reread forcePoint negative d).toRat = d.toRat := by
  rw [toRat_reread]
  rcases h with h | rfl
  · rw [(toRat_eq_zero_iff d).2 ((isZero_iff d).1 h)]
    simp
  · exact (toRat_eq_ite_abs d).symm

theorem abs_toRat_reread (forcePoint negative : Bool) (d : Decimal) :
    |(reread forcePoint negative d).toRat| = |d.toRat| := by
  rw [toRat_reread]
  cases negative <;> simp

theorem equals_of_toRat {x y : Real} {q : ℚ} (hx : x.toRat = .ok q) (hy : y.toRat = .ok q) : y.equals x = .ok true := by
  rw [Real.equals_of_toRat? (Real.toRat_eq_ok_iff.1 hy) (Real.toRat_eq_ok_iff.1 hx), beq_self_eq_true]

theorem equals_reread {x y : Real} {d : Decimal} {forcePoint negative : Bool} (hx : x.toRat = .ok d.toRat)
    (hy : y.toRat = .ok (reread forcePoint negative d).toRat) (hs : d.isZero = true ∨ negative = d.negative) :
    y.equals x = .ok true :=
  equals_of_toRat hx (by rw [hy, toRat_reread_eq hs])

/-- What is read behind a sign is the number with that sign. -/
theorem exists_reread {x : Real} (h : IsPlain x) {forcePoint : Bool} (ht : ¬ (forcePoint = true ∧ TightReal x))
    (negative : Bool) : ∃ y, rereadReal forcePoint negative x = .ok y ∧ IsReread negative x y := by
  have hdecimal : ∀ {d : Decimal}, d.inRange = true → ¬ (forcePoint = true ∧ Tight d) →
      (reread forcePoint negative d).inRange = true := fun hr hd => (inRange_reread_iff _ _ hr).2 hd
  cases x with
  | small f b =>
    obtain ⟨hr, hmin⟩ := b.toDecimal_bounds
    have hrange := hdecimal hr fun hd => hmin.ne' hd.2.1
    exact ⟨_, ofStored_of_inRange _ hrange, hrange, rfl, isZero_reread _ _ _, reread_negative _ _ _,
      isUnit_big_congr (abs_toRat_reread _ _ _), equals_reread rfl rfl⟩
  | big d =>
    have hrange := hdecimal h ht
    exact ⟨_, ofStored_of_inRange _ hrange, hrange, rfl, isZero_reread _ _ _, reread_negative _ _ _,
      isUnit_big_congr (abs_toRat_reread _ _ _), equals_reread rfl rfl⟩
  | irrational d =>
    have hrange := hdecimal h ht
    exact ⟨_, ofStored_of_inRange _ hrange, hrange, rfl, isZero_reread _ _ _, reread_negative _ _ _, rfl,
      equals_reread rfl rfl⟩
  | recurring d => exact h.elim
  | infinite s =>
    refine ⟨.infinite negative, rfl, trivial, rfl, rfl, rfl, rfl, ?_⟩
    rintro (hz | hs)
    · exact absurd hz Bool.false_ne_true
    · obtain rfl : negative = s := hs
      show Except.ok (negative == negative) = _
      rw [beq_self_eq_true]
  | nan => exact h.elim

theorem rereadReal_tight {x : Real} (h : IsPlain x) (ht : TightReal x) (negative : Bool) :
    rereadReal true negative x = .error .decimalRange := by
  have hdecimal : ∀ {d : Decimal} (approximate : Bool), d.inRange = true → Tight d →
      ofStored approximate (reread true negative d) = .error .decimalRange := by
    intro d approximate hr hd
    have hnot : (reread true negative d).inRange = false := by
      rw [← Bool.not_eq_true, inRange_reread_iff _ _ hr]
      exact fun hn => hn ⟨rfl, hd⟩
    rw [ofStored, hnot]
    rfl
  cases x with
  | big d => exact hdecimal false h ht
  | irrational d => exact hdecimal true h ht
  | small | recurring | infinite | nan => exact ht.elim

/-! ## The text of the number that is read back -/

theorem unsignedText_reread (negative : Bool) (d : Decimal) :
    unsignedText (reread false negative d) false = unsignedText d false := by
  have hmax : maxPadding = 50 := rfl
  have hzero := isZero_strip (reread false negative d)
  rw [isZero_reread, ← isZero_strip d] at hzero
  unfold unsignedText
  rw [hzero]
  by_cases hz : d.strip.isZero = true
  · rw [if_pos hz, if_pos hz]
  · rw [if_neg hz, if_neg hz]
    have hne : d.strip.coefficient ≠ 0 := fun h => hz ((isZero_iff _).2 h)
    have hstrip : (⟨negative, d.strip.coefficient, d.strip.exponent⟩ : Decimal).strip =
        ⟨negative, d.strip.coefficient, d.strip.exponent⟩ := by rw [strip_withSign, strip_strip]
    unfold reread
    rw [if_neg hz]
    unfold spelled
    -- only a number whose zeros before the point were written is read with another exponent
    by_cases hpad : 0 ≤ d.strip.exponent ∧ d.strip.exponent ≤ maxPadding
    · rw [if_pos hpad, if_neg Bool.false_ne_true]
      have hint : (⟨negative, d.strip.coefficient * 10 ^ d.strip.exponent.toNat, 0⟩ : Decimal).strip =
          ⟨negative, d.strip.coefficient * 10 ^ d.strip.exponent.toNat, 0⟩ := by
        unfold strip
        rw [if_neg (by rw [isZero_iff]; exact Nat.mul_ne_zero hne (by positivity)), if_pos le_rfl]
      rw [hint]
      have hfew : ¬ maxPadding < d.strip.exponent.natAbs := by omega
      have hnone : ¬ maxPadding < Int.natAbs 0 := by decide
      unfold magnitudeText digits
      simp only [if_pos le_rfl, if_pos hpad.1, if_neg hfew, if_neg hnone]
      rw [Digits.ofNat_mul_pow (Nat.pos_of_ne_zero hne), show d.strip.exponent.natAbs = d.strip.exponent.toNat by omega]
      simp
    · rw [if_neg hpad, if_neg (by simp), hstrip]
      rfl

theorem unsignedReal_reread {x y : Real} {negative : Bool} (h : IsPlain x) (hy : rereadReal false negative x = .ok y) :
    unsignedReal false y = unsignedReal false x := by
  have hstored : ∀ {approximate : Bool} {d : Decimal} {y : Real}, ofStored approximate d = .ok y →
      y = if approximate then .irrational d else .big d := by
    intro approximate d y hok
    unfold ofStored at hok
    split at hok
    · cases hok
    · exact (Except.ok.inj hok).symm
  cases x with
  | small f b =>
    rw [hstored hy]
    exact unsignedText_reread negative b.toDecimal
  | big d =>
    rw [hstored hy]
    exact unsignedText_reread negative d
  | irrational d =>
    rw [hstored hy]
    show unsignedText _ false ++ "..." = unsignedText d false ++ "..."
    rw [unsignedText_reread]
  | infinite s =>
    obtain rfl := Except.ok.inj hy
    rfl
  | recurring | nan => exact h.elim

/-! ## Coefficients of the imaginary unit -/

theorem unsignedText_neg (d : Decimal) (forcePoint : Bool) : unsignedText d.neg forcePoint = unsignedText d forcePoint := by
  have h : d.neg.strip = ⟨!d.negative, d.strip.coefficient, d.strip.exponent⟩ := strip_withSign d _
  unfold unsignedText
  rw [h]
  rfl

theorem unsignedReal_neg (x : Real) (forcePoint : Bool) : unsignedReal forcePoint x.neg = unsignedReal forcePoint x := by
  cases x with
  | small f b =>
    show unsignedText b.neg.toDecimal forcePoint = unsignedText b.toDecimal forcePoint
    rw [FiniteBinary.toDecimal_neg, unsignedText_neg]
  | big d => exact unsignedText_neg d forcePoint
  | irrational d =>
    show unsignedText d.neg forcePoint ++ "..." = unsignedText d forcePoint ++ "..."
    rw [unsignedText_neg]
  | recurring | infinite | nan => rfl

theorem isUnit_neg {x : Real} (h : IsPlain x) : isUnit x.neg = isUnit x := by
  have hneg : ∀ d : Decimal, isUnit (.big d.neg) = isUnit (.big d) := fun d =>
    isUnit_big_congr (by rw [toRat_neg, abs_neg])
  cases x with
  | small f b =>
    show isUnit (.big b.neg.toDecimal) = isUnit (.big b.toDecimal)
    rw [FiniteBinary.toDecimal_neg, hneg]
  | big d => exact hneg d
  | irrational | infinite => rfl
  | recurring | nan => exact h.elim

theorem isPlain_neg {x : Real} (h : IsPlain x) : IsPlain x.neg := by
  cases x with
  | small | infinite => trivial
  | big d | irrational d => exact h
  | recurring | nan => exact h.elim

theorem isNegative_neg {x : Real} (h : IsPlain x) : x.neg.isNegative = !x.isNegative := by
  cases x with
  | small f b =>
    show b.neg.toDecimal.negative = !b.toDecimal.negative
    rw [FiniteBinary.toDecimal_neg]
    rfl
  | big | irrational | infinite => rfl
  | recurring | nan => exact h.elim

/-- The text of the coefficient of the imaginary unit; a one is not written. -/
def coefficientText (forcePoint : Bool) (im : Real) : String := if isUnit im then "" else unsignedReal forcePoint im

/-- What is read from the text of a coefficient behind a sign. -/
def rereadCoefficient (forcePoint negative : Bool) (im : Real) : Outcome Real :=
  if isUnit im then .ok (if negative then Real.one.neg else .one) else rereadReal forcePoint negative im

section

variable {im : Real}

theorem coefficient_eq (h : IsPlain im) (style : Style) :
    style.coefficient im = .ok (coefficientText style.forcePoint im) := by
  have habs : ∀ m, IsPlain m → m.isNegative = false → isUnit m = isUnit im →
      unsignedReal style.forcePoint m = unsignedReal style.forcePoint im →
      (if isUnit m then .ok "" else style.real m) = .ok (coefficientText style.forcePoint im) := by
    intro m hm hneg hunit htext
    rw [real_eq hm, hneg, Bool.false_and, htext, hunit, coefficientText]
    split
    · rfl
    · rw [signText, if_neg Bool.false_ne_true, String.empty_append]
  unfold Style.coefficient
  simp only
  by_cases hneg : im.isNegative = true
  · rw [if_pos hneg]
    exact habs _ (isPlain_neg h) (by rw [isNegative_neg h, hneg]; rfl) (isUnit_neg h) (unsignedReal_neg _ _)
  · rw [if_neg hneg]
    exact habs _ h (by simpa using hneg) rfl rfl

/-- A one that is left out is read back as a one. -/
theorem isReread_unit (h : IsPlain im) (hunit : isUnit im = true) (negative : Bool) :
    IsReread negative im (if negative then Real.one.neg else .one) := by
  have hone : isUnit .one = true := by with_unfolding_all decide
  have hdecimal : ∀ {d : Decimal}, |d.toRat| = 1 → d.isZero = true ∨ negative = d.negative →
      d.toRat = if negative then -1 else 1 := by
    intro d habs hs
    rcases hs with hz | rfl
    · rw [(toRat_eq_zero_iff d).2 ((isZero_iff d).1 hz)] at habs
      exact absurd habs (by norm_num)
    · rw [toRat_eq_ite_abs, habs]
  have hzero : ∀ {d : Decimal}, |d.toRat| = 1 → d.isZero = false := by
    intro d habs
    rw [← Bool.not_eq_true, isZero_iff, ← toRat_eq_zero_iff]
    intro h0
    rw [h0] at habs
    exact absurd habs (by norm_num)
  have hvalue : (if negative then Real.one.neg else Real.one).toRat = .ok (if negative then -1 else 1) := by
    cases negative <;> with_unfolding_all decide
  have hplain : IsPlain (if negative then Real.one.neg else Real.one) := by
    cases negative
    · exact (by with_unfolding_all decide : Decimal.one.inRange = true)
    · exact (by with_unfolding_all decide : Decimal.one.neg.inRange = true)
  have hunit' : isUnit (if negative then Real.one.neg else Real.one) = true := by
    cases negative <;> with_unfolding_all decide
  have hparts : ∀ {x : Real}, x = (if negative then Real.one.neg else Real.one) →
      x.kind = .big ∧ x.isZero = false ∧ x.isNegative = negative := by
    rintro x rfl
    cases negative <;> exact ⟨rfl, rfl, rfl⟩
  obtain ⟨hkind, hz, hneg⟩ := hparts rfl
  cases im with
  | small f b =>
    have habs := (isUnit_iff b.toDecimal).1 hunit
    refine ⟨hplain, hkind, hz.trans (hzero habs).symm, hneg, hunit'.trans hunit.symm, fun hs => ?_⟩
    exact equals_of_toRat (by rw [← hdecimal habs hs]; rfl) hvalue
  | big d =>
    have habs := (isUnit_iff d).1 hunit
    refine ⟨hplain, hkind, hz.trans (hzero habs).symm, hneg, hunit'.trans hunit.symm, fun hs => ?_⟩
    exact equals_of_toRat (by rw [← hdecimal habs hs]; rfl) hvalue
  | irrational | infinite => cases hunit
  | recurring | nan => exact h.elim

theorem exists_rereadCoefficient (h : IsPlain im) {forcePoint : Bool} (ht : ¬ (forcePoint = true ∧ TightReal im))
    (negative : Bool) : ∃ y, rereadCoefficient forcePoint negative im = .ok y ∧ IsReread negative im y := by
  unfold rereadCoefficient
  split
  · rename_i hunit
    exact ⟨_, rfl, isReread_unit h hunit negative⟩
  · exact exists_reread h ht negative

theorem coefficientText_reread {y : Real} {negative : Bool} (h : IsPlain im) (hread : IsReread negative im y)
    (hy : rereadCoefficient false negative im = .ok y) : coefficientText false y = coefficientText false im := by
  unfold coefficientText
  rw [hread.isUnit_eq]
  unfold rereadCoefficient at hy
  split
  · rfl
  · rename_i hunit
    rw [if_neg hunit] at hy
    exact unsignedReal_reread h hy

/-- A single digit at the least exponent is far from one. -/
theorem abs_toRat_ne_one {d : Decimal} (h : Tight d) : |d.toRat| ≠ 1 := by
  obtain ⟨hexp, -, hlt⟩ := h
  obtain ⟨n, hn, hbig⟩ : ∃ n : Nat, d.exponent = -(n : Int) ∧ 10 ≤ n :=
    ⟨1999999999999999997, hexp, by decide⟩
  intro habs
  rw [abs_toRat, hn, tenPow_neg_natCast, ← div_eq_mul_inv, div_eq_one_iff_eq (by positivity)] at habs
  have hnat : d.coefficient = 10 ^ n := by exact_mod_cast habs
  have := Nat.lt_pow_self (show 1 < 10 by decide) (n := n)
  omega

theorem rereadCoefficient_tight (h : IsPlain im) (ht : TightReal im) (negative : Bool) :
    rereadCoefficient true negative im = .error .decimalRange := by
  have hunit : ¬ isUnit im = true := by
    cases im with
    | big d =>
      rw [isUnit_iff]
      exact abs_toRat_ne_one ht
    | irrational d => exact Bool.false_ne_true
    | small | recurring | infinite | nan => exact ht.elim
  rw [rereadCoefficient, if_neg hunit]
  exact rereadReal_tight h ht negative

theorem isZero_of_tight {x : Real} (ht : TightReal x) : x.isZero = false := by
  have hdecimal : ∀ {d : Decimal}, Tight d → d.isZero = false := fun hd => by
    rw [← Bool.not_eq_true, isZero_iff]
    have := hd.2.1
    omega
  cases x with
  | big d | irrational d => exact hdecimal ht
  | small | recurring | infinite | nan => exact ht.elim

end

end Reckon.Notation
