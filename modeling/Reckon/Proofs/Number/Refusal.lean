/-
How complex arithmetic meets NaN. Only an operand that is NaN itself is refused in the first place. A NaN
part of a complex number is met, or not, by the real operations on the parts, each of which comes to its
turn only if the ones before it succeed.
-/
import Reckon.Proofs.Number.Equality
import Reckon.Proofs.Number.Parts
import Reckon.Proofs.Real.Refusal

namespace Reckon

open Outcome

/-! ## Two products -/

namespace Real

variable {a b c d z : Real}

/-- One of two products meets NaN, the first one or, after it, the second one. -/
def ProductsMeetNaN (a c b d : Real) : Prop := MeetsNaN a c ∨ Succeeds (a.mul c) ∧ MeetsNaN b d

theorem not_productsMeetNaN (ha : a.isNaN = false) (hb : b.isNaN = false) (hc : c.isNaN = false) (hd : d.isNaN = false) :
    ¬ ProductsMeetNaN a c b d := by
  rintro (h | ⟨-, h⟩)
  · exact not_meetsNaN ha hc h
  · exact not_meetsNaN hb hd h

theorem refused_ofProducts_iff {op : Real → Real → Outcome Real} (hop : ∀ x y, Combines (op x y) x y) :
    Refused (do op (← a.mul c) (← b.mul d)) ↔ ProductsMeetNaN a c b d := by
  have hsecond : ∀ x, a.mul c = .ok x → (Refused (do op x (← b.mul d)) ↔ MeetsNaN b d) := fun x hx => by
    rw [refused_bind_of_not_refused fun y hy => ?_, (combines_mul b d).refused_iff]
    -- products are not NaN, so what is made of them is not refused either
    exact (hop x y).not_refused ((combines_mul a c).isNaN hx) ((combines_mul b d).isNaN hy)
  rw [refused_bind_of_forall hsecond, (combines_mul a c).refused_iff]
  rfl

theorem refused_sumOfProducts_iff : Refused (sumOfProducts a c b d) ↔ ProductsMeetNaN a c b d :=
  refused_ofProducts_iff combines_add

theorem refused_differenceOfProducts_iff : Refused (differenceOfProducts a c b d) ↔ ProductsMeetNaN a c b d :=
  refused_ofProducts_iff combines_sub

/-- What is made of two products has not met NaN, and is not NaN. -/
theorem isNaN_of_ofProducts {op : Real → Real → Outcome Real} (hop : ∀ x y, Combines (op x y) x y)
    (h : (do op (← a.mul c) (← b.mul d)) = .ok z) : ¬ MeetsNaN a c ∧ ¬ MeetsNaN b d ∧ z.isNaN = false := by
  obtain ⟨x, hx, h⟩ := bind_eq_ok.1 h
  obtain ⟨y, hy, h⟩ := bind_eq_ok.1 h
  rw [← (combines_mul a c).refused_iff, ← (combines_mul b d).refused_iff, hx, hy]
  exact ⟨not_refused_ok _, not_refused_ok _, (hop x y).isNaN h⟩

end Real

/-! ## Parts -/

namespace Scalar

open Reckon.Real

variable {z w l v : Scalar}

theorem hasNaN_iff (z : Scalar) : (Number.scalar z).hasNaN = true ↔ z.re.isNaN = true ∨ z.im.isNaN = true := by
  cases z with
  | real x => exact (or_iff_left Bool.false_ne_true).symm
  | complex re im => exact Bool.or_eq_true _ _ ▸ Iff.rfl

/-- An operation on the real and then on the imaginary parts meets NaN. -/
def PartsMeetNaN (op : Real → Real → Outcome Real) (z w : Scalar) : Prop :=
  MeetsNaN z.re w.re ∨ Succeeds (op z.re w.re) ∧ MeetsNaN z.im w.im

/-- The product meets NaN, in its real or in its imaginary part. -/
def ProductMeetsNaN (z w : Scalar) : Prop :=
  ProductsMeetNaN z.re w.re z.im w.im ∨
    Succeeds (differenceOfProducts z.re w.re z.im w.im) ∧ ProductsMeetNaN z.re w.im z.im w.re

/-- The quotient meets NaN, in the square of the modulus of the divisor or, unless that is zero, in one of
the numerators. -/
def QuotientMeetsNaN (z w : Scalar) : Prop :=
  ProductsMeetNaN w.re w.re w.im w.im ∨ ∃ n, w.norm = .ok n ∧ n.isZero = false ∧
    (ProductsMeetNaN z.re w.re z.im w.im ∨
      Succeeds (sumOfProducts z.re w.re z.im w.im) ∧ ProductsMeetNaN z.im w.re z.re w.im)

/-- Neither the exponent nor the base is zero, and the logarithm of the base is refused or its product with
the exponent meets NaN. -/
def PowerMeetsNaN (z w : Scalar) : Prop :=
  w.isZero = false ∧ z.isZero = false ∧ (Refused z.lnParts ∨ ∃ l, z.lnParts = .ok l ∧ ProductMeetsNaN w l)

theorem refused_partwise_iff {op : Real → Real → Outcome Real} (hop : ∀ x y, Combines (op x y) x y) :
    Refused (do
      let re ← op z.re w.re
      let im ← op z.im w.im
      .ok (collapse re im)) ↔ PartsMeetNaN op z w := by
  rw [refused_bind_of_forall (p := MeetsNaN z.im w.im) fun re _ => ?_, (hop _ _).refused_iff]
  · rfl
  · rw [refused_bind_of_not_refused fun im _ => not_refused_ok _, (hop _ _).refused_iff]

theorem refused_addParts_iff (z w : Scalar) : Refused (z.addParts w) ↔ PartsMeetNaN Real.add z w :=
  refused_partwise_iff combines_add

theorem refused_subParts_iff (z w : Scalar) : Refused (z.subParts w) ↔ PartsMeetNaN Real.sub z w :=
  refused_partwise_iff combines_sub

theorem refused_mulParts_iff (z w : Scalar) : Refused (z.mulParts w) ↔ ProductMeetsNaN z w := by
  rw [mulParts_eq, refused_bind_of_forall (p := ProductsMeetNaN z.re w.im z.im w.re) fun re _ => ?_,
    refused_differenceOfProducts_iff]
  · rfl
  · rw [refused_bind_of_not_refused fun im _ => not_refused_ok _, refused_sumOfProducts_iff]

theorem refused_quotientParts_iff {n : Real} (hn : n.isNaN = false) : Refused (quotientParts z w n) ↔
    ProductsMeetNaN z.re w.re z.im w.im ∨
      Succeeds (sumOfProducts z.re w.re z.im w.im) ∧ ProductsMeetNaN z.im w.re z.re w.im := by
  unfold quotientParts
  rw [refused_bind_of_forall (p := ProductsMeetNaN z.im w.re z.re w.im) fun x hx => ?_, refused_sumOfProducts_iff]
  rw [refused_bind_of_not_refused fun y hy => ?_, refused_differenceOfProducts_iff]
  -- neither of the numerators is NaN
  have hre := not_refused_div (isNaN_of_ofProducts combines_add hx).2.2 hn
  have him := not_refused_div (isNaN_of_ofProducts combines_sub hy).2.2 hn
  rwa [refused_bind_of_not_refused fun re _ => by rwa [refused_bind_of_not_refused fun im _ => not_refused_ok _]]

theorem refused_divParts_iff (z w : Scalar) : Refused (z.divParts w) ↔ QuotientMeetsNaN z w := by
  rw [divParts_eq, refused_bind_iff, norm_eq, refused_sumOfProducts_iff]
  refine or_congr_right (exists_congr fun n => and_congr_right fun hn => ?_)
  cases hzero : n.isZero with
  | true =>
    rw [if_pos rfl, refused_fail_iff]
    exact iff_of_false (by decide) (fun h => nomatch h.1)
  | false =>
    rw [if_neg Bool.false_ne_true, refused_quotientParts_iff (isNaN_of_ofProducts combines_add hn).2.2, and_iff_right rfl]

/-! ## Powers -/

theorem isFinite_of_piTimes {num den : Int} {t : Real} (h : piTimes num den = .ok t) : t.isFinite = true := by
  obtain ⟨m, hm, h⟩ := bind_eq_ok.1 h
  have hfinite := (combines_mul Real.pi (.ofInt num)).isFinite rfl rfl hm
  exact isFinite_of_div ((isFinite_iff m).1 hfinite).2 h

/-- Angles are finite. -/
theorem isFinite_of_argument {t : Real} (h : z.argument = .ok t) : t.isFinite = true := by
  unfold argument at h
  simp only at h
  split at h
  · split at h
    · cases h
    · exact isFinite_of_piTimes h
  split at h
  · split at h
    · exact isFinite_of_piTimes h
    · obtain rfl := Except.ok.inj h
      rfl
  obtain ⟨q, -, h⟩ := bind_eq_ok.1 h
  obtain ⟨y, -, h⟩ := bind_eq_ok.1 h
  obtain ⟨theta, htheta, h⟩ := bind_eq_ok.1 h
  have hfinite : theta.isFinite = true := by
    unfold embed at htheta
    split at htheta
    · cases htheta
    · cases htheta
    · exact isFinite_of_ofApproximation htheta
  have hinfinite := ((isFinite_iff theta).1 hfinite).2
  split at h
  · split at h
    · exact (combines_sub theta Real.pi).isFinite hinfinite rfl h
    · exact (combines_add theta Real.pi).isFinite hinfinite rfl h
  · obtain rfl := Except.ok.inj h
    exact hfinite

/-- A number with a logarithm has no NaN part, and the imaginary part of the logarithm is not infinite. -/
theorem not_hasNaN_of_lnParts (h : z.lnParts = .ok l) : (Number.scalar z).hasNaN = false ∧ l.im.isInfinite = false := by
  unfold lnParts at h
  split at h
  · cases h
  obtain ⟨r, hr, h⟩ := bind_eq_ok.1 h
  obtain ⟨re, -, h⟩ := bind_eq_ok.1 h
  obtain ⟨t, ht, h⟩ := bind_eq_ok.1 h
  obtain rfl := Except.ok.inj h
  refine ⟨?_, ?_⟩
  · obtain ⟨n, hn, -⟩ := bind_eq_ok.1 hr
    rw [norm_eq] at hn
    obtain ⟨hre, him, -⟩ := isNaN_of_ofProducts combines_add hn
    -- NaN is no infinity that could settle its own square
    have hself : ∀ x : Real, x.isNaN = true → MeetsNaN x x := fun x hx => .inl ⟨hx, by cases x <;> first | rfl | cases hx⟩
    rw [Bool.eq_false_iff, Ne, hasNaN_iff]
    rintro (hnan | hnan)
    · exact hre (hself _ hnan)
    · exact him (hself _ hnan)
  · unfold collapse
    split
    · rfl
    · exact ((isFinite_iff t).1 (isFinite_of_argument ht)).2

/-- A product with a logarithm does not lose NaN. -/
theorem not_hasNaN_of_mulParts (him : l.im.isInfinite = false) (h : w.mulParts l = .ok v) :
    (Number.scalar w).hasNaN = false := by
  rw [mulParts_eq] at h
  obtain ⟨re, hre, h⟩ := bind_eq_ok.1 h
  obtain ⟨im, him', -⟩ := bind_eq_ok.1 h
  rw [Bool.eq_false_iff, Ne, hasNaN_iff]
  rintro (hnan | hnan)
  · exact (isNaN_of_ofProducts combines_add him').1 (.inl ⟨hnan, him⟩)
  · exact (isNaN_of_ofProducts combines_sub hre).2.1 (.inl ⟨hnan, him⟩)

theorem refused_powParts_iff (h : (Number.scalar z).hasNaN = true ∨ (Number.scalar w).hasNaN = true) : Refused (z.powParts w) ↔
    z.isZero = false ∧ (Refused z.lnParts ∨ ∃ l, z.lnParts = .ok l ∧ ProductMeetsNaN w l) := by
  unfold powParts
  cases hzero : z.isZero with
  | true => exact iff_of_false (not_refused_ok _) fun h => nomatch h.1
  | false =>
    rw [if_neg Bool.false_ne_true, and_iff_right rfl, refused_bind_iff]
    refine or_congr_right (exists_congr fun l => and_congr_right fun hl => ?_)
    rw [refused_bind_of_not_refused fun v hv => ?_, refused_mulParts_iff]
    -- there is no product that an exponential could be refused of
    obtain ⟨hz, him⟩ := not_hasNaN_of_lnParts hl
    have hw := not_hasNaN_of_mulParts him hv
    rw [hz, hw, or_self] at h
    cases h

/-! ## Operations on all numbers -/

/-- Real numbers other than NaN do not meet it in any operation on their parts. -/
theorem not_meetNaN_of_real {x y : Real} (hx : x.isNaN = false) (hy : y.isNaN = false) :
    (∀ op, ¬ PartsMeetNaN op (real x) (real y)) ∧ ¬ ProductMeetsNaN (real x) (real y) ∧
      ¬ QuotientMeetsNaN (real x) (real y) := by
  refine ⟨?_, ?_, ?_⟩
  · rintro op (h | ⟨-, h⟩)
    · exact not_meetsNaN hx hy h
    · exact not_meetsNaN rfl rfl h
  · rintro (h | ⟨-, h⟩)
    · exact not_productsMeetNaN hx rfl hy rfl h
    · exact not_productsMeetNaN hx rfl rfl hy h
  · rintro (h | ⟨n, -, -, h | ⟨-, h⟩⟩)
    · exact not_productsMeetNaN hy rfl hy rfl h
    · exact not_productsMeetNaN hx rfl hy rfl h
    · exact not_productsMeetNaN rfl hx hy rfl h

/-- An operation that refuses of the real numbers only NaN, and the others in the way that `p` says. -/
theorem refused_binary_iff {f : Real → Real → Outcome Real} {g : Scalar → Scalar → Outcome Scalar}
    {p : Scalar → Scalar → Prop} (hf : ∀ x y, x.isNaN = false → y.isNaN = false → ¬ Refused (f x y))
    (hreal : ∀ x y, x.isNaN = false → y.isNaN = false → ¬ p (real x) (real y))
    (hcomplex : ∀ z w, z.isComplex = true ∨ w.isComplex = true → (Refused (g z w) ↔ p z w)) :
    Refused (binary f g z w) ↔ z.isNaN = true ∨ w.isNaN = true ∨ p z w := by
  cases hz : z.isNaN with
  | true =>
    rw [binary_of_isNaN_left hz, refused_fail_iff]
    exact iff_of_true rfl (.inl rfl)
  | false =>
    rw [or_iff_right Bool.false_ne_true]
    cases hw : w.isNaN with
    | true =>
      rw [binary_of_isNaN_right hz hw, refused_fail_iff]
      exact iff_of_true rfl (.inl rfl)
    | false =>
      rw [or_iff_right Bool.false_ne_true]
      by_cases hkind : z.isComplex = true ∨ w.isComplex = true
      · rw [binary_complex hz hw hkind, hcomplex z w hkind]
      · cases z with
        | complex => exact (hkind (.inl rfl)).elim
        | real x =>
          cases w with
          | complex => exact (hkind (.inr rfl)).elim
          | real y =>
            rw [binary_real hz hw, refused_map_iff]
            exact iff_of_false (hf x y hz hw) (hreal x y hz hw)

theorem refused_power_iff (h : (Number.scalar z).hasNaN = true ∨ (Number.scalar w).hasNaN = true) :
    Refused (z.power w) ↔ z.isNaN = true ∨ w.isNaN = true ∨ PowerMeetsNaN z w := by
  unfold power refuseNaN
  cases hz : z.isNaN with
  | true => exact iff_of_true ⟨.nanOperand, rfl, rfl⟩ (.inl rfl)
  | false =>
    cases hw : w.isNaN with
    | true => exact iff_of_true ⟨.nanOperand, rfl, rfl⟩ (.inr (.inl rfl))
    | false =>
      rw [or_iff_right Bool.false_ne_true, or_iff_right Bool.false_ne_true]
      show Refused (if w.isZero = true then _ else _) ↔ _
      cases hzero : w.isZero with
      | true => exact iff_of_false (not_refused_ok _) fun h => Bool.false_ne_true (h.1.symm.trans hzero)
      | false =>
        rw [if_neg Bool.false_ne_true, PowerMeetsNaN, hzero, and_iff_right rfl]
        split
        · -- a real number with a NaN part is NaN itself
          rcases h with hnan | hnan
          · exact (Bool.false_ne_true (hz.symm.trans hnan)).elim
          · exact (Bool.false_ne_true (hw.symm.trans hnan)).elim
        · exact refused_powParts_iff h

end Scalar

/-! ## Numbers -/

namespace Number

open Scalar Reckon.Real

/-- Which operations on real and complex numbers are refused because of NaN. NaN itself is refused by all of
them. A NaN part is refused where a real operation on the parts meets it, which it does not next to an
infinity, after a part that fails, or in a power with a zero base or a zero exponent. -/
theorem refusals_of_nan (z w : Scalar) :
    (Refused ((scalar z).add (scalar w)) ↔ z.isNaN = true ∨ w.isNaN = true ∨ PartsMeetNaN Real.add z w) ∧
    (Refused ((scalar z).sub (scalar w)) ↔ z.isNaN = true ∨ w.isNaN = true ∨ PartsMeetNaN Real.sub z w) ∧
    (Refused ((scalar z).mul (scalar w)) ↔ z.isNaN = true ∨ w.isNaN = true ∨ ProductMeetsNaN z w) ∧
    (Refused ((scalar z).div (scalar w)) ↔ z.isNaN = true ∨ w.isNaN = true ∨ QuotientMeetsNaN z w) ∧
    (Refused ((scalar z).mod (scalar w)) ↔
      z.isNaN = true ∨ w.isNaN = true ∨ z.isComplex = true ∨ w.isComplex = true) ∧
    ((scalar z).hasNaN = true ∨ (scalar w).hasNaN = true → (Refused ((scalar z).power (scalar w)) ↔
      z.isNaN = true ∨ w.isNaN = true ∨ PowerMeetsNaN z w)) := by
  refine ⟨refused_map_iff.trans ?_, refused_map_iff.trans ?_, refused_map_iff.trans ?_, refused_map_iff.trans ?_,
    refused_map_iff.trans ?_, fun h => refused_map_iff.trans (refused_power_iff h)⟩
  · exact refused_binary_iff (fun x y => (combines_add x y).not_refused)
      (fun x y hx hy => (not_meetNaN_of_real hx hy).1 _) fun z w _ => refused_addParts_iff z w
  · exact refused_binary_iff (fun x y => (combines_sub x y).not_refused)
      (fun x y hx hy => (not_meetNaN_of_real hx hy).1 _) fun z w _ => refused_subParts_iff z w
  · exact refused_binary_iff (fun x y => (combines_mul x y).not_refused)
      (fun x y hx hy => (not_meetNaN_of_real hx hy).2.1) fun z w _ => refused_mulParts_iff z w
  · exact refused_binary_iff (fun _ _ => not_refused_div)
      (fun x y hx hy => (not_meetNaN_of_real hx hy).2.2) fun z w _ => refused_divParts_iff z w
  · exact refused_binary_iff (p := fun z w => z.isComplex = true ∨ w.isComplex = true) (fun _ _ => not_refused_mod)
      (fun x y _ _ => by rintro (h | h) <;> cases h) fun z w h => iff_of_true ⟨.complexModulo, rfl, rfl⟩ h

/-- The square of a complex number with a NaN part is refused. -/
theorem refused_square_of_nan_part : (scalar (.complex .nan .one)).hasNaN = true ∧
    Refused (power (.scalar (.complex .nan .one)) (.ofReal (.ofInt 2))) :=
  ⟨rfl, ((refusals_of_nan (.complex .nan .one) (.real (.ofInt 2))).2.2.2.2.2 (.inl rfl)).2
    (.inr (.inr ⟨rfl, rfl, .inl ⟨.noDecimal .nan, rfl, rfl⟩⟩))⟩

/-- A NaN part disappears in a sum with an infinity, and in a power with exponent or base zero. A quotient by
zero and a product with infinities fail for other reasons. -/
theorem nan_part_disappears :
    add (.scalar (.complex .nan .one)) (.ofReal (.infinite false)) = .ok (.scalar (.complex (.infinite false) .one)) ∧
    power (.scalar (.complex .nan .one)) (.ofReal .zero) = .ok (.ofReal .one) ∧
    power (.ofReal .zero) (.scalar (.complex .nan .one)) = .ok (.ofReal .zero) ∧
    div (.scalar (.complex .nan .one)) (.ofReal .zero) = fail .divisionByZero ∧
    mul (.scalar (.complex .nan .one)) (.scalar (.complex (.infinite false) (.infinite false))) =
      fail .oppositeInfinities :=
  ⟨by decide +kernel, by decide +kernel, by decide +kernel, by decide +kernel, by decide +kernel⟩

end Number

end Reckon
