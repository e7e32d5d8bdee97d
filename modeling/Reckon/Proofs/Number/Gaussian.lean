/-
Complex arithmetic on stored decimals computes with Gaussian rationals. Sums, differences and products are
exact, quotients have the parts of the exact quotient, and a result is real if its imaginary part is zero, or
so small that none of its stored digits shows it. Every intermediate term has to be a decimal in range.
-/
import Reckon.Proofs.Number.Equality
import Reckon.Proofs.Number.Parts
import Reckon.Proofs.Real.Terms
import Reckon.Proofs.Real.Vanishing

namespace Reckon

open Outcome Reckon.Expansion Reckon.Real

/-! ## Gaussian rationals -/

/-- A complex number with rational parts. -/
abbrev GaussianRat := QuadraticAlgebra ℚ (-1) 0

namespace GaussianRat

instance : Fact (∀ r : ℚ, r ^ 2 ≠ -1 + 0 * r) := ⟨fun r h => by nlinarith [sq_nonneg r]⟩

theorem re_mul (u v : GaussianRat) : (u * v).re = u.re * v.re - u.im * v.im := by
  rw [QuadraticAlgebra.re_mul]
  ring

theorem im_mul (u v : GaussianRat) : (u * v).im = u.re * v.im + u.im * v.re := by
  rw [QuadraticAlgebra.im_mul]
  ring

/-- The square of the modulus. -/
def normSq (u : GaussianRat) : ℚ := u.re * u.re + u.im * u.im

theorem normSq_eq (u : GaussianRat) : u.normSq = QuadraticAlgebra.norm u := by
  rw [normSq, QuadraticAlgebra.norm_def]
  ring

theorem normSq_eq_zero_iff (u : GaussianRat) : u.normSq = 0 ↔ u = 0 := by
  rw [normSq_eq, QuadraticAlgebra.norm_eq_zero_iff_eq_zero]

theorem re_div (u v : GaussianRat) : (u / v).re = (u.re * v.re + u.im * v.im) / v.normSq := by
  rw [div_eq_mul_inv, re_mul, normSq_eq, QuadraticAlgebra.re_inv, QuadraticAlgebra.im_inv]
  ring

theorem im_div (u v : GaussianRat) : (u / v).im = (u.im * v.re - u.re * v.im) / v.normSq := by
  rw [div_eq_mul_inv, im_mul, normSq_eq, QuadraticAlgebra.re_inv, QuadraticAlgebra.im_inv]
  ring

theorem mul_star (u : GaussianRat) : u * star u = ⟨u.normSq, 0⟩ := by
  ext
  · rw [re_mul, QuadraticAlgebra.re_star, QuadraticAlgebra.im_star, normSq]
    ring
  · rw [im_mul, QuadraticAlgebra.re_star, QuadraticAlgebra.im_star]
    ring

/-- Both parts have finitely many places. -/
def Terminates (u : GaussianRat) : Prop := Expansion.Terminates u.re ∧ Expansion.Terminates u.im

/-- Both parts are decimals in range. -/
def Representable (u : GaussianRat) : Prop := Real.Representable u.re ∧ Real.Representable u.im

section

variable {u v : GaussianRat}

theorem Terminates.add (hu : u.Terminates) (hv : v.Terminates) : (u + v).Terminates :=
  ⟨terminates_add hu.1 hv.1, terminates_add hu.2 hv.2⟩

theorem Terminates.sub (hu : u.Terminates) (hv : v.Terminates) : (u - v).Terminates :=
  ⟨terminates_sub hu.1 hv.1, terminates_sub hu.2 hv.2⟩

theorem Terminates.mul (hu : u.Terminates) (hv : v.Terminates) : (u * v).Terminates := by
  rw [Terminates, re_mul, im_mul]
  exact ⟨terminates_sub (terminates_mul hu.1 hv.1) (terminates_mul hu.2 hv.2),
    terminates_add (terminates_mul hu.1 hv.2) (terminates_mul hu.2 hv.1)⟩

end

/-- The terms of a product before its imaginary part. -/
def productTerms (u v : GaussianRat) : List ℚ :=
  [u.re * v.re, u.im * v.im, u.re * v.re - u.im * v.im, u.re * v.im, u.im * v.re]

/-- The terms of a quotient before its parts: the square of the modulus of the divisor and the numerators. -/
def quotientTerms (u v : GaussianRat) : List ℚ :=
  [v.re * v.re, v.im * v.im, v.normSq, u.re * v.re, u.im * v.im, u.re * v.re + u.im * v.im,
    u.im * v.re, u.re * v.im, u.im * v.re - u.re * v.im]

end GaussianRat

namespace Scalar

open GaussianRat

/-! ## Exact numbers -/

/-- The number stores decimals, and they are the parts of the Gaussian rational. -/
structure HasGaussian (z : Scalar) (u : GaussianRat) : Prop where
  re : HasDecimal z.re u.re
  im : HasDecimal z.im u.im

/-- The number with the parts of a Gaussian rational. -/
def ofGaussian (u : GaussianRat) : Outcome Scalar := do
  let re ← ofRat u.re
  let im ← ofRat u.im
  .ok (collapse re im)

variable {z w : Scalar} {u v : GaussianRat}

theorem HasGaussian.terminates (h : HasGaussian z u) : u.Terminates := ⟨h.re.terminates, h.im.terminates⟩

theorem HasGaussian.isNaN (h : HasGaussian z u) : z.isNaN = false := by
  cases z with
  | real x => exact isNaN_of_exactRat? h.re.exactRat?
  | complex => rfl

theorem HasGaussian.im_eq_zero {x : Real} (h : HasGaussian (real x) u) : u.im = 0 :=
  Option.some.inj (h.im.exactRat?.symm.trans (show Real.zero.exactRat? = some 0 from rfl))

theorem ofGaussian_of_im_eq_zero (h : u.im = 0) : ofGaussian u = (ofRat u.re).map real := by
  rw [ofGaussian, h, ofRat_zero]
  cases ofRat u.re <;> rfl

/-- A number is made of its parts again; it is real exactly if the imaginary part is zero. -/
theorem hasGaussian_collapse {re im : Real} (hre : HasDecimal re u.re) (him : HasDecimal im u.im) :
    HasGaussian (collapse re im) u := by
  unfold collapse
  split
  · rename_i hzero
    refine ⟨hre, ?_⟩
    rw [(StandsFor.decimal him).isZero_iff.1 hzero]
    exact HasDecimal.big .zero
  · exact ⟨hre, him⟩

theorem exists_ofGaussian (hu : u.Terminates) (hr : u.Representable) : ∃ z, ofGaussian u = .ok z ∧ HasGaussian z u := by
  obtain ⟨d, hd, hval, -⟩ := ofRat_of_representable hu.1 hr.1
  obtain ⟨e, he, hval', -⟩ := ofRat_of_representable hu.2 hr.2
  refine ⟨collapse (.big d) (.big e), by rw [ofGaussian, hd, he, ok_bind, ok_bind], ?_⟩
  exact hasGaussian_collapse (hval ▸ .big d) (hval' ▸ .big e)

theorem HasGaussian.neg (h : HasGaussian z u) : HasGaussian z.neg (-u) := by
  cases z with
  | real x =>
    refine ⟨h.re.neg, ?_⟩
    have him := h.im_eq_zero
    rw [QuadraticAlgebra.im_neg, him, neg_zero]
    exact HasDecimal.big .zero
  | complex re im => exact ⟨h.re.neg, h.im.neg⟩

theorem HasGaussian.conj (h : HasGaussian z u) : HasGaussian z.conj (star u) := by
  have hre : (star u).re = u.re := by rw [QuadraticAlgebra.re_star, zero_mul, add_zero]
  cases z with
  | real x =>
    refine ⟨hre ▸ h.re, ?_⟩
    rw [QuadraticAlgebra.im_star, h.im_eq_zero, neg_zero]
    exact HasDecimal.big .zero
  | complex re im => exact ⟨hre ▸ h.re, h.im.neg⟩

/-! ## Two products -/

section

variable {a b c d : Real} {p q r s : ℚ}

theorem ofProducts_of_hasDecimal {op : Real → Real → Outcome Real} {exact : ℚ → ℚ → ℚ}
    (hop : ∀ {x y p q}, x.exactRat? = some p → y.exactRat? = some q → op x y = ofRat (exact p q))
    (ha : HasDecimal a p) (hb : HasDecimal b q) (hc : HasDecimal c r) (hd : HasDecimal d s) :
    (do op (← a.mul c) (← b.mul d)) = via [p * r, q * s] (ofRat (exact (p * r) (q * s))) := by
  rw [mul_of_exactRat? ha.exactRat? hc.exactRat?, mul_of_exactRat? hb.exactRat? hd.exactRat?]
  refine ofRat_bind_eq_via fun x hx => ofRat_bind_eq_via fun y hy => ?_
  have hx := hasDecimal_of_ofRat (terminates_mul ha.terminates hc.terminates) hx
  have hy := hasDecimal_of_ofRat (terminates_mul hb.terminates hd.terminates) hy
  exact hop hx.exactRat? hy.exactRat?

theorem sumOfProducts_of_hasDecimal (ha : HasDecimal a p) (hb : HasDecimal b q) (hc : HasDecimal c r)
    (hd : HasDecimal d s) : sumOfProducts a c b d = via [p * r, q * s] (ofRat (p * r + q * s)) :=
  ofProducts_of_hasDecimal add_of_exactRat? ha hb hc hd

theorem differenceOfProducts_of_hasDecimal (ha : HasDecimal a p) (hb : HasDecimal b q) (hc : HasDecimal c r)
    (hd : HasDecimal d s) : differenceOfProducts a c b d = via [p * r, q * s] (ofRat (p * r - q * s)) :=
  ofProducts_of_hasDecimal sub_of_exactRat? ha hb hc hd

end

/-! ## Complex arithmetic -/

theorem addParts_of_gaussian (hz : HasGaussian z u) (hw : HasGaussian w v) : z.addParts w = ofGaussian (u + v) := by
  rw [addParts_eq, add_of_exactRat? hz.re.exactRat? hw.re.exactRat?, add_of_exactRat? hz.im.exactRat? hw.im.exactRat?]
  rfl

theorem subParts_of_gaussian (hz : HasGaussian z u) (hw : HasGaussian w v) : z.subParts w = ofGaussian (u - v) := by
  rw [subParts_eq, sub_of_exactRat? hz.re.exactRat? hw.re.exactRat?, sub_of_exactRat? hz.im.exactRat? hw.im.exactRat?]
  rfl

theorem mulParts_of_gaussian (hz : HasGaussian z u) (hw : HasGaussian w v) :
    z.mulParts w = via (productTerms u v) (ofGaussian (u * v)) := by
  have him : ∀ x, ofRat (u.re * v.re - u.im * v.im) = .ok x →
      (via [u.re * v.im, u.im * v.re] (ofRat (u.re * v.im + u.im * v.re)) >>= fun y => .ok (collapse x y)) =
        via [u.re * v.im, u.im * v.re] (ofGaussian (u * v)) := fun x hx => by
    rw [via_bind, ofGaussian, re_mul, im_mul, hx, ok_bind]
  rw [mulParts_eq, differenceOfProducts_of_hasDecimal hz.re hz.im hw.re hw.im,
    sumOfProducts_of_hasDecimal hz.re hz.im hw.im hw.re, via_bind, ofRat_bind_eq_via him, ← via_append, ← via_append]
  rfl

theorem norm_of_gaussian (hw : HasGaussian w v) : w.norm = via [v.re * v.re, v.im * v.im] (ofRat v.normSq) := by
  rw [norm_eq, sumOfProducts_of_hasDecimal hw.re hw.im hw.re hw.im]
  rfl

theorem normSq_terminates (hv : v.Terminates) : Expansion.Terminates v.normSq :=
  terminates_add (terminates_mul hv.1 hv.1) (terminates_mul hv.2 hv.2)

theorem quotientParts_of_gaussian {n : Real} (hz : HasGaussian z u) (hw : HasGaussian w v) (hn : HasDecimal n v.normSq)
    (hzero : n.isZero = false) : quotientParts z w n =
      via [u.re * v.re, u.im * v.im, u.re * v.re + u.im * v.im, u.im * v.re, u.re * v.im, u.im * v.re - u.re * v.im]
        (ofGaussian (u / v)) := by
  have hu := hz.terminates
  have hv := hw.terminates
  have hparts : ∀ x, ofRat (u.re * v.re + u.im * v.im) = .ok x → ∀ y, ofRat (u.im * v.re - u.re * v.im) = .ok y →
      (do
        let re ← x.div n
        let im ← y.div n
        .ok (collapse re im)) = ofGaussian (u / v) := fun x hx y hy => by
    have hx := hasDecimal_of_ofRat (terminates_add (terminates_mul hu.1 hv.1) (terminates_mul hu.2 hv.2)) hx
    have hy := hasDecimal_of_ofRat (terminates_sub (terminates_mul hu.2 hv.1) (terminates_mul hu.1 hv.2)) hy
    rw [div_of_exactRat? hx.exactRat? hn.exactRat? hzero, div_of_exactRat? hy.exactRat? hn.exactRat? hzero, ofGaussian,
      re_div, im_div]
  unfold quotientParts
  rw [sumOfProducts_of_hasDecimal hz.re hz.im hw.re hw.im, differenceOfProducts_of_hasDecimal hz.im hz.re hw.re hw.im,
    via_bind]
  -- each product and sum is formed before the next one, so what fails first is fixed
  have hnumerators : ∀ x, ofRat (u.re * v.re + u.im * v.im) = .ok x →
      (via [u.im * v.re, u.re * v.im] (ofRat (u.im * v.re - u.re * v.im)) >>= fun y => do
        let re ← x.div n
        let im ← y.div n
        .ok (collapse re im)) =
      via [u.im * v.re, u.re * v.im, u.im * v.re - u.re * v.im] (ofGaussian (u / v)) := fun x hx => by
    rw [via_bind, ofRat_bind_eq_via (hparts x hx), ← via_append]
    rfl
  rw [ofRat_bind_eq_via hnumerators, ← via_append, ← via_append]
  rfl

theorem divParts_of_gaussian (hz : HasGaussian z u) (hw : HasGaussian w v) (hv : v ≠ 0) :
    z.divParts w = via (quotientTerms u v) (ofGaussian (u / v)) := by
  have hquotient : ∀ n, ofRat v.normSq = .ok n →
      (if n.isZero then fail .divisionByZero else quotientParts z w n) = via
        [u.re * v.re, u.im * v.im, u.re * v.re + u.im * v.im, u.im * v.re, u.re * v.im, u.im * v.re - u.re * v.im]
        (ofGaussian (u / v)) := fun n hn => by
    have hn := hasDecimal_of_ofRat (normSq_terminates hw.terminates) hn
    have hzero : n.isZero = false := Bool.eq_false_iff.2 fun h =>
      hv ((normSq_eq_zero_iff v).1 ((StandsFor.decimal hn).isZero_iff.1 h))
    rw [hzero, if_neg Bool.false_ne_true, quotientParts_of_gaussian hz hw hn hzero]
  rw [divParts_eq, norm_of_gaussian hw, via_bind, ofRat_bind_eq_via hquotient, ← via_append, ← via_append]
  rfl

theorem divParts_of_zero (hw : HasGaussian w 0) : z.divParts w = fail .divisionByZero := by
  have hnorm : normSq 0 = 0 := (normSq_eq_zero_iff 0).2 rfl
  rw [divParts_eq, norm_of_gaussian hw, hnorm, QuadraticAlgebra.re_zero, QuadraticAlgebra.im_zero, mul_zero, via, via, via,
    ofRat_zero]
  rfl

/-! ## Operations on scalars -/

theorem binary_of_gaussian {f : Real → Real → Outcome Real} {g : Scalar → Scalar → Outcome Scalar} {r : Outcome Scalar}
    (hz : HasGaussian z u) (hw : HasGaussian w v) (hreal : ∀ x y, z = real x → w = real y → (f x y).map real = r)
    (hcomplex : g z w = r) : binary f g z w = r := by
  by_cases h : z.isComplex = true ∨ w.isComplex = true
  · rw [binary_complex hz.isNaN hw.isNaN h, hcomplex]
  · cases z with
    | complex => exact (h (.inl rfl)).elim
    | real x =>
      cases w with
      | complex => exact (h (.inr rfl)).elim
      | real y => rw [binary_real hz.isNaN hw.isNaN, hreal x y rfl rfl]

theorem add_of_gaussian (hz : HasGaussian z u) (hw : HasGaussian w v) : z.add w = ofGaussian (u + v) := by
  refine binary_of_gaussian hz hw ?_ (addParts_of_gaussian hz hw)
  rintro x y rfl rfl
  have him : (u + v).im = 0 := by rw [QuadraticAlgebra.im_add, hz.im_eq_zero, hw.im_eq_zero, add_zero]
  rw [ofGaussian_of_im_eq_zero him]
  exact congrArg (Except.map real) (add_of_exactRat? hz.re.exactRat? hw.re.exactRat?)

theorem sub_of_gaussian (hz : HasGaussian z u) (hw : HasGaussian w v) : z.sub w = ofGaussian (u - v) := by
  refine binary_of_gaussian hz hw ?_ (subParts_of_gaussian hz hw)
  rintro x y rfl rfl
  have him : (u - v).im = 0 := by rw [QuadraticAlgebra.im_sub, hz.im_eq_zero, hw.im_eq_zero, sub_zero]
  rw [ofGaussian_of_im_eq_zero him]
  exact congrArg (Except.map real) (sub_of_exactRat? hz.re.exactRat? hw.re.exactRat?)

theorem mul_of_gaussian (hz : HasGaussian z u) (hw : HasGaussian w v) :
    z.mul w = via (productTerms u v) (ofGaussian (u * v)) := by
  refine binary_of_gaussian hz hw ?_ (mulParts_of_gaussian hz hw)
  rintro x y rfl rfl
  have hu := hz.im_eq_zero
  have hv := hw.im_eq_zero
  have him : (u * v).im = 0 := by rw [im_mul, hu, hv, mul_zero, zero_mul, add_zero]
  -- apart from the product itself all terms are zero
  have hmul : x.mul y = ofRat (u.re * v.re) := mul_of_exactRat? hz.re.exactRat? hw.re.exactRat?
  rw [ofGaussian_of_im_eq_zero him, hmul, re_mul, productTerms, hu, hv]
  simp only [mul_zero, zero_mul, sub_zero, via, ofRat_zero, ok_bind]
  cases ofRat (u.re * v.re) <;> rfl

theorem div_of_gaussian (hz : HasGaussian z u) (hw : HasGaussian w v) (h : z.isComplex = true ∨ w.isComplex = true)
    (hv : v ≠ 0) : z.div w = via (quotientTerms u v) (ofGaussian (u / v)) :=
  (binary_complex hz.isNaN hw.isNaN h).trans (divParts_of_gaussian hz hw hv)

theorem div_of_gaussian_zero (hz : HasGaussian z u) (hw : HasGaussian w v)
    (h : z.isComplex = true ∨ w.isComplex = true) (hv : v = 0) : z.div w = fail .divisionByZero :=
  (binary_complex hz.isNaN hw.isNaN h).trans (divParts_of_zero (hv ▸ hw))

theorem productTerms_terminate (hu : u.Terminates) (hv : v.Terminates) :
    ∀ q ∈ productTerms u v, Expansion.Terminates q := by
  have hreal := terminates_mul hu.1 hv.1
  have himaginary := terminates_mul hu.2 hv.2
  simp only [productTerms, List.forall_mem_cons]
  exact ⟨hreal, himaginary, terminates_sub hreal himaginary, terminates_mul hu.1 hv.2, terminates_mul hu.2 hv.1,
    fun _ h => nomatch h⟩

theorem quotientTerms_terminate (hu : u.Terminates) (hv : v.Terminates) :
    ∀ q ∈ quotientTerms u v, Expansion.Terminates q := by
  have hreal := terminates_mul hu.1 hv.1
  have himaginary := terminates_mul hu.2 hv.2
  have hmixed := terminates_mul hu.2 hv.1
  have hmixed' := terminates_mul hu.1 hv.2
  simp only [quotientTerms, List.forall_mem_cons]
  exact ⟨terminates_mul hv.1 hv.1, terminates_mul hv.2 hv.2, normSq_terminates hv, hreal, himaginary,
    terminates_add hreal himaginary, hmixed, hmixed', terminates_sub hmixed hmixed', fun _ h => nomatch h⟩

end Scalar

/-! ## Numbers -/

namespace Number

open GaussianRat Scalar

/-- The number with the parts of a Gaussian rational. -/
def gaussian (u : GaussianRat) : Outcome Number := (ofGaussian u).map .scalar

/-- The imaginary part is dropped if it is zero, or so small that it is stored as zero. -/
theorem gaussian_eq {u : GaussianRat} {re im : Real} (hre : ofRat u.re = .ok re) (him : ofRat u.im = .ok im) :
    (Vanishes u.im → gaussian u = .ok (.ofReal re)) ∧ (¬ Vanishes u.im → gaussian u = .ok (.scalar (.complex re im))) := by
  have hparts : gaussian u = .ok (.scalar (collapse re im)) := by rw [gaussian, ofGaussian, hre, him]; rfl
  rw [hparts, collapse, ← isZero_iff_vanishes him]
  exact ⟨fun h => by rw [if_pos h]; rfl, fun h => by rw [if_neg h]⟩

/-- The result has the parts of the Gaussian rational as exact decimals without trailing zeros, and it is
complex exactly if the imaginary part is not zero; it fails only if no decimals in range are the parts. -/
structure GivesGaussian (result : Outcome Number) (u : GaussianRat) : Prop where
  ok : u.Representable → ∃ d e, d.toRat = u.re ∧ e.toRat = u.im ∧ (d.exponent < 0 → ¬ 10 ∣ d.coefficient) ∧
    (e.exponent < 0 → ¬ 10 ∣ e.coefficient) ∧
    result = .ok (if u.im = 0 then .ofReal (.big d) else .scalar (.complex (.big d) (.big e)))
  error : ¬ u.Representable → ∃ e, result = .error e ∧ e.isRange = true

theorem givesGaussian {u : GaussianRat} (hu : u.Terminates) : GivesGaussian (gaussian u) u where
  ok hr := by
    obtain ⟨d, hd, hval, -, hzeros⟩ := ofRat_of_representable hu.1 hr.1
    obtain ⟨e, he, hval', -, hzeros'⟩ := ofRat_of_representable hu.2 hr.2
    refine ⟨d, e, hval, hval', hzeros, hzeros', ?_⟩
    have hvanishes : Vanishes u.im ↔ u.im = 0 := or_iff_left fun h => h.1 hu.2
    obtain ⟨hreal, hcomplex⟩ := gaussian_eq hd he
    rw [hvanishes] at hreal hcomplex
    split
    · exact hreal ‹_›
    · exact hcomplex ‹_›
  error hr := by
    by_cases hre : Real.Representable u.re
    · obtain ⟨d, hd, -⟩ := ofRat_of_representable hu.1 hre
      obtain ⟨e, he, hrange⟩ := ofRat_of_not_representable hu.2 fun him => hr ⟨hre, him⟩
      exact ⟨e, by rw [gaussian, ofGaussian, hd, he]; rfl, hrange⟩
    · obtain ⟨e, he, hrange⟩ := ofRat_of_not_representable hu.1 hre
      exact ⟨e, by rw [gaussian, ofGaussian, he]; rfl, hrange⟩

/-- The operations compute with the Gaussian rationals, if the terms on the way are decimals in range; else
they fail for that reason. There is no quotient by zero. -/
structure ComputesGaussian (z w : Scalar) (u v : GaussianRat) : Prop where
  add : GivesGaussian ((scalar z).add (scalar w)) (u + v)
  sub : GivesGaussian ((scalar z).sub (scalar w)) (u - v)
  mul : (∀ q ∈ productTerms u v, Real.Representable q) → GivesGaussian ((scalar z).mul (scalar w)) (u * v)
  mul_range : ¬ (∀ q ∈ productTerms u v, Real.Representable q) →
    ∃ e, (scalar z).mul (scalar w) = .error e ∧ e.isRange = true
  mul_conj : (∀ q ∈ productTerms u (star u), Real.Representable q) →
    (scalar z).mul (scalar z).conj = Real.rational (u.re ^ 2 + u.im ^ 2)
  div : z.isComplex = true ∨ w.isComplex = true → v ≠ 0 → (∀ q ∈ quotientTerms u v, Real.Representable q) →
    (scalar z).div (scalar w) = gaussian (u / v)
  div_range : z.isComplex = true ∨ w.isComplex = true → v ≠ 0 → ¬ (∀ q ∈ quotientTerms u v, Real.Representable q) →
    ∃ e, (scalar z).div (scalar w) = .error e ∧ e.isRange = true
  div_zero : z.isComplex = true ∨ w.isComplex = true → v = 0 → (scalar z).div (scalar w) = fail .divisionByZero

section

variable {x y z : Scalar} {u v w : GaussianRat}

theorem mul_of_gaussian (hx : HasGaussian x u) (hy : HasGaussian y v) :
    (scalar x).mul (scalar y) = via (productTerms u v) (gaussian (u * v)) :=
  (congrArg (Except.map scalar) (Scalar.mul_of_gaussian hx hy)).trans (via_map _ _ _)

theorem mul_of_representable (hx : HasGaussian x u) (hy : HasGaussian y v)
    (hr : ∀ q ∈ productTerms u v, Real.Representable q) : (scalar x).mul (scalar y) = gaussian (u * v) := by
  rw [mul_of_gaussian hx hy, via_of_representable (productTerms_terminate hx.terminates hy.terminates) hr]

theorem div_of_gaussian (hx : HasGaussian x u) (hy : HasGaussian y v) (h : x.isComplex = true ∨ y.isComplex = true)
    (hv : v ≠ 0) : (scalar x).div (scalar y) = via (quotientTerms u v) (gaussian (u / v)) :=
  (congrArg (Except.map scalar) (Scalar.div_of_gaussian hx hy h hv)).trans (via_map _ _ _)

theorem computesGaussian (hx : HasGaussian x u) (hy : HasGaussian y v) : ComputesGaussian x y u v where
  add := by
    rw [show (scalar x).add (scalar y) = gaussian (u + v) from congrArg (Except.map scalar) (add_of_gaussian hx hy)]
    exact givesGaussian (hx.terminates.add hy.terminates)
  sub := by
    rw [show (scalar x).sub (scalar y) = gaussian (u - v) from congrArg (Except.map scalar) (sub_of_gaussian hx hy)]
    exact givesGaussian (hx.terminates.sub hy.terminates)
  mul hr := by
    rw [mul_of_representable hx hy hr]
    exact givesGaussian (hx.terminates.mul hy.terminates)
  mul_range hr := by
    rw [mul_of_gaussian hx hy]
    exact via_of_not_representable (productTerms_terminate hx.terminates hy.terminates) hr
  mul_conj hr := by
    have hsquare : u.re ^ 2 + u.im ^ 2 = u.normSq := by rw [normSq, pow_two, pow_two]
    rw [show (scalar x).conj = scalar x.conj from rfl, mul_of_representable hx hx.conj hr, mul_star, hsquare, gaussian,
      ofGaussian_of_im_eq_zero rfl, Real.rational]
    cases ofRat u.normSq <;> rfl
  div h hv hr := by
    rw [div_of_gaussian hx hy h hv, via_of_representable (quotientTerms_terminate hx.terminates hy.terminates) hr]
  div_range h hv hr := by
    rw [div_of_gaussian hx hy h hv]
    exact via_of_not_representable (quotientTerms_terminate hx.terminates hy.terminates) hr
  div_zero h hv := congrArg (Except.map scalar) (Scalar.div_of_gaussian_zero hx hy h hv)

/-! ## The laws of a ring -/

/-- Numbers with the same Gaussian rational are equal. -/
theorem sameNumber_of_gaussian (hx : HasGaussian x u) (hy : HasGaussian y u) :
    SameNumber (.ok (scalar x)) (.ok (scalar y)) := by
  have hpoint : ∀ {s : Scalar}, HasGaussian s u →
      (scalar s).hasNaN = false ∧ (scalar s).point? = some (.finite u.re, .finite u.im) := fun {s} hs => by
    have hre := isNaN_of_exactRat? hs.re.exactRat?
    have him := isNaN_of_exactRat? hs.im.exactRat?
    refine ⟨?_, ?_⟩
    · cases s with
      | real r => exact hre
      | complex r i => exact Bool.or_eq_false_iff.2 ⟨hre, him⟩
    · have hre' := place?_of_toRat? (toRat?_of_exactRat? hs.re.exactRat?)
      have him' := place?_of_toRat? (toRat?_of_exactRat? hs.im.exactRat?)
      rw [point?_eq, show (scalar s).parts = (s.re, s.im) from rfl, hre', him']
      rfl
  refine ⟨_, _, rfl, rfl, (equals_eq_ok_true_iff (hpoint hx).1 (hpoint hy).1).2 ?_⟩
  rw [(hpoint hx).2, (hpoint hy).2]

theorem exists_add (hx : HasGaussian x u) (hy : HasGaussian y v) (hr : (u + v).Representable) :
    ∃ s, (scalar x).add (scalar y) = .ok (scalar s) ∧ HasGaussian s (u + v) := by
  obtain ⟨s, hs, hsum⟩ := exists_ofGaussian (hx.terminates.add hy.terminates) hr
  exact ⟨s, congrArg (Except.map scalar) ((add_of_gaussian hx hy).trans hs), hsum⟩

/-- The product and all terms on the way to it are decimals in range. -/
def ProductRepresentable (u v : GaussianRat) : Prop :=
  (∀ q ∈ productTerms u v, Real.Representable q) ∧ (u * v).Representable

theorem exists_mul (hx : HasGaussian x u) (hy : HasGaussian y v) (hr : ProductRepresentable u v) :
    ∃ s, (scalar x).mul (scalar y) = .ok (scalar s) ∧ HasGaussian s (u * v) := by
  obtain ⟨s, hs, hproduct⟩ := exists_ofGaussian (hx.terminates.mul hy.terminates) hr.2
  exact ⟨s, by rw [mul_of_representable hx hy hr.1, gaussian, hs]; rfl, hproduct⟩

theorem productRepresentable_one (hu : u.Representable) : ProductRepresentable u 1 := by
  have hzero : Real.Representable 0 := ⟨.zero, by decide +kernel, rfl⟩
  refine ⟨?_, (mul_one u).symm ▸ hu⟩
  simp only [productTerms, List.forall_mem_cons, QuadraticAlgebra.re_one, QuadraticAlgebra.im_one, mul_one, mul_zero,
    sub_zero]
  exact ⟨hu.1, hzero, hu.1, hzero, hu.2, fun _ h => nomatch h⟩

/-- The laws of a commutative ring for three numbers with Gaussian rationals, where the results are decimals
in range. -/
structure GaussianRing (x y z : Number) (u v w : GaussianRat) : Prop where
  add_comm : (u + v).Representable → SameNumber (x.add y) (y.add x)
  add_assoc : (u + v).Representable → (v + w).Representable → (u + v + w).Representable →
    SameNumber (do Number.add (← x.add y) z) (do x.add (← y.add z))
  add_zero : u.Representable → SameNumber (x.add (.ofReal .zero)) (.ok x)
  add_neg : SameNumber (x.add x.neg) (.ok (.ofReal .zero))
  mul_comm : ProductRepresentable u v → ProductRepresentable v u → SameNumber (x.mul y) (y.mul x)
  mul_assoc : ProductRepresentable u v → ProductRepresentable v w → ProductRepresentable (u * v) w →
    ProductRepresentable u (v * w) → SameNumber (do Number.mul (← x.mul y) z) (do x.mul (← y.mul z))
  mul_one : u.Representable → SameNumber (x.mul (.ofReal .one)) (.ok x)
  mul_add : (v + w).Representable → ProductRepresentable u (v + w) → ProductRepresentable u v →
    ProductRepresentable u w → SameNumber (do x.mul (← y.add z)) (do Number.add (← x.mul y) (← x.mul z))

theorem gaussianRing (hx : HasGaussian x u) (hy : HasGaussian y v) (hz : HasGaussian z w) :
    GaussianRing (scalar x) (scalar y) (scalar z) u v w where
  add_comm hr := by
    obtain ⟨s, hs, hsum⟩ := exists_add hx hy hr
    obtain ⟨t, ht, hsum'⟩ := exists_add hy hx (add_comm u v ▸ hr)
    rw [hs, ht]
    exact sameNumber_of_gaussian hsum (add_comm u v ▸ hsum')
  add_assoc huv hvw hr := by
    obtain ⟨s, hs, hsum⟩ := exists_add hx hy huv
    obtain ⟨t, ht, hsum'⟩ := exists_add hy hz hvw
    obtain ⟨a, ha, htotal⟩ := exists_add hsum hz hr
    obtain ⟨b, hb, htotal'⟩ := exists_add hx hsum' (add_assoc u v w ▸ hr)
    rw [hs, ht, ok_bind, ok_bind, ha, hb]
    exact sameNumber_of_gaussian htotal (add_assoc u v w ▸ htotal')
  add_zero hr := by
    have hzero : HasGaussian (real .zero) 0 := ⟨.big .zero, .big .zero⟩
    obtain ⟨s, hs, hsum⟩ := exists_add hx hzero ((add_zero u).symm ▸ hr)
    rw [ofReal, hs]
    exact sameNumber_of_gaussian (add_zero u ▸ hsum) hx
  add_neg := by
    have hzero : HasGaussian (real .zero) 0 := ⟨.big .zero, .big .zero⟩
    have hrepresentable : Real.Representable 0 := ⟨.zero, by decide +kernel, rfl⟩
    obtain ⟨s, hs, hsum⟩ := exists_add hx hx.neg ((add_neg_cancel u).symm ▸ ⟨hrepresentable, hrepresentable⟩)
    rw [show (scalar x).neg = scalar x.neg from rfl, hs]
    exact sameNumber_of_gaussian (add_neg_cancel u ▸ hsum) hzero
  mul_comm huv hvu := by
    obtain ⟨s, hs, hproduct⟩ := exists_mul hx hy huv
    obtain ⟨t, ht, hproduct'⟩ := exists_mul hy hx hvu
    rw [hs, ht]
    exact sameNumber_of_gaussian hproduct (mul_comm u v ▸ hproduct')
  mul_assoc huv hvw hleft hright := by
    obtain ⟨s, hs, hproduct⟩ := exists_mul hx hy huv
    obtain ⟨t, ht, hproduct'⟩ := exists_mul hy hz hvw
    obtain ⟨a, ha, htotal⟩ := exists_mul hproduct hz hleft
    obtain ⟨b, hb, htotal'⟩ := exists_mul hx hproduct' hright
    rw [hs, ht, ok_bind, ok_bind, ha, hb]
    exact sameNumber_of_gaussian htotal (mul_assoc u v w ▸ htotal')
  mul_one hr := by
    have hone : HasGaussian (real .one) 1 := by
      refine ⟨?_, .big .zero⟩
      rw [QuadraticAlgebra.re_one, show (1 : ℚ) = Decimal.one.toRat by decide +kernel]
      exact .big .one
    obtain ⟨s, hs, hproduct⟩ := exists_mul hx hone (productRepresentable_one hr)
    rw [ofReal, hs]
    exact sameNumber_of_gaussian (mul_one u ▸ hproduct) hx
  mul_add hvw hproduct huv huw := by
    obtain ⟨s, hs, hsum⟩ := exists_add hy hz hvw
    obtain ⟨a, ha, htotal⟩ := exists_mul hx hsum hproduct
    obtain ⟨t, ht, hterm⟩ := exists_mul hx hy huv
    obtain ⟨t', ht', hterm'⟩ := exists_mul hx hz huw
    obtain ⟨b, hb, htotal'⟩ := exists_add hterm hterm' (mul_add u v w ▸ hproduct.2)
    rw [hs, ht, ht', ok_bind, ok_bind, ok_bind, ha, hb]
    exact sameNumber_of_gaussian htotal (mul_add u v w ▸ htotal')

end

/-- Complex arithmetic on stored decimals is that of the Gaussian rationals and obeys the laws of a ring, as
far as all terms are decimals in range. The parts of a quotient are the numbers of the exact parts, and its
imaginary part is dropped if it is zero or stored as zero. -/
theorem gaussian_arithmetic :
    (∀ {x y : Scalar} {u v : GaussianRat}, HasGaussian x u → HasGaussian y v → ComputesGaussian x y u v) ∧
    (∀ {x y z : Scalar} {u v w : GaussianRat}, HasGaussian x u → HasGaussian y v → HasGaussian z w →
      GaussianRing (scalar x) (scalar y) (scalar z) u v w) ∧
    ∀ {u : GaussianRat} {re im : Real}, ofRat u.re = .ok re → ofRat u.im = .ok im →
      (Vanishes u.im → gaussian u = .ok (.ofReal re)) ∧ (¬ Vanishes u.im → gaussian u = .ok (.scalar (.complex re im))) :=
  ⟨computesGaussian, gaussianRing, gaussian_eq⟩

theorem representable_digit {n : Nat} (hn : n < 10) : Real.Representable n :=
  ⟨.ofInt n, by revert n; decide +kernel, Decimal.toRat_ofInt n⟩

theorem hasGaussian_ofInt (m n : ℤ) : HasGaussian (.complex (.ofInt m) (.ofInt n)) ⟨m, n⟩ :=
  ⟨Decimal.toRat_ofInt m ▸ .big (.ofInt m), Decimal.toRat_ofInt n ▸ .big (.ofInt n)⟩

/-- One plus two i: its square is computed in the Gaussian integers, a third of it has repeating parts, and it
commutes with three. -/
theorem gaussian_arithmetic_one_two : ∃ x y : Scalar,
    x = .complex (.ofInt 1) (.ofInt 2) ∧ y = .complex (.ofInt 3) (.ofInt 0) ∧
      (scalar x).div (scalar y) = .ok (.scalar (.complex (.recurring ⟨false, 3333, -4⟩) (.recurring ⟨false, 6666, -4⟩))) ∧
      SameNumber ((scalar x).mul (scalar y)) ((scalar y).mul (scalar x)) := by
  have hx := hasGaussian_ofInt 1 2
  have hy := hasGaussian_ofInt 3 0
  have h0 : Real.Representable 0 := by exact_mod_cast representable_digit (n := 0) (by decide)
  have h3 : Real.Representable 3 := by exact_mod_cast representable_digit (n := 3) (by decide)
  have h6 : Real.Representable 6 := by exact_mod_cast representable_digit (n := 6) (by decide)
  have h9 : Real.Representable 9 := by exact_mod_cast representable_digit (n := 9) (by decide)
  have hquotient : (⟨(1 : ℤ), (2 : ℤ)⟩ / ⟨(3 : ℤ), (0 : ℤ)⟩ : GaussianRat) = ⟨1 / 3, 2 / 3⟩ := by
    ext
    · rw [re_div, normSq]
      norm_num
    · rw [im_div, normSq]
      norm_num
  have hre : ofRat (1 / 3) = .ok (.recurring ⟨false, 3333, -4⟩) := by with_unfolding_all decide
  have him : ofRat (2 / 3) = .ok (.recurring ⟨false, 6666, -4⟩) := by with_unfolding_all decide
  have hvisible : ¬ Vanishes (2 / 3) := by
    rw [← isZero_iff_vanishes him]
    decide
  refine ⟨_, _, rfl, rfl, ?_, (gaussian_arithmetic.2.1 hx hy hx).mul_comm ⟨?_, ?_⟩ ⟨?_, ?_⟩⟩
  · rw [(gaussian_arithmetic.1 hx hy).div (.inl rfl) (fun h => by simpa using congrArg QuadraticAlgebra.re h) ?_,
      hquotient, (gaussian_arithmetic.2.2 (u := ⟨1 / 3, 2 / 3⟩) hre him).2 hvisible]
    simp only [quotientTerms, normSq, List.forall_mem_cons]
    norm_num
    exact ⟨h9, h0, h9, h3, h0, h3, h6, h0, h6⟩
  · simp only [productTerms, List.forall_mem_cons]
    norm_num
    exact ⟨h3, h0, h3, h0, h6⟩
  · rw [GaussianRat.Representable, re_mul, im_mul]
    norm_num
    exact ⟨h3, h6⟩
  · simp only [productTerms, List.forall_mem_cons]
    norm_num
    exact ⟨h3, h0, h3, h6, h0⟩
  · rw [GaussianRat.Representable, re_mul, im_mul]
    norm_num
    exact ⟨h3, h6⟩

/-- A third of a small enough power of ten has no digit other than zero within the digit budget. -/
theorem vanishes_third : Vanishes (Decimal.tenPow (-10000) / 3) := by
  refine .inr ⟨fun ⟨k, n, hn⟩ => ?_, ?_⟩
  · have hthird : ¬ Expansion.Terminates (1 / 3) := (terminatingPlaces?_eq_none_iff _).1 (by with_unfolding_all decide)
    have hpow : ∀ n : Nat, (10 : ℚ) ^ n * Decimal.tenPow (-(n : ℤ)) = 1 := fun n => by
      rw [Decimal.tenPow_neg_natCast, Nat.cast_pow, Nat.cast_ofNat, mul_inv_cancel₀ (by positivity)]
    refine hthird ⟨k, 10 ^ 10000 * n, ?_⟩
    calc (1 / 3 : ℚ) * 10 ^ k = 10 ^ 10000 * (Decimal.tenPow (-10000) / 3 * 10 ^ k) := by
          rw [← mul_assoc, ← mul_div_assoc, show (10 : ℚ) ^ 10000 * Decimal.tenPow (-10000) = 1 from hpow 10000]
      _ = ((10 ^ 10000 * n : ℤ) : ℚ) := by rw [hn, Int.cast_mul, Int.cast_pow, Int.cast_ofNat]
  · have hpos := Decimal.tenPow_pos (-10000)
    rw [abs_of_pos (by positivity)]
    linarith

/-- The imaginary part of a quotient is lost if it shows no digit, though it is not zero. -/
theorem quotient_loses_imaginary_part :
    HasGaussian (.complex .zero (.big ⟨false, 1, -10000⟩)) ⟨0, Decimal.tenPow (-10000)⟩ ∧
    (⟨0, Decimal.tenPow (-10000)⟩ / ⟨3, 0⟩ : GaussianRat).im ≠ 0 ∧
    div (.scalar (.complex .zero (.big ⟨false, 1, -10000⟩))) (.ofReal (.ofInt 3)) = .ok (.ofReal .zero) := by
  have hvalue : ∀ n : Nat, Decimal.toRat ⟨false, n, -10000⟩ = n * Decimal.tenPow (-10000) := fun n => by
    rw [Decimal.toRat_eq]
    exact congrArg (· * _) (Int.cast_natCast n)
  have hx : HasGaussian (.complex .zero (.big ⟨false, 1, -10000⟩)) ⟨0, Decimal.tenPow (-10000)⟩ := by
    refine ⟨.big .zero, ?_⟩
    have hone := HasDecimal.big ⟨false, 1, -10000⟩
    rwa [hvalue, Nat.cast_one, one_mul] at hone
  have hy : HasGaussian (.real (.ofInt 3)) ⟨3, 0⟩ := by
    have hthree : (Decimal.ofInt 3).toRat = 3 := Decimal.toRat_ofInt 3
    exact ⟨hthree ▸ .big (.ofInt 3), .big .zero⟩
  have hre : (⟨0, Decimal.tenPow (-10000)⟩ / ⟨3, 0⟩ : GaussianRat).re = 0 := by
    rw [re_div]
    simp only [zero_mul, mul_zero, add_zero, zero_div]
  have him : (⟨0, Decimal.tenPow (-10000)⟩ / ⟨3, 0⟩ : GaussianRat).im = Decimal.tenPow (-10000) / 3 := by
    rw [im_div, normSq]
    ring
  have hpos := Decimal.tenPow_pos (-10000)
  have hvanishes := vanishes_third
  have hrepresentable : ∀ q ∈ quotientTerms ⟨0, Decimal.tenPow (-10000)⟩ ⟨3, 0⟩, Real.Representable q := by
    have h0 : Real.Representable 0 := by exact_mod_cast representable_digit (n := 0) (by decide)
    have h9 : Real.Representable (3 * 3) := by exact_mod_cast representable_digit (n := 9) (by decide)
    have hsmall : Real.Representable (Decimal.tenPow (-10000) * 3) :=
      ⟨⟨false, 3, -10000⟩, by decide +kernel, (hvalue 3).trans (mul_comm _ _)⟩
    simp only [quotientTerms, normSq, List.forall_mem_cons, zero_mul, mul_zero, add_zero, sub_zero]
    exact ⟨h9, h0, h9, h0, h0, h0, hsmall, h0, hsmall, fun _ h => nomatch h⟩
  refine ⟨hx, him ▸ (by positivity), ?_⟩
  generalize Decimal.tenPow (-10000) = ε at *
  have hthree : (⟨3, 0⟩ : GaussianRat) ≠ 0 := fun h => by simpa using congrArg QuadraticAlgebra.re h
  have hzero := ofRat_zero
  obtain ⟨x, hnumber⟩ : ∃ x, ofRat (ε / 3) = .ok x := by
    rcases hvanishes with hthird | ⟨hnever, -⟩
    · exact absurd hthird (by positivity)
    · exact ⟨_, ofRat_of_not_terminates hnever⟩
  rw [show (Number.ofReal (.ofInt 3)) = scalar (.real (.ofInt 3)) from rfl, div_of_gaussian hx hy (.inl rfl) hthree,
    via_of_representable (quotientTerms_terminate hx.terminates hy.terminates) hrepresentable]
  rw [← hre] at hzero
  rw [← him] at hnumber hvanishes
  exact (gaussian_eq hzero hnumber).1 hvanishes

end Number

end Reckon
