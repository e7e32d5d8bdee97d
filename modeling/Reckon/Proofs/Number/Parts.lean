/-
Complex arithmetic taken apart. Products, quotients and the square of the modulus are made of sums and
differences of two products of parts, and an operation on all scalars is the real one unless an operand is
complex.
-/
import Reckon.Proofs.Failure
import Reckon.Scalar

namespace Reckon

open Outcome

namespace Real

/-- The sum of two products. -/
def sumOfProducts (a c b d : Real) : Outcome Real := do (← a.mul c).add (← b.mul d)

/-- The difference of two products. -/
def differenceOfProducts (a c b d : Real) : Outcome Real := do (← a.mul c).sub (← b.mul d)

end Real

namespace Scalar

open Reckon.Real

/-- The real part. -/
def re (z : Scalar) : Real := z.parts.1

/-- The imaginary part, zero for a real number. -/
def im (z : Scalar) : Real := z.parts.2

theorem addParts_eq (z w : Scalar) : z.addParts w = (do
    let re ← z.re.add w.re
    let im ← z.im.add w.im
    .ok (collapse re im)) := rfl

theorem subParts_eq (z w : Scalar) : z.subParts w = (do
    let re ← z.re.sub w.re
    let im ← z.im.sub w.im
    .ok (collapse re im)) := rfl

theorem mulParts_eq (z w : Scalar) : z.mulParts w = (do
    let re ← differenceOfProducts z.re w.re z.im w.im
    let im ← sumOfProducts z.re w.im z.im w.re
    .ok (collapse re im)) := by
  simp only [mulParts, differenceOfProducts, sumOfProducts, bind_assoc]
  rfl

theorem norm_eq (z : Scalar) : z.norm = sumOfProducts z.re z.re z.im z.im := rfl

/-- The numerators of both parts come before the divisions. -/
def quotientParts (z w : Scalar) (n : Real) : Outcome Scalar := do
  let x ← sumOfProducts z.re w.re z.im w.im
  let y ← differenceOfProducts z.im w.re z.re w.im
  let re ← x.div n
  let im ← y.div n
  .ok (collapse re im)

theorem divParts_eq (z w : Scalar) : z.divParts w = (do
    let n ← w.norm
    if n.isZero then fail .divisionByZero else quotientParts z w n) := by
  simp only [quotientParts, differenceOfProducts, sumOfProducts, bind_assoc]
  rfl

section

variable {f : Real → Real → Outcome Real} {g : Scalar → Scalar → Outcome Scalar} {z w : Scalar}

theorem binary_of_isNaN_left (h : z.isNaN = true) : binary f g z w = fail .nanOperand := by
  unfold binary refuseNaN
  rw [if_pos h]
  rfl

theorem binary_of_isNaN_right (hz : z.isNaN = false) (h : w.isNaN = true) : binary f g z w = fail .nanOperand := by
  unfold binary refuseNaN
  rw [if_neg (Bool.eq_false_iff.1 hz), if_pos h]
  rfl

theorem binary_real {x y : Real} (hx : x.isNaN = false) (hy : y.isNaN = false) :
    binary f g (real x) (real y) = (f x y).map real := by
  unfold binary refuseNaN
  rw [show (real x).isNaN = false from hx, show (real y).isNaN = false from hy]
  rfl

theorem binary_complex (hz : z.isNaN = false) (hw : w.isNaN = false) (h : z.isComplex = true ∨ w.isComplex = true) :
    binary f g z w = g z w := by
  unfold binary refuseNaN
  rw [hz, hw]
  cases z <;> cases w <;> first | rfl | exact h.elim nofun nofun

end

theorem unary_real (f : Real → Outcome Real) (g : Scalar → Outcome Scalar) {x : Real} (h : x.isNaN = false) :
    unary f g (real x) = (f x).map real := by
  unfold unary refuseNaN
  rw [show (real x).isNaN = false from h]
  rfl

end Scalar

end Reckon
