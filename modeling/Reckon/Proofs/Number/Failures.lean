/-
Complex arithmetic is made of real arithmetic, and so are the operations on all numbers: apart from
powers of real numbers nothing fails but with a numeric error or because a number leaves its range.
-/
import Reckon.Proofs.Real.Failures

namespace Reckon

open Outcome

/-! ## Complex arithmetic -/

namespace Scalar

open Reckon.Real

theorem addParts_arithmetic (a b : Scalar) : Arithmetic (a.addParts b) :=
  .bind (add_arithmetic _ _) fun _ _ => .bind (add_arithmetic _ _) fun _ _ => .ok _

theorem subParts_arithmetic (a b : Scalar) : Arithmetic (a.subParts b) :=
  .bind (sub_arithmetic _ _) fun _ _ => .bind (sub_arithmetic _ _) fun _ _ => .ok _

theorem mulParts_arithmetic (a b : Scalar) : Arithmetic (a.mulParts b) :=
  .bind (mul_arithmetic _ _) fun _ _ => .bind (mul_arithmetic _ _) fun _ _ => .bind (sub_arithmetic _ _) fun _ _ =>
    .bind (mul_arithmetic _ _) fun _ _ => .bind (mul_arithmetic _ _) fun _ _ => .bind (add_arithmetic _ _) fun _ _ =>
      .ok _

theorem norm_arithmetic (z : Scalar) : Arithmetic z.norm :=
  .bind (mul_arithmetic _ _) fun _ _ => .bind (mul_arithmetic _ _) fun _ _ => add_arithmetic _ _

theorem divParts_arithmetic (a b : Scalar) : Arithmetic (a.divParts b) :=
  .bind (norm_arithmetic _) fun _ _ => .ite (fun _ => arithmetic_fail _) fun _ =>
    .bind (mul_arithmetic _ _) fun _ _ => .bind (mul_arithmetic _ _) fun _ _ => .bind (add_arithmetic _ _) fun _ _ =>
      .bind (mul_arithmetic _ _) fun _ _ => .bind (mul_arithmetic _ _) fun _ _ => .bind (sub_arithmetic _ _) fun _ _ =>
        .bind (div_arithmetic _ _) fun _ _ => .bind (div_arithmetic _ _) fun _ _ => .ok _

theorem modulus_arithmetic (z : Scalar) : Arithmetic z.modulus :=
  .bind (norm_arithmetic _) fun _ _ => sqrt_arithmetic _

theorem half_arithmetic (x : Real) : Arithmetic (half x) := .bind (div_arithmetic _ _) fun _ _ => .ok _

theorem sqrtParts_arithmetic (z : Scalar) : Arithmetic z.sqrtParts :=
  .bind (modulus_arithmetic _) fun _ _ =>
    .bind (add_arithmetic _ _) fun _ _ => .bind (half_arithmetic _) fun _ _ => .bind (sqrt_arithmetic _) fun _ _ =>
      .bind (sub_arithmetic _ _) fun _ _ => .bind (half_arithmetic _) fun _ _ => .bind (sqrt_arithmetic _) fun _ _ =>
        .ok _

theorem piTimes_arithmetic (num den : Int) : Arithmetic (piTimes num den) := by
  unfold piTimes
  exact .bind (mul_arithmetic _ _) fun _ _ => div_arithmetic _ _

theorem argument_arithmetic (z : Scalar) : Arithmetic z.argument := by
  unfold argument
  refine .ite (fun _ => .ite (fun _ => arithmetic_fail _) fun _ => piTimes_arithmetic _ _) fun _ =>
    .ite (fun _ => .ite (fun _ => piTimes_arithmetic _ _) fun _ => .ok _) fun _ =>
      .bind (div_arithmetic _ _) fun _ _ => .bind (project_arithmetic _) fun _ _ =>
        .bind (embed_arithmetic _ _) fun _ _ => .ite (fun _ => ?_) fun _ => .ok _
  exact .ite (fun _ => sub_arithmetic _ _) fun _ => add_arithmetic _ _

/-! ## Elementary functions -/

theorem lnParts_arithmetic (z : Scalar) : Arithmetic z.lnParts :=
  .ite (fun _ => arithmetic_fail _) fun _ => .bind (modulus_arithmetic _) fun _ _ => .bind (ln_arithmetic _) fun _ _ =>
    .bind (argument_arithmetic _) fun _ _ => .ok _

theorem expParts_arithmetic (z : Scalar) : Arithmetic z.expParts :=
  .bind (exp_arithmetic _) fun _ _ =>
    .bind (cos_arithmetic _) fun _ _ => .bind (mul_arithmetic _ _) fun _ _ =>
      .bind (sin_arithmetic _) fun _ _ => .bind (mul_arithmetic _ _) fun _ _ => .ok _

theorem sinParts_arithmetic (z : Scalar) : Arithmetic z.sinParts :=
  .bind (sin_arithmetic _) fun _ _ => .bind (cosh_arithmetic _) fun _ _ => .bind (mul_arithmetic _ _) fun _ _ =>
    .bind (cos_arithmetic _) fun _ _ => .bind (sinh_arithmetic _) fun _ _ => .bind (mul_arithmetic _ _) fun _ _ => .ok _

theorem cosParts_arithmetic (z : Scalar) : Arithmetic z.cosParts :=
  .bind (cos_arithmetic _) fun _ _ => .bind (cosh_arithmetic _) fun _ _ => .bind (mul_arithmetic _ _) fun _ _ =>
    .bind (sin_arithmetic _) fun _ _ => .bind (sinh_arithmetic _) fun _ _ => .bind (mul_arithmetic _ _) fun _ _ => .ok _

theorem tanParts_arithmetic (z : Scalar) : Arithmetic z.tanParts :=
  .bind (sinParts_arithmetic _) fun _ _ => .bind (cosParts_arithmetic _) fun _ _ => divParts_arithmetic _ _

theorem log10Parts_arithmetic (z : Scalar) : Arithmetic z.log10Parts := by
  unfold log10Parts
  exact .bind (lnParts_arithmetic _) fun _ _ => .bind (ln_arithmetic _) fun _ _ => divParts_arithmetic _ _

theorem logParts_arithmetic (z base : Scalar) : Arithmetic (z.logParts base) :=
  .bind (lnParts_arithmetic _) fun _ _ => .bind (lnParts_arithmetic _) fun _ _ => divParts_arithmetic _ _

theorem powParts_arithmetic (base exponent : Scalar) : Arithmetic (base.powParts exponent) :=
  .ite (fun _ => .ok _) fun _ => .bind (lnParts_arithmetic _) fun _ _ => .bind (mulParts_arithmetic _ _) fun _ _ =>
    expParts_arithmetic _

/-! ## Operations on scalars -/

theorem refuseNaN_arithmetic (z : Scalar) : Arithmetic z.refuseNaN :=
  .ite (fun _ => arithmetic_fail _) fun _ => .ok _

theorem binary_arithmetic {f : Real → Real → Outcome Real} {g : Scalar → Scalar → Outcome Scalar}
    (hf : ∀ x y, Arithmetic (f x y)) (hg : ∀ x y, Arithmetic (g x y)) (a b : Scalar) : Arithmetic (binary f g a b) := by
  refine .bind (refuseNaN_arithmetic _) fun _ _ => .bind (refuseNaN_arithmetic _) fun _ _ => ?_
  split
  · exact .map (hf _ _)
  · exact hg _ _

theorem add_arithmetic : ∀ a b : Scalar, Arithmetic (a.add b) :=
  binary_arithmetic Real.add_arithmetic addParts_arithmetic

theorem sub_arithmetic : ∀ a b : Scalar, Arithmetic (a.sub b) :=
  binary_arithmetic Real.sub_arithmetic subParts_arithmetic

theorem mul_arithmetic : ∀ a b : Scalar, Arithmetic (a.mul b) :=
  binary_arithmetic Real.mul_arithmetic mulParts_arithmetic

theorem div_arithmetic : ∀ a b : Scalar, Arithmetic (a.div b) :=
  binary_arithmetic Real.div_arithmetic divParts_arithmetic

theorem mod_arithmetic : ∀ a b : Scalar, Arithmetic (a.mod b) :=
  binary_arithmetic Real.mod_arithmetic fun _ _ => arithmetic_fail _

theorem unary_arithmetic {f : Real → Outcome Real} {g : Scalar → Outcome Scalar} (hf : ∀ x, Arithmetic (f x))
    (hg : ∀ x, Arithmetic (g x)) (z : Scalar) : Arithmetic (unary f g z) := by
  refine .bind (refuseNaN_arithmetic _) fun _ _ => ?_
  split
  · exact .map (hf _)
  · exact hg _

theorem abs_arithmetic (z : Scalar) : Arithmetic z.abs := by
  cases z with
  | real x => exact .ok _
  | complex re im => exact .map (modulus_arithmetic _)

theorem roundWith_arithmetic {f : Real → Outcome Real} (hf : ∀ x, Arithmetic (f x)) (z : Scalar) :
    Arithmetic (z.roundWith f) := by
  cases z with
  | real x => exact .map (hf x)
  | complex re im => exact .bind (hf _) fun _ _ => .bind (hf _) fun _ _ => .ok _

theorem nearInteger_arithmetic (f : Rat → Int) (refuse : Kind → NumericError) (z : Scalar) :
    Arithmetic (z.nearInteger f refuse) := by
  unfold nearInteger
  split
  · exact arithmetic_fail _
  · exact .ok _
  · exact .bind (toRat_arithmetic _) fun _ _ => .ok _
  · exact arithmetic_fail _

end Scalar

/-! ## Numbers -/

namespace Number

theorem binary_arithmetic {f : Int → Int → Outcome Int} {g : Scalar → Scalar → Outcome Scalar}
    (hf : ∀ x y, Arithmetic (f x y)) (hg : ∀ x y, Arithmetic (g x y)) (a b : Number) : Arithmetic (binary f g a b) := by
  unfold binary
  split
  · exact .map (hf _ _)
  · exact .map (hg _ _)

theorem add_arithmetic : ∀ a b : Number, Arithmetic (a.add b) :=
  binary_arithmetic (fun _ _ => .ok _) Scalar.add_arithmetic

theorem sub_arithmetic : ∀ a b : Number, Arithmetic (a.sub b) :=
  binary_arithmetic (fun _ _ => .ok _) Scalar.sub_arithmetic

theorem mul_arithmetic : ∀ a b : Number, Arithmetic (a.mul b) :=
  binary_arithmetic (fun _ _ => .ok _) Scalar.mul_arithmetic

theorem sqrtNat_arithmetic (n : Nat) : Arithmetic (sqrtNat n) :=
  .ite (fun _ => .ok _) fun _ => Real.sqrt_arithmetic _

theorem sqrt_arithmetic (x : Number) : Arithmetic x.sqrt := by
  cases x with
  | integer n => exact .bind (sqrtNat_arithmetic _) fun _ _ => .ok _
  | scalar z => exact .map (Scalar.unary_arithmetic Real.sqrt_arithmetic Scalar.sqrtParts_arithmetic z)

theorem abs_arithmetic (x : Number) : Arithmetic x.abs := by
  cases x with
  | integer n => exact .ok _
  | scalar z => exact .map (Scalar.abs_arithmetic z)

theorem equals_arithmetic (a b : Number) : Arithmetic (a.equals b) := by
  unfold equals
  split
  · exact .ok _
  · refine .ite (fun _ => .ok _) fun _ => .bind (Real.equals_arithmetic _ _) fun _ _ => ?_
    exact .ite (fun _ => Real.equals_arithmetic _ _) fun _ => .ok _

theorem compare_arithmetic (a b : Number) : Arithmetic (a.compare b) := by
  unfold compare
  split
  · exact .ok _
  split
  · exact .ite (fun _ => arithmetic_fail _) fun _ => Real.compare_arithmetic _ _
  · exact .ite (fun _ => arithmetic_fail _) fun _ => arithmetic_fail _

theorem roundInteger_arithmetic {f : Rat → Int → Outcome Decimal} (hf : ∀ q places, Arithmetic (f q places))
    (n : Integer) (places : Int) : Arithmetic (roundInteger f n places) :=
  .ite (fun _ => .ok _) fun _ => .bind (hf _ _) fun _ _ => .ok _

theorem roundTo_arithmetic (x : Number) (places : Int) : Arithmetic (x.roundTo places) := by
  cases x with
  | integer n => exact roundInteger_arithmetic Decimal.roundRat_arithmetic n places
  | scalar z =>
    exact .map (Scalar.roundWith_arithmetic (Real.roundWith_arithmetic (fun _ => Decimal.roundRat_arithmetic _ _)
      fun _ => Decimal.round_arithmetic _ _) z)

theorem truncate_arithmetic (x : Number) (places : Int) : Arithmetic (x.truncate places) := by
  cases x with
  | integer n => exact roundInteger_arithmetic Decimal.truncateRat_arithmetic n places
  | scalar z =>
    exact .map (Scalar.roundWith_arithmetic (Real.roundWith_arithmetic (fun _ => Decimal.truncateRat_arithmetic _ _)
      fun _ => Decimal.truncate_arithmetic _ _) z)

end Number

end Reckon
