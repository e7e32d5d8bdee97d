/-
Sums and products of all numbers commute, and a difference is the sum with the negated second operand. The
terms of a complex product come in another order when its factors are exchanged, so that two terms that both
leave the range of decimals can be reported in either of two ways.
-/
import Reckon.Proofs.Number.Refusal
import Reckon.Proofs.Real.Commutation

namespace Reckon

open Outcome

/-! ## The sign of a zero -/

namespace Real

/-- The number, a zero without its sign. -/
def dropZeroSign (x : Real) : Real := if x.isZero then x.abs else x

theorem isZero_neg (x : Real) : x.neg.isZero = x.isZero := by
  cases x with
  | small f x =>
    show x.neg.toDecimal.isZero = x.toDecimal.isZero
    rw [x.toDecimal_neg]
    rfl
  | _ => rfl

theorem isZero_dropZeroSign (x : Real) : x.dropZeroSign.isZero = x.isZero := by
  unfold dropZeroSign abs
  split
  · split
    · exact isZero_neg x
    · rfl
  · rfl

theorem SameUpToZeroSign.map_eq {x y : Outcome Real} (h : SameUpToZeroSign x y) :
    x.map dropZeroSign = y.map dropZeroSign := by
  rcases h with rfl | ⟨a, b, rfl, rfl, ha, hb, hab⟩
  · rfl
  · refine congrArg Except.ok ?_
    rw [dropZeroSign, dropZeroSign, if_pos ha, if_pos hb, hab]

end Real

namespace Scalar

open Reckon.Real

variable {z w : Scalar}

/-- The number, zeros without their sign. -/
def dropZeroSign : Scalar → Scalar
  | real x => .real x.dropZeroSign
  | complex re im => .complex re.dropZeroSign im.dropZeroSign

theorem dropZeroSign_collapse (re im : Real) :
    (collapse re im).dropZeroSign = collapse re.dropZeroSign im.dropZeroSign := by
  unfold collapse
  rw [isZero_dropZeroSign]
  split <;> rfl

theorem map_dropZeroSign_parts (x y : Outcome Real) :
    (do
      let re ← x
      let im ← y
      .ok (collapse re im)).map dropZeroSign =
    (do
      let re ← x.map Real.dropZeroSign
      let im ← y.map Real.dropZeroSign
      .ok (collapse re im)) := by
  cases x with
  | error e => rfl
  | ok re =>
    cases y with
    | error e => rfl
    | ok im => exact congrArg Except.ok (dropZeroSign_collapse re im)

/-! ## Complex arithmetic -/

theorem addParts_comm (z w : Scalar) : z.addParts w = w.addParts z := by
  rw [addParts_eq, addParts_eq, Real.add_comm z.re, Real.add_comm z.im]

/-- Both products of an imaginary part leave the range of decimals. -/
structure CrossTermsFail (z w : Scalar) (e e' : Failure) : Prop where
  first : z.re.mul w.im = .error e
  second : z.im.mul w.re = .error e'
  range : e.isRange = true ∧ e'.isRange = true

/-- Of two factors that do not meet NaN one is an infinity if the other one is NaN. -/
theorem isInfinite_of_isNaN {a b : Real} (h : ¬ MeetsNaN a b) (ha : a.isNaN = true) : b.isInfinite = true := by
  by_contra hb
  exact h (.inl ⟨ha, Bool.eq_false_iff.2 hb⟩)

/-- If the real part of a product succeeds but both products of the imaginary part fail, then for their
range: what is NaN there meets an infinity in the real part, which settles the other product. -/
theorem crossTermsFail {x : Real} {e e' : Failure} (hre : differenceOfProducts z.re w.re z.im w.im = .ok x)
    (hfirst : z.re.mul w.im = .error e) (hsecond : z.im.mul w.re = .error e') : CrossTermsFail z w e e' := by
  obtain ⟨hac, hbd, -⟩ := isNaN_of_ofProducts combines_sub hre
  refine ⟨hfirst, hsecond, mul_range ?_ e hfirst, mul_range ?_ e' hsecond⟩
  · rintro (⟨hnan, -⟩ | ⟨hnan, -⟩)
    · rw [mul_of_infinite (.inr (isInfinite_of_isNaN hac hnan))] at hsecond
      cases hsecond
    · rw [mul_of_infinite (.inl (isInfinite_of_isNaN (fun h => hbd h.symm) hnan))] at hsecond
      cases hsecond
  · rintro (⟨hnan, -⟩ | ⟨hnan, -⟩)
    · rw [mul_of_infinite (.inr (isInfinite_of_isNaN hbd hnan))] at hfirst
      cases hfirst
    · rw [mul_of_infinite (.inl (isInfinite_of_isNaN (fun h => hac h.symm) hnan))] at hfirst
      cases hfirst

theorem mulParts_comm (z w : Scalar) : z.mulParts w = w.mulParts z ∨
    ∃ e e', CrossTermsFail z w e e' ∧ z.mulParts w = .error e ∧ w.mulParts z = .error e' := by
  have hre : differenceOfProducts w.re z.re w.im z.im = differenceOfProducts z.re w.re z.im w.im := by
    rw [differenceOfProducts, Real.mul_comm w.re, Real.mul_comm w.im, differenceOfProducts]
  have him : sumOfProducts w.re z.im w.im z.re = (do
      let y ← z.im.mul w.re
      let x ← z.re.mul w.im
      y.add x) := by
    rw [sumOfProducts, Real.mul_comm w.re, Real.mul_comm w.im]
  rw [mulParts_eq z w, mulParts_eq w z, hre, him]
  cases hreal : differenceOfProducts z.re w.re z.im w.im with
  | error e => exact .inl rfl
  | ok re =>
    unfold sumOfProducts
    cases hfirst : z.re.mul w.im with
    | error e =>
      cases hsecond : z.im.mul w.re with
      | error e' => exact .inr ⟨e, e', crossTermsFail hreal hfirst hsecond, rfl, rfl⟩
      | ok y => exact .inl rfl
    | ok x =>
      cases hsecond : z.im.mul w.re with
      | error e' => exact .inl rfl
      | ok y => exact .inl (by simp only [ok_bind, Real.add_comm x y])

/-- A difference of parts is a sum; that zero has no negative among real numbers is lost in the collapse. -/
theorem subParts_eq_addParts_neg (z w : Scalar) : z.subParts w = z.addParts w.neg := by
  rw [subParts_eq, addParts_eq]
  cases w with
  | complex c d => exact congrArg₂ (fun x y => do
      let re ← x
      let im ← y
      .ok (collapse re im)) (Real.sub_eq_add_neg z.re c) (Real.sub_eq_add_neg z.im d)
  | real y =>
    show (do
      let re ← z.re.sub y
      let im ← z.im.sub .zero
      .ok (collapse re im)) = (do
      let re ← z.re.add y.neg
      let im ← z.im.add .zero
      .ok (collapse re im))
    rw [Real.sub_eq_add_neg]
    rcases sub_zero_same z.im with hsame | ⟨s, t, hs, ht, hzero, hzero', -⟩
    · rw [hsame]
    · simp only [hs, ht, ok_bind, collapse, hzero, hzero', if_true]

/-! ## Operations on all scalars -/

/-- Operands can be exchanged as far as reals go. -/
theorem binary_swap {f : Real → Real → Outcome Real} {g : Scalar → Scalar → Outcome Scalar}
    (hf : ∀ x y, f x y = f y x) (z w : Scalar) :
    binary f g z w = binary f g w z ∨ binary f g z w = g z w ∧ binary f g w z = g w z := by
  cases hz : z.isNaN with
  | true =>
    cases hw : w.isNaN with
    | true => exact .inl (by rw [binary_of_isNaN_left hz, binary_of_isNaN_left hw])
    | false => exact .inl (by rw [binary_of_isNaN_left hz, binary_of_isNaN_right hw hz])
  | false =>
    cases hw : w.isNaN with
    | true => exact .inl (by rw [binary_of_isNaN_right hz hw, binary_of_isNaN_left hw])
    | false =>
      by_cases h : z.isComplex = true ∨ w.isComplex = true
      · exact .inr ⟨binary_complex hz hw h, binary_complex hw hz h.symm⟩
      · cases z with
        | complex => exact (h (.inl rfl)).elim
        | real x =>
          cases w with
          | complex => exact (h (.inr rfl)).elim
          | real y => exact .inl (by rw [binary_real hz hw, binary_real hw hz, hf])

protected theorem add_comm (z w : Scalar) : z.add w = w.add z := by
  rcases binary_swap Real.add_comm z w with h | ⟨hz, hw⟩
  · exact h
  · exact hz.trans ((addParts_comm z w).trans hw.symm)

protected theorem mul_comm (z w : Scalar) : z.mul w = w.mul z ∨
    ∃ e e', CrossTermsFail z w e e' ∧ z.mul w = .error e ∧ w.mul z = .error e' := by
  rcases binary_swap Real.mul_comm z w with h | ⟨hz, hw⟩
  · exact .inl h
  · rw [Scalar.mul, hz, hw]
    exact mulParts_comm z w

theorem isNaN_neg (z : Scalar) : z.neg.isNaN = z.isNaN := by
  cases z with
  | real x => exact Real.isNaN_neg x
  | complex => rfl

theorem isComplex_neg (z : Scalar) : z.neg.isComplex = z.isComplex := by cases z <;> rfl

protected theorem sub_eq_add_neg (z w : Scalar) : z.sub w = z.add w.neg := by
  unfold sub add
  cases hz : z.isNaN with
  | true => rw [binary_of_isNaN_left hz, binary_of_isNaN_left hz]
  | false =>
    cases hw : w.isNaN with
    | true => rw [binary_of_isNaN_right hz hw, binary_of_isNaN_right hz ((isNaN_neg w).trans hw)]
    | false =>
      have hw' := (isNaN_neg w).trans hw
      by_cases h : z.isComplex = true ∨ w.isComplex = true
      · rw [binary_complex hz hw h, binary_complex hz hw' (by rwa [isComplex_neg]), subParts_eq_addParts_neg]
      · cases z with
        | complex => exact (h (.inl rfl)).elim
        | real x =>
          cases w with
          | complex => exact (h (.inr rfl)).elim
          | real y =>
            rw [binary_real hz hw, Real.sub_eq_add_neg]
            exact (binary_real hz hw').symm

/-- A zero that is subtracted is a zero that is added, up to the signs of zeros. -/
theorem sub_zero_map (z : Scalar) :
    (z.sub (real .zero)).map dropZeroSign = (z.add (real .zero)).map dropZeroSign := by
  unfold sub add
  cases hz : z.isNaN with
  | true => rw [binary_of_isNaN_left hz, binary_of_isNaN_left hz]
  | false =>
    cases z with
    | real x =>
      have hmap : ∀ y : Outcome Real, (y.map real).map dropZeroSign = (y.map Real.dropZeroSign).map real := fun y => by
        cases y <;> rfl
      rw [binary_real hz rfl, binary_real hz rfl, hmap, hmap, (sub_zero_same x).map_eq]
    | complex re im =>
      rw [binary_complex hz rfl (.inl rfl), binary_complex hz rfl (.inl rfl), subParts_eq, addParts_eq,
        map_dropZeroSign_parts, map_dropZeroSign_parts]
      exact congrArg₂ (fun x y => do
        let re ← x
        let im ← y
        .ok (collapse re im)) (sub_zero_same re).map_eq (sub_zero_same im).map_eq

end Scalar

/-! ## Numbers -/

namespace Number

open Scalar

/-- The number, zeros without their sign. -/
def dropZeroSign : Number → Number
  | integer n => .integer n
  | scalar z => .scalar z.dropZeroSign

/-- The only differences that are not sums with the negated operand are those with the integer zero. -/
theorem sub_eq_add_neg_or (a b : Number) : a.sub b = a.add b.neg ∨
    ∃ z n, a = scalar z ∧ b = integer n ∧ n.value = 0 := by
  cases b with
  | scalar w => cases a <;> exact .inl (congrArg (Except.map scalar) (Scalar.sub_eq_add_neg _ w))
  | integer n =>
    cases a with
    | integer m => exact .inl (congrArg (fun k => Except.ok (ofInt k)) (sub_eq_add_neg m.value n.value))
    | scalar z =>
      by_cases hn : n.value = 0
      · exact .inr ⟨z, n, rfl, rfl, hn⟩
      · have hneg : Decimal.ofInt (-n.value) = (Decimal.ofInt n.value).neg := by
          unfold Decimal.ofInt Decimal.neg
          rw [Int.natAbs_neg]
          simp only [Decimal.mk.injEq, and_true]
          by_cases hsign : n.value < 0 <;> simp [hsign] <;> omega
        refine .inl (congrArg (Except.map scalar) ?_)
        show z.sub (real (.ofInt n.value)) = z.add (real (.big (.ofInt (-n.value))))
        rw [hneg]
        exact z.sub_eq_add_neg _

/-- Sums commute, and so do products unless two of their terms leave the range of decimals in different ways.
A difference is the sum with the negated operand, up to the signs of zeros where the integer zero is
subtracted. -/
theorem commutation (a b : Number) :
    a.add b = b.add a ∧
    (a.mul b = b.mul a ∨ ∃ e e', CrossTermsFail a.toScalar b.toScalar e e' ∧ a.mul b = .error e ∧ b.mul a = .error e') ∧
    (a.sub b).map dropZeroSign = (a.add b.neg).map dropZeroSign ∧
    (a.sub b = a.add b.neg ∨ ∃ z n, a = scalar z ∧ b = integer n ∧ n.value = 0) := by
  have hadd : ∀ z w : Scalar, (z.add w).map scalar = (w.add z).map scalar := fun z w =>
    congrArg (Except.map scalar) (z.add_comm w)
  have hmul : ∀ z w : Scalar, (z.mul w).map scalar = (w.mul z).map scalar ∨ ∃ e e', CrossTermsFail z w e e' ∧
      (z.mul w).map scalar = .error e ∧ (w.mul z).map scalar = .error e' := fun z w => by
    rcases z.mul_comm w with h | ⟨e, e', hfail, hz, hw⟩
    · exact .inl (congrArg (Except.map scalar) h)
    · exact .inr ⟨e, e', hfail, congrArg (Except.map scalar) hz, congrArg (Except.map scalar) hw⟩
  refine ⟨?_, ?_, ?_, sub_eq_add_neg_or a b⟩
  · cases a with
    | scalar z => cases b <;> exact hadd _ _
    | integer m =>
      cases b with
      | scalar w => exact hadd _ _
      | integer n => exact congrArg (fun k => Except.ok (ofInt k)) (Int.add_comm m.value n.value)
  · cases a with
    | scalar z => cases b <;> exact hmul _ _
    | integer m =>
      cases b with
      | scalar w => exact hmul _ _
      | integer n => exact .inl (congrArg (fun k => Except.ok (ofInt k)) (Int.mul_comm m.value n.value))
  -- subtracting an integer zero may differ in the sign of zero
  · rcases sub_eq_add_neg_or a b with h | ⟨z, n, rfl, rfl, hn⟩
    · rw [h]
    · have hmap : ∀ y : Outcome Scalar, (y.map scalar).map dropZeroSign = (y.map Scalar.dropZeroSign).map scalar :=
        fun y => by cases y <;> rfl
      have hsub : (scalar z).sub (integer n) = (z.sub (real (.ofInt n.value))).map scalar := rfl
      have hadd : (scalar z).add (integer n).neg = (z.add (real (.ofInt (-n.value)))).map scalar := rfl
      rw [hsub, hadd, hn, show Real.ofInt 0 = .zero from rfl, show Real.ofInt (-0) = .zero from rfl, hmap, hmap,
        z.sub_zero_map]

/-- Two products that overflow and underflow in the imaginary part are reported in the order of the factors. -/
theorem products_fail_in_two_ways :
    mul (.scalar (.complex (.irrational ⟨false, 1, 9 * 10 ^ 17⟩) (.irrational ⟨false, 1, -19 * 10 ^ 17⟩)))
      (.scalar (.complex (.irrational ⟨false, 1, -10 ^ 18⟩) (.irrational ⟨false, 1, 9 * 10 ^ 17⟩))) =
        .error .decimalOverflow ∧
    mul (.scalar (.complex (.irrational ⟨false, 1, -10 ^ 18⟩) (.irrational ⟨false, 1, 9 * 10 ^ 17⟩)))
      (.scalar (.complex (.irrational ⟨false, 1, 9 * 10 ^ 17⟩) (.irrational ⟨false, 1, -19 * 10 ^ 17⟩))) =
        .error .decimalInexact :=
  ⟨by decide +kernel, by decide +kernel⟩

end Number

end Reckon
