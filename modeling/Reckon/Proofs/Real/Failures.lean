/-
Arithmetic on decimals and on real numbers fails as calculations do: with a numeric error, or because
a decimal leaves its range. Both ways are handed on unchanged from the decimals to the operations on
real numbers and to the elementary functions.
-/
import Reckon.Real.Functions
import Reckon.Number.Rounding
import Reckon.Number.Order
import Reckon.Proofs.Decimal.Value
import Reckon.Proofs.Failure

namespace Reckon

open Outcome

/-! ## Decimals -/

namespace Decimal

theorem make_range (negative : Bool) (c : Nat) (e : Int) : InRange (make negative c e) := by
  unfold make
  simp only
  split
  · exact .ok _
  split
  · exact .error rfl
  · exact .error rfl

theorem make_arithmetic (negative : Bool) (c : Nat) (e : Int) : Arithmetic (make negative c e) :=
  (make_range negative c e).arithmetic

/-- The ways in which an exact result has no decimal: it is too large, or has digits below the least exponent. -/
def IsUnfit (e : Failure) : Prop := e = .decimalOverflow ∨ e = .decimalInexact

theorem IsUnfit.isRange {e : Failure} (h : IsUnfit e) : e.isRange = true := by
  rcases h with rfl | rfl <;> rfl

theorem fit_unfit (d : Decimal) : FailsOnly IsUnfit d.fit := by
  unfold fit
  refine .ite (fun _ => .ok _) fun _ => .ite (fun _ => .ok _) fun _ => .ite (fun _ => .error (.inl rfl)) fun _ => ?_
  exact .ite (fun _ => .ok _) fun _ => .error (.inr rfl)

theorem fit_range (d : Decimal) : InRange d.fit := (fit_unfit d).mono fun _ h => h.isRange

theorem fit_arithmetic (d : Decimal) : Arithmetic d.fit := (fit_range d).arithmetic

/-- The loop multiplies only, so it fails as products do. -/
theorem powLoop_unfit (n : Nat) : ∀ acc square : Decimal, FailsOnly IsUnfit (powLoop acc square n) := by
  induction n using Nat.strong_induction_on with
  | _ n ih =>
    intro acc square
    by_cases hn : n = 0
    · rw [powLoop, dif_pos hn]
      exact .ok _
    · rw [powLoop_eq acc square hn]
      exact .bind (.ite (fun _ => fit_unfit _) fun _ => .ok _) fun acc' _ => .ite (fun _ => .ok _) fun _ =>
        .bind (fit_unfit _) fun square' _ => ih _ (by omega) acc' square'

theorem pow_unfit (d : Decimal) (n : Nat) : FailsOnly IsUnfit (d.pow n) := powLoop_unfit n _ _

theorem pow_arithmetic (d : Decimal) (n : Nat) : Arithmetic (d.pow n) :=
  InRange.arithmetic ((pow_unfit d n).mono fun _ h => h.isRange)

theorem truncateRat_arithmetic (q : Rat) (places : Int) : Arithmetic (truncateRat q places) := make_arithmetic _ _ _

theorem roundRat_arithmetic (q : Rat) (places : Int) : Arithmetic (roundRat q places) := make_arithmetic _ _ _

theorem truncate_range (d : Decimal) (places : Int) : InRange (d.truncate places) :=
  .ite (fun _ => .ok _) fun _ => .bind (make_range _ _ _) fun _ _ => .ok _

theorem truncate_arithmetic (d : Decimal) (places : Int) : Arithmetic (d.truncate places) :=
  (truncate_range d places).arithmetic

theorem remainderWithin_range (digits : Nat) (a b : Decimal) : InRange (remainderWithin digits a b) :=
  .ite (fun _ => .ok _) fun _ => .ite (fun _ => .error rfl) fun _ => .ite (fun _ => .error rfl) fun _ => .ok _

theorem remainderWithin_arithmetic (digits : Nat) (a b : Decimal) : Arithmetic (remainderWithin digits a b) :=
  (remainderWithin_range digits a b).arithmetic

theorem round_arithmetic (d : Decimal) (places : Int) : Arithmetic (d.round places) :=
  .ite (fun _ => .ok _) fun _ => .bind (make_arithmetic _ _ _) fun _ _ =>
    .ite (fun _ => .error rfl) fun _ => .ok _

end Decimal

/-! ## Real numbers -/

namespace Real

theorem ofRat_range (q : Rat) : InRange (ofRat q) := by
  unfold ofRat ofRatWithin
  split
  · exact .map (Decimal.make_range _ _ _)
  · exact .ok _

theorem ofRat_arithmetic (q : Rat) : Arithmetic (ofRat q) :=
  (ofRat_range q).arithmetic

theorem decimal_arithmetic (x : Real) : Arithmetic x.decimal := by
  unfold decimal
  split
  · exact .ok _
  · exact arithmetic_fail _

theorem toRat_arithmetic (x : Real) : Arithmetic x.toRat := by
  unfold toRat
  split
  · exact .ok _
  · exact arithmetic_fail _

theorem normalize_range (x : Real) : InRange x.normalize := by
  unfold normalize
  split
  · split
    · exact ofRat_range _
    · exact .ok _
  · exact .ok _

theorem ofApproximation_arithmetic (d : Decimal) : Arithmetic (ofApproximation d) :=
  .bind (Decimal.truncate_arithmetic _ _) fun _ _ => .ok _

theorem ofInexact_arithmetic (d : Decimal) (isIrrational : Bool) : Arithmetic (ofInexact d isIrrational) :=
  .ite (fun _ => ofApproximation_arithmetic _) fun _ => .ok _

theorem combine_arithmetic (exact : Rat → Rat → Rat) {stored : Decimal → Decimal → Outcome Decimal}
    (h : ∀ c d, Arithmetic (stored c d)) (a b : Real) : Arithmetic (combine exact stored a b) := by
  unfold combine
  split
  · exact ofRat_arithmetic _
  · exact .bind (decimal_arithmetic _) fun _ _ => .bind (decimal_arithmetic _) fun _ _ => .bind (h _ _) fun _ _ =>
      ofInexact_arithmetic _ _

theorem add_arithmetic (a b : Real) : Arithmetic (a.add b) := by
  unfold add
  split
  · exact .ite (fun _ => .ok _) fun _ => arithmetic_fail _
  · exact .ok _
  · exact .ok _
  · exact combine_arithmetic _ (fun _ _ => Decimal.fit_arithmetic _) _ _

theorem sub_arithmetic (a b : Real) : Arithmetic (a.sub b) :=
  .ite (fun _ => add_arithmetic _ _) fun _ => combine_arithmetic _ (fun _ _ => Decimal.fit_arithmetic _) _ _

theorem mul_arithmetic (a b : Real) : Arithmetic (a.mul b) :=
  .ite (fun _ => .ok _) fun _ => combine_arithmetic _ (fun _ _ => Decimal.fit_arithmetic _) _ _

theorem quotient_arithmetic (a b : Real) : Arithmetic (a.quotient b) := by
  unfold quotient
  split
  · exact ofRat_arithmetic _
  · exact .bind (decimal_arithmetic _) fun _ _ => .bind (decimal_arithmetic _) fun _ _ =>
      .bind (Decimal.truncateRat_arithmetic _ _) fun _ _ => ofInexact_arithmetic _ _

theorem div_arithmetic (a b : Real) : Arithmetic (a.div b) := by
  unfold div
  split
  · exact arithmetic_fail _
  simp only
  split
  · exact .ok _
  · exact .ok _
  · exact .ok _
  · exact quotient_arithmetic _ _

theorem mod_arithmetic (a b : Real) : Arithmetic (a.mod b) := by
  unfold mod
  split
  · exact arithmetic_fail _
  split
  · exact .ok _
  · exact .ok _
  split
  · exact ofRat_arithmetic _
  · exact .bind (decimal_arithmetic _) fun _ _ => .bind (decimal_arithmetic _) fun _ _ =>
      .bind (Decimal.remainderWithin_arithmetic _ _ _) fun _ _ => ofInexact_arithmetic _ _

/-! ## Elementary functions -/

theorem project_arithmetic (x : Real) : Arithmetic x.project := by
  unfold project
  split
  · exact .ok _
  · exact .ok _
  · exact .map (decimal_arithmetic _)

theorem embed_arithmetic {f : Format} (y : Binary f) (name : String) : Arithmetic (embed y name) := by
  unfold embed
  split
  · exact arithmetic_fail _
  · exact arithmetic_fail _
  · exact ofApproximation_arithmetic _

theorem evaluate_arithmetic (f : Double → Double) (name : String) (x : Real) : Arithmetic (evaluate f name x) := by
  refine .ite (fun _ => arithmetic_fail _) fun _ => .bind (project_arithmetic _) fun y _ => ?_
  simp only
  split
  · exact .ok _
  · exact embed_arithmetic _ _

theorem sin_arithmetic (x : Real) : Arithmetic x.sin := evaluate_arithmetic _ _ x

theorem cos_arithmetic (x : Real) : Arithmetic x.cos := evaluate_arithmetic _ _ x

theorem tan_arithmetic (x : Real) : Arithmetic x.tan := evaluate_arithmetic _ _ x

theorem sinh_arithmetic (x : Real) : Arithmetic x.sinh := evaluate_arithmetic _ _ x

theorem cosh_arithmetic (x : Real) : Arithmetic x.cosh := evaluate_arithmetic _ _ x

theorem exp_arithmetic (x : Real) : Arithmetic x.exp := evaluate_arithmetic _ _ x

theorem rootDigits_arithmetic (x : Real) : Arithmetic x.rootDigits := by
  refine .bind (decimal_arithmetic _) fun d _ => .bind (project_arithmetic _) fun y _ => ?_
  split
  · exact .ite (fun _ => Decimal.truncate_arithmetic _ _) fun _ => Decimal.truncate_arithmetic _ _
  · exact Decimal.truncate_arithmetic _ _

theorem sqrt_arithmetic (x : Real) : Arithmetic x.sqrt := by
  refine .ite (fun _ => arithmetic_fail _) fun _ => .ite (fun _ => arithmetic_fail _) fun _ =>
    .ite (fun _ => .ok _) fun _ => .bind (decimal_arithmetic _) fun d _ => .ite (fun _ => .ok _) fun _ =>
      .bind (rootDigits_arithmetic _) fun root _ => .ite (fun _ => .ok _) fun _ => ofApproximation_arithmetic _

theorem logarithm_arithmetic (f : Double → Double) (g : Nat → Decimal → Decimal) (name : String) (x : Real) :
    Arithmetic (logarithm f g name x) := by
  refine .ite (fun _ => arithmetic_fail _) fun _ => .ite (fun _ => arithmetic_fail _) fun _ =>
    .ite (fun _ => .ok _) fun _ => .bind (project_arithmetic _) fun p _ => .ite (fun _ => embed_arithmetic _ _) fun _ =>
      .bind (decimal_arithmetic _) fun d _ => ofApproximation_arithmetic _

theorem ln_arithmetic (x : Real) : Arithmetic x.ln := logarithm_arithmetic _ _ _ x

theorem log10_arithmetic (x : Real) : Arithmetic x.log10 := logarithm_arithmetic _ _ _ x

theorem log_arithmetic (x base : Real) : Arithmetic (x.log base) := by
  refine .ite (fun _ => arithmetic_fail _) fun _ => .ite (fun _ => arithmetic_fail _) fun _ =>
    .ite (fun _ => .ok _) fun _ => .ite (fun _ => .ok _) fun _ => .bind (project_arithmetic _) fun p _ => ?_
  split
  · exact .bind (project_arithmetic _) fun _ _ => embed_arithmetic _ _
  · exact .bind (ln_arithmetic _) fun _ _ => .bind (ln_arithmetic _) fun _ _ => div_arithmetic _ _

/-! ## Order and rounding -/

theorem equals_arithmetic (a b : Real) : Arithmetic (a.equals b) := by
  unfold equals
  split
  · exact .ok _
  split
  · exact .ok _
  · exact .ok _
  · exact .ok _
  · exact .bind (toRat_arithmetic _) fun _ _ => .bind (toRat_arithmetic _) fun _ _ => .ok _

theorem compare_arithmetic (a b : Real) : Arithmetic (a.compare b) :=
  .ite (fun _ => .ok _) fun _ => .bind (toRat_arithmetic _) fun _ _ => .bind (toRat_arithmetic _) fun _ _ => .ok _

theorem roundWith_arithmetic {exact : Rat → Outcome Decimal} {stored : Decimal → Outcome Decimal}
    (hexact : ∀ q, Arithmetic (exact q)) (hstored : ∀ d, Arithmetic (stored d)) (x : Real) :
    Arithmetic (roundWith exact stored x) := by
  unfold roundWith
  split
  · exact .ok _
  split
  · exact .bind (hexact _) fun _ _ => .ok _
  · exact .bind (hstored _) fun _ _ => .ok _

end Real

end Reckon
