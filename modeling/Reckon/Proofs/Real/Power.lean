/-
How powers of real numbers fail. They fail as calculations do, with two exceptions: an approximation
that is lost when it is cut to the precision has a negative power that divides by zero, and the base of
a root can have more digits than decimal arithmetic carries.
-/
import Reckon.Real.Power
import Reckon.Proofs.Real.Exact
import Reckon.Proofs.Roots.Convergents
import Reckon.Proofs.Roots.Failures

namespace Reckon.Real

open Reckon.Outcome Reckon.Roots

/-! ## Rational exponents -/

theorem nativePower_arithmetic (base exponent : Real) : Arithmetic (nativePower base exponent) := by
  refine .bind (project_arithmetic _) fun _ _ => .bind (project_arithmetic _) fun _ _ => ?_
  split
  · exact arithmetic_fail _
  · exact .ok _
  · exact ofApproximation_arithmetic _

section

variable {kind : Failure → Prop} (hkind : ∀ e, e.isArithmetic = true → kind e)

theorem orElseNumeric_failsOnly {attempt : Outcome Real} {otherwise : Unit → Outcome Real} (ha : FailsOnly kind attempt)
    (ho : FailsOnly kind (otherwise ())) : FailsOnly kind (orElseNumeric attempt otherwise) := by
  unfold orElseNumeric
  split
  · exact ho
  · exact ha

include hkind

theorem rationalPower_failsOnly {base : Real} {p q : ℤ}
    (hpow : ∀ v, base.toRat = .ok v → FailsOnly kind (powRational v p q)) : FailsOnly kind (rationalPower base p q) := by
  refine ((toRat_arithmetic _).mono hkind).bind fun v hv => (hpow v hv).bind fun r _ => ?_
  refine .ite (fun _ => (ofRat_arithmetic _).mono hkind) fun _ => ?_
  exact ((Decimal.truncateRat_arithmetic _ _).mono hkind).bind fun _ _ => (ofApproximation_arithmetic _).mono hkind

variable {base : Real}
  (hpow : ∀ v p q, base.toRat = .ok v → p.natAbs ≤ 10000 → 1 ≤ q → q ≤ 200 → FailsOnly kind (powRational v p q))

include hpow

theorem convergentPower_failsOnly (exponent : Real) : FailsOnly kind (convergentPower base exponent) := by
  have hnative := (nativePower_arithmetic base exponent).mono hkind
  refine ((project_arithmetic _).mono hkind).bind fun x _ => ?_
  obtain ⟨r, hr, hanswer⟩ := rationalApproximation_ok x
  rw [hr]
  rcases r with _ | ⟨p, q⟩
  · exact hnative
  · obtain ⟨-, -, hq, hq', -⟩ := hanswer p q rfl
    refine .ite (fun hp => ?_) fun _ => hnative
    rw [show maxNumerator = 10000 from rfl] at hp
    exact orElseNumeric_failsOnly (rationalPower_failsOnly hkind fun v hv => hpow v p q hv (by omega) hq hq') hnative

theorem fractionalPower_failsOnly (exponent : Real) : FailsOnly kind (fractionalPower base exponent) := by
  have hconvergent := convergentPower_failsOnly hkind hpow exponent
  unfold fractionalPower
  split
  · rename_i q _
    refine .ite (fun hsmall => ?_) fun _ => hconvergent
    rw [show maxDenominator = 200 from rfl, show maxNumerator = 10000 from rfl] at hsmall
    have hden := q.den_pos
    exact orElseNumeric_failsOnly (rationalPower_failsOnly hkind fun v hv =>
      hpow v _ _ hv (by omega) (by omega) (by omega)) hconvergent
  · exact hconvergent

end

/-! ## Integer exponents -/

theorem one_le_bitLength {n : Nat} (hn : n ≠ 0) : 1 ≤ bitLength n := by
  unfold bitLength
  rw [if_neg hn]
  exact Nat.succ_pos _

/-- A power of zero is found and is zero. -/
theorem exists_powLoop_of_zero (n : Nat) : ∀ {acc square : Decimal}, square.coefficient = 0 →
    ∃ r, Decimal.powLoop acc square n = .ok r := by
  induction n using Nat.strong_induction_on with
  | _ n ih =>
    intro acc square hzero
    have hmul : ∀ a : Decimal, ∃ r, Decimal.mul a square = .ok r := fun a =>
      (Decimal.exists_fit_iff _).2 (.inl (by simp [Decimal.product, hzero]))
    by_cases hn : n = 0
    · rw [Decimal.powLoop, dif_pos hn]
      exact ⟨acc, rfl⟩
    obtain ⟨acc', hacc⟩ : ∃ acc', (if n % 2 = 1 then Decimal.mul acc square else .ok acc) = .ok acc' := by
      split
      · exact hmul acc
      · exact ⟨acc, rfl⟩
    obtain ⟨square', hsquare⟩ := hmul square
    have hzero' : square'.coefficient = 0 := by
      rw [← Decimal.toRat_eq_zero_iff, Decimal.toRat_mul hsquare, (Decimal.toRat_eq_zero_iff square).2 hzero, mul_zero]
    rw [Decimal.powLoop_eq acc square hn, hacc]
    show ∃ r, (if n / 2 = 0 then .ok acc'
      else Decimal.mul square square >>= fun s => Decimal.powLoop acc' s (n / 2)) = .ok r
    split
    · exact ⟨acc', rfl⟩
    · rw [hsquare]
      exact ih _ (by omega) hzero'

theorem approximatePower_of_zero {d : Decimal} {n : ℤ} (hn : n < 0) (hd : d.coefficient = 0) :
    approximatePower d n = .error .zeroDivision := by
  obtain ⟨powered, hpow⟩ : ∃ r, Decimal.powLoop .one d n.natAbs = .ok r := exists_powLoop_of_zero n.natAbs hd
  have hzero : powered.isZero = true := by
    rw [Decimal.isZero_iff, ← Decimal.toRat_eq_zero_iff, Decimal.toRat_pow hpow, (Decimal.toRat_eq_zero_iff d).2 hd,
      zero_pow (by omega)]
  unfold approximatePower
  rw [show d.pow n.natAbs = .ok powered from hpow]
  show (if 0 ≤ n then _ else if powered.isZero then _ else _) = _
  rw [if_neg (by omega), if_pos hzero]

theorem approximatePower_failsOnly {kind : Failure → Prop} (hkind : ∀ e, e.isArithmetic = true → kind e) {d : Decimal}
    {n : ℤ} (hzero : n < 0 → d.coefficient = 0 → kind .zeroDivision) : FailsOnly kind (approximatePower d n) := by
  refine ((Decimal.pow_arithmetic _ _).mono hkind).bind fun powered hpow => ?_
  refine .ite (fun _ => (ofApproximation_arithmetic _).mono hkind) fun hn => .ite (fun h => .error ?_) fun _ => ?_
  · refine hzero (by omega) ?_
    rw [Decimal.isZero_iff, ← Decimal.toRat_eq_zero_iff, Decimal.toRat_pow hpow] at h
    exact (Decimal.toRat_eq_zero_iff d).1 (pow_eq_zero_iff (by omega) |>.1 h)
  · exact ((Decimal.truncateRat_arithmetic _ _).mono hkind).bind fun _ _ => (ofApproximation_arithmetic _).mono hkind

/-- The negative powers of a number that divide by zero: the number is an approximation, or a repeating
value without a cycle, that is lost when it is cut to the precision. -/
structure DividesByZero (base : Real) (n : ℤ) : Prop where
  inexact : base.exactRat? = none
  lost : ∃ d, base.decimal? = some d ∧ |d.toRat| < Decimal.tenPow (-precision)
  negative : n < 0
  small : n.natAbs * 4 ≤ maxPowerBits

theorem decimal_eq_ok_iff {x : Real} {d : Decimal} : x.decimal = .ok d ↔ x.decimal? = some d := by
  unfold decimal
  cases h : x.decimal? with
  | none => exact iff_of_false nofun nofun
  | some c =>
    constructor <;> intro heq <;> cases heq <;> rfl

theorem bits_of_zero {d : Decimal} (h : d.coefficient = 0) (n : ℤ) : n.natAbs * d.digitCount * 4 = n.natAbs * 4 := by
  unfold Decimal.digitCount
  rw [h, (Digits.width_eq_one_iff 0).2 (by decide), Nat.mul_one]

theorem integerPower_of_dividesByZero {base : Real} {n : ℤ} (h : DividesByZero base n) :
    integerPower base n = .error .zeroDivision := by
  obtain ⟨hinexact, ⟨d, hd, hlost⟩, hneg, hsmall⟩ := h
  obtain ⟨r, hr⟩ := exists_truncate d
  have hzero : r.coefficient = 0 := by
    rwa [← Decimal.toRat_eq_zero_iff, Decimal.toRat_truncate hr, Decimal.cut_eq_zero_iff]
  have hbits : n.natAbs * r.digitCount * 4 ≤ maxPowerBits := (bits_of_zero hzero n).trans_le hsmall
  unfold integerPower
  rw [hinexact]
  simp only
  rw [decimal_eq_ok_iff.2 hd, ok_bind, hr, ok_bind, if_pos hbits, approximatePower_of_zero hneg hzero]

theorem integerPower_failsOnly {kind : Failure → Prop} (hkind : ∀ e, e.isArithmetic = true → kind e) {base : Real}
    {n : ℤ} (hzero : DividesByZero base n → kind .zeroDivision) : FailsOnly kind (integerPower base n) := by
  have hnative := (nativePower_arithmetic base (ofInt n)).mono hkind
  unfold integerPower
  split
  · exact .ite (fun _ => (ofRat_arithmetic _).mono hkind) fun _ => hnative
  · rename_i hinexact
    refine ((decimal_arithmetic _).mono hkind).bind fun d hd => ?_
    refine ((Decimal.truncate_arithmetic _ _).mono hkind).bind fun r hr => .ite (fun hsmall => ?_) fun _ => hnative
    refine approximatePower_failsOnly hkind fun hneg hr0 => hzero ⟨hinexact, ⟨d, decimal_eq_ok_iff.1 hd, ?_⟩, hneg, ?_⟩
    · rwa [← Decimal.cut_eq_zero_iff, ← Decimal.toRat_truncate hr, Decimal.toRat_eq_zero_iff]
    · rwa [bits_of_zero hr0] at hsmall

/-! ## All powers -/

/-- The power of two numbers divides by zero: the exponent is an integer, and the base is lost. -/
def PowerDividesByZero (base exponent : Real) : Prop :=
  base.isZero = false ∧ exponent.isInteger = true ∧ ∃ v, exponent.toRat = .ok v ∧ DividesByZero base ⌊v⌋

theorem power_failsOnly {kind : Failure → Prop} (hkind : ∀ e, e.isArithmetic = true → kind e) {base exponent : Real}
    (hpow : ∀ v p q, base.toRat = .ok v → p.natAbs ≤ 10000 → 1 ≤ q → q ≤ 200 → FailsOnly kind (powRational v p q))
    (hzero : PowerDividesByZero base exponent → kind .zeroDivision) : FailsOnly kind (power base exponent) := by
  have hnative := (nativePower_arithmetic base exponent).mono hkind
  unfold power
  refine .ite (fun _ => .ok _) fun _ => .ite (fun _ => .ok _) fun _ => .ite (fun _ => hnative) fun _ =>
    .ite (fun _ => .ite (fun _ => (arithmetic_fail _).mono hkind) fun _ => .ok _) fun hbase =>
      .ite (fun hinteger => ?_) fun _ => fractionalPower_failsOnly hkind hpow exponent
  refine ((toRat_arithmetic _).mono hkind).bind fun v hv => integerPower_failsOnly hkind fun h => hzero ?_
  exact ⟨Bool.eq_false_iff.2 hbase, hinteger, v, hv, h⟩

theorem toRat_of_isZero {x : Real} (h : x.isZero = true) : x.toRat = .ok 0 := by
  have hzero : ∀ {d : Decimal}, d.isZero = true → d.toRat = 0 := fun hd =>
    (Decimal.toRat_eq_zero_iff _).2 ((Decimal.isZero_iff _).1 hd)
  cases x with
  | small f b => exact congrArg Except.ok (hzero (d := b.toDecimal) h)
  | big d => exact congrArg Except.ok (hzero (d := d) h)
  | irrational d => exact congrArg Except.ok (hzero (d := d) h)
  | recurring d =>
    have hd : d.isZero = true := h
    cases hq : recurringRat? d with
    | some q => rw [toRat_recurring hq, eq_zero_of_recurringRat? hq ((Decimal.isZero_iff d).1 hd)]
    | none =>
      unfold toRat toRat?
      rw [show (recurring d).exactRat? = none from hq]
      exact congrArg Except.ok (hzero hd)
  | infinite s => cases h
  | nan => cases h

theorem power_eq_zeroDivision_iff (base exponent : Real) :
    power base exponent = .error .zeroDivision ↔ PowerDividesByZero base exponent := by
  constructor
  · have hpower : FailsOnly (fun e => e = .zeroDivision → PowerDividesByZero base exponent) (power base exponent) := by
      refine power_failsOnly ?_ ?_ fun h _ => h
      · rintro _ h rfl
        cases h
      · intro v p q _ _ hq hq'
        refine (powRational_small_failsOnly hq hq').mono ?_
        rintro _ (h | h) rfl
        · cases h
        · cases h
    exact fun h => hpower _ h rfl
  · rintro ⟨hbase, hinteger, v, hv, h⟩
    have hneg : v < 0 := by
      have := Int.floor_lt.1 h.negative
      exact_mod_cast this
    have hzero : exponent.isZero = false := Bool.eq_false_iff.2 fun hz => by
      rw [toRat_of_isZero hz] at hv
      exact hneg.ne (Except.ok.inj hv).symm
    have hinfinite : exponent.isInfinite = false := by
      cases exponent <;> first | rfl | cases hv
    have hinfinite' : base.isInfinite = false := by
      obtain ⟨d, hd, -⟩ := h.lost
      cases base <;> first | rfl | cases hd
    unfold power
    rw [hzero, hinfinite, hinfinite', hbase, hinteger, hv]
    exact integerPower_of_dividesByZero h

/-- Only roots of a gigantic base need more digits than can be carried. -/
theorem isGigantic_of_power_eq_textValue {base exponent : Real} (h : power base exponent = .error .textValue) :
    ∃ v, base.toRat = .ok v ∧ IsGigantic v := by
  have hpower : FailsOnly (fun e => e = .textValue → ∃ v, base.toRat = .ok v ∧ IsGigantic v) (power base exponent) := by
    refine power_failsOnly ?_ ?_ nofun
    · rintro _ harith rfl
      cases harith
    · intro v p q hv hp hq hq'
      by_cases hbase : IsGigantic v
      · exact fun e _ _ => ⟨v, hv, hbase⟩
      · refine (powRational_small_arithmetic hp hq hq' hbase).mono ?_
        rintro _ harith rfl
        cases harith
  exact hpower _ h rfl

/-- Powers of real numbers fail in no other way. -/
theorem power_failsOnly_all (base exponent : Real) :
    FailsOnly (fun e => e.isArithmetic = true ∨ e = .textValue ∨ e = .zeroDivision) (power base exponent) := by
  refine power_failsOnly (fun _ h => .inl h) (fun v p q _ _ hq hq' => ?_) fun _ => .inr (.inr rfl)
  exact (powRational_small_failsOnly hq hq').mono fun _ h => h.imp_right .inl

end Reckon.Real
