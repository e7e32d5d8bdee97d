/-
How roots and rational powers fail. The iteration and its checks fail as calculations do; only the
digits that it has to carry can be too many for decimal arithmetic at all, and with a small exponent
that takes a repeating base of ten million million digits.
-/
import Reckon.Proofs.Real.Exact
import Reckon.Proofs.Real.Failures
import Reckon.Proofs.Roots.Exact

namespace Reckon.Roots

open Reckon.Decimal Reckon.Outcome

/-! ## The iteration -/

theorem newtonStep_arithmetic (prec n : Nat) (a x : Decimal) : Arithmetic (newtonStep prec n a x) := by
  unfold newtonStep
  simp only
  exact .ite (fun _ => .error rfl) fun _ => .ite (fun _ => .error rfl) fun _ => .ite (fun _ => .error rfl) fun _ => .ok _

theorem newton_arithmetic (prec n : Nat) (precision : ℤ) (a : Decimal) (fuel : Nat) :
    ∀ x, Arithmetic (newton prec n precision a fuel x) := by
  induction fuel with
  | zero => exact fun x => .ok _
  | succ fuel ih =>
    exact fun x => .bind (newtonStep_arithmetic _ _ _ _) fun next _ => .ite (fun _ => .ok _) fun _ => ih next

theorem initialGuess_arithmetic (a : Decimal) (n : Nat) : Arithmetic (initialGuess a n) := by
  unfold initialGuess
  simp only
  split
  · split
    · exact .ok _
    split
    · split
      · exact .ok _
      · exact .ok _
    · exact .error rfl
  · exact .ok _

theorem settle_arithmetic (a : Decimal) (n : Nat) (precision : ℤ) (x : Decimal) : Arithmetic (settle a n precision x) :=
  .bind (round_arithmetic _ _) fun _ _ => .bind (pow_arithmetic _ _) fun _ _ => .ite (fun _ => .ok _) fun _ =>
    .bind (truncate_arithmetic _ _) fun _ _ => .ok _

/-! ## The digits that are carried -/

theorem workingPrecision_failsOnly (a : Decimal) (n : Nat) (precision : ℤ) :
    FailsOnly (fun e => e.isArithmetic = true ∨ e = .textValue) (workingPrecision a n precision) := by
  unfold workingPrecision
  simp only
  split
  · exact .ok _
  split
  · exact .error (.inr rfl)
  · exact .error (.inl rfl)

theorem workingPrecision_arithmetic {a : Decimal} {n : Nat} {precision : ℤ} (hprecision : 0 ≤ precision)
    (h : max (a.adjusted.fdiv n) 0 + precision + guardDigits ≤ maxPrecision) :
    Arithmetic (workingPrecision a n precision) := by
  unfold workingPrecision
  simp only
  rw [if_pos ⟨by have : guardDigits = 10 := rfl; omega, h⟩]
  exact .ok _

/-! ## Roots -/

section

variable {kind : Failure → Prop} (hkind : ∀ e, e.isArithmetic = true → kind e)

include hkind

theorem nthRoot_failsOnly {a : Decimal} {n precision : ℤ} (hn : Digits.width n.natAbs ≤ Failure.digitLimit)
    (hprec : FailsOnly kind (workingPrecision a.abs n.toNat precision)) : FailsOnly kind (nthRoot a n precision) := by
  unfold nthRoot
  rw [Failure.naming_of_width_le hn, Failure.naming_of_width_le hn]
  refine .ite (fun _ => .error (hkind _ rfl)) fun _ => .ite (fun _ => .ok _) fun _ =>
    .ite (fun _ => .error (hkind _ rfl)) fun _ => .ite (fun _ => .ok _) fun _ => .bind ?_ fun _ _ => .ok _
  refine .bind (.bind hprec fun prec _ => ?_) fun x _ => (settle_arithmetic _ _ _ _).mono hkind
  exact ((initialGuess_arithmetic _ _).mono hkind).bind fun x _ => (newton_arithmetic _ _ _ _ _ _).mono hkind

theorem rootOfRat_failsOnly {a : ℚ} {n : Nat} {precision : ℤ} (hn : Digits.width n ≤ Failure.digitLimit)
    (hprec : ∀ r, radicand a n = .ok r → FailsOnly kind (workingPrecision r.decimal.abs n (precision + r.moreDigits))) :
    FailsOnly kind (rootOfRat a n precision) := by
  have hradicand : Arithmetic (radicand a n) := by
    unfold radicand
    split
    · exact .bind (make_arithmetic _ _ _) fun _ _ => .ok _
    · exact .ok _
  exact (hradicand.mono hkind).bind fun r hr => .bind (nthRoot_failsOnly hkind hn (hprec r hr)) fun _ _ => .ok _

theorem powRational_failsOnly {base : ℚ} {p q precision : ℤ} (hn : Digits.width (Rat.divInt p q).den ≤ Failure.digitLimit)
    (hprec : 2 ≤ (Rat.divInt p q).den → ∀ r, radicand (base ^ (Rat.divInt p q).num.natAbs) (Rat.divInt p q).den = .ok r →
      FailsOnly kind (workingPrecision r.decimal.abs (Rat.divInt p q).den (precision + r.moreDigits))) :
    FailsOnly kind (powRational base p q precision) := by
  have hfail : ∀ {α : Type} (e : NumericError), FailsOnly kind (fail e : Outcome α) := fun e => .error (hkind _ rfl)
  have hinvert : ∀ (value : ℚ) (exact : Bool), FailsOnly kind (if Rat.divInt p q < 0 then
      if value = 0 then fail .vanishedRoot else .ok (1 / value, exact) else .ok (value, exact)) :=
    fun value exact => .ite (fun _ => .ite (fun _ => hfail _) fun _ => .ok _) fun _ => .ok _
  unfold powRational
  refine .ite (fun _ => hfail _) fun _ => .ite (fun _ => hfail _) fun _ => ?_
  simp only
  split
  · exact .bind (.ok _) fun r _ => hinvert r.1 r.2
  · rename_i hden
    have hpos := (Rat.divInt p q).den_pos
    exact .bind (rootOfRat_failsOnly hkind hn (hprec (by omega))) fun r _ => hinvert r.1 r.2

end

/-! ## Small exponents -/

/-- The rational does not terminate, and its numerator or denominator has ten million million digits
or more. -/
def IsGigantic (q : ℚ) : Prop :=
  ¬ Expansion.Terminates q ∧ (10 ^ 13 ≤ Digits.width q.num.natAbs ∨ 10 ^ 13 ≤ Digits.width q.den)

theorem fdiv_le {a b : ℤ} {n : Nat} (hn : 1 ≤ n) (h : a ≤ n * b) : a.fdiv n ≤ b := by
  rw [Int.fdiv_eq_ediv_of_nonneg a (by omega : (0 : ℤ) ≤ n)]
  exact Int.ediv_le_of_le_mul (by omega) (by rwa [Int.mul_comm])

/-- A radicand that does not terminate, in digits of the base. -/
theorem adjusted_radicand_le {base : ℚ} {p n w : Nat} (hn : 1 ≤ n) (hnum : Digits.width base.num.natAbs ≤ w)
    (hden : Digits.width base.den ≤ w) :
    (Decimal.ofInt ((base ^ p).num * ((base ^ p).den ^ (n - 1) : Nat))).abs.adjusted ≤ n * (p * w + p * w + 2 : Nat) := by
  show (0 : ℤ) + (Digits.width ((base ^ p).num * ((base ^ p).den ^ (n - 1) : Nat)).natAbs - 1 : Nat) ≤ _
  have hwidth : Digits.width ((base ^ p).num * ((base ^ p).den ^ (n - 1) : Nat)).natAbs ≤
      p * w + 1 + ((n - 1) * (p * w + 1) + 1) := by
    rw [Int.natAbs_mul, Int.natAbs_natCast, Rat.num_pow, Rat.den_pow, Int.natAbs_pow]
    refine (Digits.width_mul_le _ _).trans (Nat.add_le_add ?_ ?_)
    · exact (Digits.width_pow_le _ _).trans (by gcongr)
    · refine (Digits.width_pow_le _ _).trans ?_
      gcongr
      exact (Digits.width_pow_le _ _).trans (by gcongr)
  obtain ⟨k, rfl⟩ : ∃ k, n = k + 1 := ⟨n - 1, by omega⟩
  rw [Nat.add_sub_cancel] at hwidth ⊢
  generalize p * w = x at hwidth ⊢
  have hmul : k * (x + 1) ≤ k * (x + x + 2) := Nat.mul_le_mul_left k (by omega)
  have hsum : Digits.width ((base ^ p).num * ((base ^ p).den ^ k : Nat)).natAbs - 1 ≤ (k + 1) * (x + x + 2) := by
    rw [Nat.succ_mul]
    omega
  rw [zero_add]
  exact_mod_cast hsum

/-- The radicand of a power of a base with fewer digits needs fewer digits than can be carried. -/
theorem radicand_workingPrecision {base : ℚ} {p n : Nat} {r : Radicand} (hbase : ¬ IsGigantic base) (hp : p ≤ 10000)
    (hn : 2 ≤ n) (h : radicand (base ^ p) n = .ok r) :
    Arithmetic (workingPrecision r.decimal.abs n (137 + r.moreDigits)) := by
  refine workingPrecision_arithmetic (by omega) ?_
  rw [show guardDigits = 10 from rfl, show maxPrecision = 999999999999999999 from rfl]
  unfold radicand at h
  split at h
  · obtain ⟨d, hd, h⟩ := Outcome.bind_eq_ok.1 h
    obtain ⟨-, hrange⟩ := make_eq_ok_iff.1 hd
    obtain rfl := Except.ok.inj h
    have hadjusted := ((inRange_iff _).1 hrange).2
    rw [show maxExponent = 999999999999999999 from rfl] at hadjusted
    have hfdiv : d.abs.adjusted.fdiv n ≤ 500000000000000000 := fdiv_le (by omega) (hadjusted.trans (by omega))
    simp only
    omega
  · rename_i hplaces
    obtain rfl := Except.ok.inj h
    have hnot : ¬ Expansion.Terminates base := fun hbase =>
      (Expansion.terminatingPlaces?_eq_none_iff _).1 hplaces (Real.terminates_pow hbase p)
    -- a radicand with a cycle is short, unless the base is gigantic
    have hshort := not_and.1 hbase hnot
    rw [not_or, not_le, not_le] at hshort
    obtain ⟨hnum, hden⟩ := hshort
    have hfdiv := fdiv_le (by omega) (adjusted_radicand_le (p := p) (n := n) (by omega) hnum.le hden.le)
    have hmore : Digits.width (base ^ p).den ≤ p * 10 ^ 13 + 1 := by
      rw [Rat.den_pow]
      exact (Digits.width_pow_le _ _).trans (by gcongr)
    have hmul : p * 10 ^ 13 ≤ 10000 * 10 ^ 13 := by gcongr
    simp only
    omega

theorem natAbs_num_divInt_le (p : ℤ) {q : ℤ} (hq : q ≠ 0) : (Rat.divInt p q).num.natAbs ≤ p.natAbs := by
  rcases eq_or_ne p 0 with rfl | hp
  · rw [Rat.zero_divInt]
    exact le_rfl
  · refine Int.natAbs_le_of_dvd_ne_zero ?_ hp
    exact Rat.num_dvd p hq

theorem den_divInt_le (p : ℤ) {q : ℤ} (hq : q ≠ 0) : (Rat.divInt p q).den ≤ q.natAbs := by
  exact Nat.le_of_dvd (Int.natAbs_pos.2 hq) (Int.natCast_dvd.1 (Rat.den_dvd p q))

section

variable {base : ℚ} {p q : ℤ} (hp : p.natAbs ≤ 10000) (hq : 1 ≤ q) (hq' : q ≤ 200)

include hq hq'

theorem width_den_divInt_le : Digits.width (Rat.divInt p q).den ≤ Failure.digitLimit := by
  have hden := den_divInt_le p (show q ≠ 0 by omega)
  have hwidth : Digits.width (Rat.divInt p q).den ≤ 3 := Digits.width_le (by decide) (by omega)
  exact hwidth.trans (by decide)

/-- Rational powers fail as calculations do, or because they would need too many digits. -/
theorem powRational_small_failsOnly :
    FailsOnly (fun e => e.isArithmetic = true ∨ e = .textValue) (powRational base p q) :=
  powRational_failsOnly (fun _ h => .inl h) (width_den_divInt_le hq hq') fun _ _ _ => workingPrecision_failsOnly _ _ _

include hp

/-- A base that is not gigantic has rational powers unless a calculation fails. -/
theorem powRational_small_arithmetic (hbase : ¬ IsGigantic base) : Arithmetic (powRational base p q) := by
  have hnum := natAbs_num_divInt_le p (show q ≠ 0 by omega)
  exact powRational_failsOnly (fun _ h => h) (width_den_divInt_le hq hq') fun hden _ hr =>
    radicand_workingPrecision hbase (by omega) hden hr

end

end Reckon.Roots
