/-
Computations that pass through exact decimals. Every term on the way has to be a decimal in range, or the
computation ends there; if all are, nothing of them is left in the result.
-/
import Reckon.Proofs.Binary.Range
import Reckon.Proofs.Real.Exact
import Reckon.Proofs.Real.Refusal

namespace Reckon.Real

open Outcome Reckon.Expansion

section

variable {a : Real} {q : ℚ}

theorem HasDecimal.neg (h : HasDecimal a q) : HasDecimal a.neg (-q) := by
  cases h with
  | small x =>
    rw [← Decimal.toRat_neg, ← FiniteBinary.toDecimal_neg]
    exact .small x.neg
  | big d =>
    rw [← Decimal.toRat_neg]
    exact .big d.neg

/-! ## Decimals of rationals -/

/-- A terminating rational with a decimal in range becomes that decimal, without trailing zeros. -/
theorem ofRat_of_representable (hq : Terminates q) (hr : Representable q) : ∃ d : Decimal, ofRat q = .ok (.big d) ∧
    d.toRat = q ∧ d.exponent ≤ 0 ∧ (d.exponent < 0 → ¬ 10 ∣ d.coefficient) := by
  obtain ⟨d, hd, hspec⟩ := (givesDecimal_rational hq).ok hr
  obtain ⟨x, hx, hxd⟩ := map_eq_ok.1 hd
  obtain rfl := ofReal_injective hxd
  exact ⟨d, hx, hspec⟩

theorem ofRat_of_not_representable (hq : Terminates q) (hr : ¬ Representable q) :
    ∃ e, ofRat q = .error e ∧ e.isRange = true := by
  obtain ⟨e, he⟩ := (givesDecimal_rational hq).error hr
  have hfail := map_eq_error.1 he
  exact ⟨e, hfail, ofRat_range q e hfail⟩

theorem hasDecimal_of_ofRat (hq : Terminates q) (h : ofRat q = .ok a) : HasDecimal a q := by
  by_cases hr : Representable q
  · obtain ⟨d, hd, rfl, -⟩ := ofRat_of_representable hq hr
    obtain rfl := Except.ok.inj (hd.symm.trans h)
    exact .big d
  · obtain ⟨e, he, -⟩ := ofRat_of_not_representable hq hr
    cases he.symm.trans h

end

/-! ## Terms on the way -/

section

variable {α β : Type}

/-- The result, if all the terms on the way to it have a number; else the failure of the first one that has
none. -/
def via : List ℚ → Outcome α → Outcome α
  | [], result => result
  | q :: qs, result => do
    let _ ← ofRat q
    via qs result

theorem via_append (qs rs : List ℚ) (result : Outcome α) : via (qs ++ rs) result = via qs (via rs result) := by
  induction qs with
  | nil => rfl
  | cons q qs ih => exact congrArg (fun r => do let _ ← ofRat q; r) ih

theorem via_bind (qs : List ℚ) (result : Outcome α) (f : α → Outcome β) : via qs result >>= f = via qs (result >>= f) := by
  induction qs with
  | nil => rfl
  | cons q qs ih =>
    rw [via, via, ← ih]
    cases ofRat q <;> rfl

theorem via_map (qs : List ℚ) (result : Outcome α) (f : α → β) : (via qs result).map f = via qs (result.map f) := by
  induction qs with
  | nil => rfl
  | cons q qs ih =>
    rw [via, via, ← ih]
    cases ofRat q <;> rfl

/-- A term whose number has no other effect on the result. -/
theorem ofRat_bind_eq_via {q : ℚ} {f : Real → Outcome α} {result : Outcome α} (h : ∀ x, ofRat q = .ok x → f x = result) :
    ofRat q >>= f = via [q] result := by
  cases hq : ofRat q with
  | error e => rw [via, hq, error_bind, error_bind]
  | ok x => rw [via, hq, ok_bind, ok_bind, h x hq, via]

variable {qs : List ℚ} {result : Outcome α}

theorem via_of_representable (hqs : ∀ q ∈ qs, Terminates q) (hr : ∀ q ∈ qs, Representable q) : via qs result = result := by
  induction qs with
  | nil => rfl
  | cons q qs ih =>
    obtain ⟨hq, hqs⟩ := List.forall_mem_cons.1 hqs
    obtain ⟨hrq, hr⟩ := List.forall_mem_cons.1 hr
    obtain ⟨d, hd, -⟩ := ofRat_of_representable hq hrq
    rw [via, hd, ok_bind, ih hqs hr]

theorem via_of_not_representable (hqs : ∀ q ∈ qs, Terminates q) (hr : ¬ ∀ q ∈ qs, Representable q) :
    ∃ e, via qs result = .error e ∧ e.isRange = true := by
  induction qs with
  | nil => exact (hr fun _ h => nomatch h).elim
  | cons q qs ih =>
    obtain ⟨hq, hqs⟩ := List.forall_mem_cons.1 hqs
    by_cases hrq : Representable q
    · obtain ⟨d, hd, -⟩ := ofRat_of_representable hq hrq
      rw [via, hd, ok_bind]
      exact ih hqs fun h => hr (List.forall_mem_cons.2 ⟨hrq, h⟩)
    · obtain ⟨e, he, hrange⟩ := ofRat_of_not_representable hq hrq
      exact ⟨e, by rw [via, he, error_bind], hrange⟩

end

end Reckon.Real
