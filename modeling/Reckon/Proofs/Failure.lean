/-
How operations fail. A kind of failure is a predicate, and an outcome fails only in a kind if every
failure it can be is of that kind; this passes through sequencing, so an operation fails in no other
way than its parts do. Calculations fail with a numeric error or because a number leaves its range.
-/
import Reckon.Proofs.Outcome

namespace Reckon

namespace Failure

/-- A decimal or a native number leaves its range. -/
def isRange : Failure → Bool
  | decimalRange | decimalOverflow | decimalInexact | decimalZeroDivision | nativeOverflow => true
  | _ => false

/-- A numeric error, or a number that leaves its range. -/
def isArithmetic : Failure → Bool
  | numeric _ => true
  | e => e.isRange

theorem isArithmetic_iff {e : Failure} : e.isArithmetic = true ↔ (∃ n, e = .numeric n) ∨ e.isRange = true := by
  cases e <;> simp [isArithmetic, isRange]

/-- A number that is short enough is named by the error. -/
theorem naming_of_width_le {n : Int} {e : NumericError} (h : Digits.width n.natAbs ≤ digitLimit) :
    naming n e = .numeric e := if_neg (Nat.not_lt.2 h)

end Failure

namespace Outcome

variable {α β : Type} {kind kind' : Failure → Prop}

theorem ok_bind (a : α) (f : α → Outcome β) : (.ok a >>= f) = f a := rfl

/-- A sequence fails with its first failing step. -/
theorem bind_eq_error {f : α → Outcome β} {x : Outcome α} {e : Failure} :
    x >>= f = .error e ↔ x = .error e ∨ ∃ a, x = .ok a ∧ f a = .error e := by
  cases x with
  | error e' =>
    refine ⟨fun h => .inl (congrArg Except.error (Except.error.inj h)), ?_⟩
    rintro (h | ⟨_, h, _⟩)
    · exact congrArg Except.error (Except.error.inj h)
    · cases h
  | ok a =>
    refine ⟨fun h => .inr ⟨a, rfl, h⟩, ?_⟩
    rintro (h | ⟨b, h, hb⟩)
    · cases h
    · obtain rfl := Except.ok.inj h
      exact hb

theorem map_eq_error {f : α → β} {x : Outcome α} {e : Failure} : x.map f = .error e ↔ x = .error e := by
  cases x with
  | error e' =>
    constructor <;> intro h <;> exact congrArg Except.error (Except.error.inj h)
  | ok a => exact iff_of_false nofun nofun

/-! ## Failing only in some ways -/

/-- Every failure of the outcome is of the kind. -/
def FailsOnly (kind : Failure → Prop) (x : Outcome α) : Prop := ∀ e, x = .error e → kind e

/-- The outcome fails as calculations do. -/
abbrev Arithmetic (x : Outcome α) : Prop := FailsOnly (·.isArithmetic = true) x

/-- The outcome fails only because a number leaves its range. -/
abbrev InRange (x : Outcome α) : Prop := FailsOnly (·.isRange = true) x

namespace FailsOnly

theorem ok (a : α) : FailsOnly kind (.ok a) := nofun

theorem error {e : Failure} (h : kind e) : FailsOnly kind (.error e : Outcome α) := by
  rintro _ ⟨⟩
  exact h

theorem mono {x : Outcome α} (hx : FailsOnly kind x) (h : ∀ e, kind e → kind' e) : FailsOnly kind' x :=
  fun e he => h e (hx e he)

theorem bind {x : Outcome α} {f : α → Outcome β} (hx : FailsOnly kind x)
    (hf : ∀ a, x = .ok a → FailsOnly kind (f a)) : FailsOnly kind (x >>= f) := by
  intro e he
  rcases bind_eq_error.1 he with h | ⟨a, h, ha⟩
  · exact hx e h
  · exact hf a h e ha

theorem map {x : Outcome α} {f : α → β} (hx : FailsOnly kind x) : FailsOnly kind (x.map f) :=
  fun e he => hx e (map_eq_error.1 he)

theorem ite {p : Prop} [Decidable p] {x y : Outcome α} (hx : p → FailsOnly kind x)
    (hy : ¬ p → FailsOnly kind y) : FailsOnly kind (if p then x else y) := by
  split
  · exact hx ‹_›
  · exact hy ‹_›

theorem foldlM {f : β → α → Outcome β} {as : List α} (h : ∀ a ∈ as, ∀ b, FailsOnly kind (f b a)) :
    ∀ b, FailsOnly kind (as.foldlM f b) := by
  induction as with
  | nil => exact fun b => .ok b
  | cons a as ih =>
    obtain ⟨ha, has⟩ := List.forall_mem_cons.1 h
    intro b
    rw [List.foldlM_cons]
    exact (ha b).bind fun b' _ => ih has b'

theorem mapM {f : α → Outcome β} {as : List α} (h : ∀ a ∈ as, FailsOnly kind (f a)) : FailsOnly kind (as.mapM f) := by
  induction as with
  | nil => exact .ok []
  | cons a as ih =>
    obtain ⟨ha, has⟩ := List.forall_mem_cons.1 h
    rw [List.mapM_cons]
    exact ha.bind fun b _ => (ih has).bind fun bs _ => .ok _

end FailsOnly

theorem arithmetic_fail (e : NumericError) : Arithmetic (fail e : Outcome α) := .error rfl

theorem InRange.arithmetic {x : Outcome α} (h : InRange x) : Arithmetic x :=
  h.mono fun _ hf => Failure.isArithmetic_iff.2 (.inr hf)

end Outcome

end Reckon
