/-
Sequencing of operations that can fail: a result of a composition is a result of its parts.
-/
import Reckon.Failure
import Mathlib

namespace Reckon.Outcome

variable {α β : Type}

theorem map_eq_ok {f : α → β} {x : Outcome α} {b : β} : x.map f = .ok b ↔ ∃ a, x = .ok a ∧ f a = b := by
  cases x with
  | error e => exact iff_of_false nofun fun ⟨_, h, _⟩ => nomatch h
  | ok a =>
    constructor
    · intro h
      exact ⟨a, rfl, Except.ok.inj h⟩
    · rintro ⟨a, h, rfl⟩
      obtain rfl := Except.ok.inj h
      rfl

theorem bind_eq_ok {f : α → Outcome β} {x : Outcome α} {b : β} :
    x >>= f = .ok b ↔ ∃ a, x = .ok a ∧ f a = .ok b := by
  cases x with
  | error e => exact iff_of_false nofun fun ⟨_, h, _⟩ => nomatch h
  | ok a =>
    constructor
    · intro h
      exact ⟨a, rfl, h⟩
    · rintro ⟨a, h, hb⟩
      obtain rfl := Except.ok.inj h
      exact hb

end Reckon.Outcome
