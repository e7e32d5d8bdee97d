/-
How arithmetic on real numbers meets NaN. An operation that reads the digits of NaN is refused. A sum or
a product with an infinity is settled without the digits of the other operand, so it is not. Nothing else
is refused, and no sum, difference or product of real numbers is NaN.
-/
import Reckon.Proofs.Real.Combination
import Reckon.Proofs.Real.Failures

namespace Reckon

namespace Outcome

variable {α β : Type}

/-- The operation is not defined on its operands: they have an invalid format. -/
def Refused (x : Outcome α) : Prop := ∃ e : NumericError, x = .error (.numeric e) ∧ e.code = .invalidFormat

/-- There is a result. -/
def Succeeds (x : Outcome α) : Prop := ∃ a, x = .ok a

theorem error_bind (e : Failure) (f : α → Outcome β) : (.error e >>= f) = .error e := rfl

theorem not_refused_ok (a : α) : ¬ Refused (.ok a) := nofun

theorem refused_fail_iff {e : NumericError} : Refused (fail e : Outcome α) ↔ e.code = .invalidFormat := by
  constructor
  · rintro ⟨_, h, hcode⟩
    obtain rfl := Failure.numeric.inj (Except.error.inj h)
    exact hcode
  · exact fun hcode => ⟨e, rfl, hcode⟩

theorem refused_map_iff {f : α → β} {x : Outcome α} : Refused (x.map f) ↔ Refused x := by
  unfold Refused
  simp only [map_eq_error]

/-- A sequence is refused by its first step, or by the rest of it after a result. -/
theorem refused_bind_iff {f : α → Outcome β} {x : Outcome α} :
    Refused (x >>= f) ↔ Refused x ∨ ∃ a, x = .ok a ∧ Refused (f a) := by
  constructor
  · rintro ⟨e, h, hcode⟩
    rcases bind_eq_error.1 h with hx | ⟨a, ha, hf⟩
    · exact .inl ⟨e, hx, hcode⟩
    · exact .inr ⟨a, ha, e, hf, hcode⟩
  · rintro (⟨e, h, hcode⟩ | ⟨a, ha, e, h, hcode⟩)
    · exact ⟨e, bind_eq_error.2 (.inl h), hcode⟩
    · exact ⟨e, bind_eq_error.2 (.inr ⟨a, ha, h⟩), hcode⟩

/-- If the rest of a sequence is refused or not whatever the result of its first step. -/
theorem refused_bind_of_forall {f : α → Outcome β} {x : Outcome α} {p : Prop}
    (h : ∀ a, x = .ok a → (Refused (f a) ↔ p)) : Refused (x >>= f) ↔ Refused x ∨ Succeeds x ∧ p := by
  rw [refused_bind_iff]
  refine or_congr_right ⟨?_, ?_⟩
  · rintro ⟨a, ha, hf⟩
    exact ⟨⟨a, ha⟩, (h a ha).1 hf⟩
  · rintro ⟨⟨a, ha⟩, hp⟩
    exact ⟨a, ha, (h a ha).2 hp⟩

theorem refused_bind_of_not_refused {f : α → Outcome β} {x : Outcome α} (h : ∀ a, x = .ok a → ¬ Refused (f a)) :
    Refused (x >>= f) ↔ Refused x := by
  rw [refused_bind_of_forall fun a ha => iff_false_intro (h a ha), and_false, or_false]

/-- A number that leaves its range is no reason to refuse. -/
theorem InRange.not_refused {x : Outcome α} (h : InRange x) : ¬ Refused x := by
  rintro ⟨e, he, -⟩
  exact Bool.false_ne_true (h _ he)

end Outcome

open Outcome

/-! ## Finite numbers -/

namespace Real

theorem isFinite_iff (x : Real) : x.isFinite = true ↔ x.isNaN = false ∧ x.isInfinite = false := by
  cases x <;> simp [isFinite, decimal?, isNaN, isInfinite]

/-- A finite number has digits. -/
theorem exists_decimal {x : Real} (h : x.isFinite = true) : ∃ d, x.decimal = .ok d := by
  obtain ⟨d, hd⟩ := Option.isSome_iff_exists.1 h
  exact ⟨d, by rw [decimal, hd]⟩

theorem ofApproximation_range (d : Decimal) : InRange (ofApproximation d) :=
  .bind (Decimal.truncate_range _ _) fun _ _ => .ok _

theorem ofInexact_range (d : Decimal) (isIrrational : Bool) : InRange (ofInexact d isIrrational) :=
  .ite (fun _ => ofApproximation_range _) fun _ => .ok _

theorem isFinite_of_not_infinite {x : Real} (hnan : x.isNaN = false) (h : ∀ negative, x ≠ infinite negative) :
    x.isFinite = true := by
  cases x <;> first | rfl | cases hnan; done | exact (h _ rfl).elim

theorem isFinite_of_ofRat {q : ℚ} {z : Real} (h : ofRat q = .ok z) : z.isFinite = true := by
  unfold ofRat ofRatWithin at h
  split at h
  · obtain ⟨d, -, rfl⟩ := map_eq_ok.1 h
    rfl
  · obtain rfl := Except.ok.inj h
    rfl

theorem isFinite_of_ofApproximation {d : Decimal} {z : Real} (h : ofApproximation d = .ok z) : z.isFinite = true := by
  obtain ⟨r, -, hz⟩ := bind_eq_ok.1 h
  obtain rfl := Except.ok.inj hz
  split <;> rfl

theorem isFinite_of_ofInexact {d : Decimal} {isIrrational : Bool} {z : Real} (h : ofInexact d isIrrational = .ok z) :
    z.isFinite = true := by
  unfold ofInexact at h
  split at h
  · exact isFinite_of_ofApproximation h
  · obtain rfl := Except.ok.inj h
    rfl

/-! ## Combining finite numbers -/

section

variable {a b z : Real} {exact : ℚ → ℚ → ℚ} {stored : Decimal → Decimal → Outcome Decimal}

theorem isFinite_of_combine (h : combine exact stored a b = .ok z) : z.isFinite = true := by
  unfold combine at h
  split at h
  · exact isFinite_of_ofRat h
  · obtain ⟨c, -, h⟩ := bind_eq_ok.1 h
    obtain ⟨d, -, h⟩ := bind_eq_ok.1 h
    obtain ⟨r, -, h⟩ := bind_eq_ok.1 h
    exact isFinite_of_ofInexact h

theorem combine_range (hstored : ∀ c d, InRange (stored c d)) (ha : a.isFinite = true) (hb : b.isFinite = true) :
    InRange (combine exact stored a b) := by
  obtain ⟨c, hc⟩ := exists_decimal ha
  obtain ⟨d, hd⟩ := exists_decimal hb
  unfold combine
  split
  · exact ofRat_range _
  · rw [hc, hd]
    refine .bind (.ok c) fun _ hc => .bind (.ok d) fun _ hd => .bind (hstored _ _) fun _ _ => ofInexact_range _ _

/-- The digits of NaN are refused. -/
theorem refused_combine (h : a.isNaN = true ∨ b.isNaN = true ∧ a.isFinite = true) : Refused (combine exact stored a b) := by
  rcases h with hnan | ⟨hnan, hfinite⟩
  · obtain rfl : a = nan := by cases a <;> first | rfl | cases hnan
    exact ⟨.noDecimal .nan, rfl, rfl⟩
  · obtain rfl : b = nan := by cases b <;> first | rfl | cases hnan
    obtain ⟨d, hd⟩ := exists_decimal hfinite
    unfold combine
    rw [hd]
    cases a.exactRat? <;> exact ⟨.noDecimal .nan, rfl, rfl⟩

end

/-! ## Sums, differences and products -/

/-- An operand is NaN, and the other one is no infinity that settles the result. -/
def MeetsNaN (a b : Real) : Prop := a.isNaN = true ∧ b.isInfinite = false ∨ b.isNaN = true ∧ a.isInfinite = false

theorem not_meetsNaN {a b : Real} (ha : a.isNaN = false) (hb : b.isNaN = false) : ¬ MeetsNaN a b := by
  rintro (⟨h, -⟩ | ⟨h, -⟩)
  · exact Bool.false_ne_true (ha.symm.trans h)
  · exact Bool.false_ne_true (hb.symm.trans h)

/-- The operation combines the decimals of numbers that are not infinite, and an infinity settles it. -/
structure Combines (op : Outcome Real) (a b : Real) : Prop where
  finite : a.isInfinite = false → b.isInfinite = false → ∃ (exact : ℚ → ℚ → ℚ) (stored : Decimal → Decimal → Outcome Decimal),
    (∀ c d, InRange (stored c d)) ∧ op = combine exact stored a b
  infinite : a.isInfinite = true ∨ b.isInfinite = true → (∃ s, op = .ok (.infinite s)) ∨ op = fail .oppositeInfinities

section

variable {a b z : Real}

theorem isInfinite_neg (x : Real) : x.neg.isInfinite = x.isInfinite := by cases x <;> rfl

theorem isNaN_neg (x : Real) : x.neg.isNaN = x.isNaN := by cases x <;> rfl

theorem add_infinite (s t : Bool) :
    (∃ u, (infinite s).add (infinite t) = .ok (infinite u)) ∨ (infinite s).add (infinite t) = fail .oppositeInfinities := by
  change (∃ u, (if s = t then _ else _) = _) ∨ (if s = t then _ else _) = _
  split
  · exact .inl ⟨s, rfl⟩
  · exact .inr rfl

theorem combines_add (a b : Real) : Combines (a.add b) a b where
  finite ha hb := ⟨_, _, fun _ _ => Decimal.fit_range _, add_of_not_infinite ha hb⟩
  infinite h := by
    cases a <;> cases b <;> first | exact add_infinite _ _ | exact .inl ⟨_, rfl⟩ | exact (h.elim nofun nofun)

theorem sub_of_infinite (h : a.isInfinite = true ∨ b.isInfinite = true) : a.sub b = a.add b.neg := by
  unfold sub
  rw [if_pos (by rwa [Bool.or_eq_true])]

theorem mul_of_infinite (h : a.isInfinite = true ∨ b.isInfinite = true) :
    a.mul b = .ok (.infinite (a.isNegative != b.isNegative)) := by
  unfold mul
  rw [if_pos (by rwa [Bool.or_eq_true])]

theorem combines_sub (a b : Real) : Combines (a.sub b) a b where
  finite ha hb := ⟨_, _, fun _ _ => Decimal.fit_range _, sub_of_not_infinite ha hb⟩
  infinite h := by
    rw [sub_of_infinite h]
    exact (combines_add a b.neg).infinite (by rwa [isInfinite_neg])

theorem combines_mul (a b : Real) : Combines (a.mul b) a b where
  finite ha hb := ⟨_, _, fun _ _ => Decimal.fit_range _, mul_of_not_infinite ha hb⟩
  infinite h := .inl ⟨_, mul_of_infinite h⟩

namespace Combines

variable {op : Outcome Real}

/-- An operation is refused exactly if it meets NaN. -/
theorem refused_iff (hop : Combines op a b) : Refused op ↔ MeetsNaN a b := by
  -- an infinity settles the result before the other operand is looked at
  by_cases h : a.isInfinite = true ∨ b.isInfinite = true
  · have hsettled : ¬ Refused op := by
      rcases hop.infinite h with ⟨s, hs⟩ | hs
      · rw [hs]
        exact not_refused_ok _
      · rw [hs, refused_fail_iff]
        decide
    refine iff_of_false hsettled ?_
    rintro (⟨hnan, hb⟩ | ⟨hnan, ha⟩)
    · cases a <;> first | cases hnan; done | exact h.elim nofun fun h => Bool.false_ne_true (hb.symm.trans h)
    · cases b <;> first | cases hnan; done | exact h.elim (fun h => Bool.false_ne_true (ha.symm.trans h)) nofun
  · rw [not_or, Bool.not_eq_true, Bool.not_eq_true] at h
    obtain ⟨ha, hb⟩ := h
    obtain ⟨exact, stored, hstored, rfl⟩ := hop.finite ha hb
    rw [MeetsNaN, and_iff_left hb, and_iff_left ha]
    constructor
    · intro hrefused
      by_contra hnan
      rw [not_or, Bool.not_eq_true, Bool.not_eq_true] at hnan
      exact (combine_range hstored ((isFinite_iff a).2 ⟨hnan.1, ha⟩) ((isFinite_iff b).2 ⟨hnan.2, hb⟩)).not_refused
        hrefused
    · intro hnan
      cases hfirst : a.isNaN with
      | true => exact refused_combine (.inl hfirst)
      | false =>
        rw [hfirst, or_iff_right Bool.false_ne_true] at hnan
        exact refused_combine (.inr ⟨hnan, (isFinite_iff a).2 ⟨hfirst, ha⟩⟩)

theorem not_refused (hop : Combines op a b) (ha : a.isNaN = false) (hb : b.isNaN = false) : ¬ Refused op := by
  rw [hop.refused_iff]
  exact not_meetsNaN ha hb

theorem isFinite (hop : Combines op a b) (ha : a.isInfinite = false) (hb : b.isInfinite = false) (h : op = .ok z) :
    z.isFinite = true := by
  obtain ⟨exact, stored, -, rfl⟩ := hop.finite ha hb
  exact isFinite_of_combine h

/-- No result is NaN. -/
theorem isNaN (hop : Combines op a b) (h : op = .ok z) : z.isNaN = false := by
  by_cases hinfinite : a.isInfinite = true ∨ b.isInfinite = true
  · rcases hop.infinite hinfinite with ⟨s, hs⟩ | hs
    · obtain rfl := Except.ok.inj (hs.symm.trans h)
      rfl
    · exact nomatch hs.symm.trans h
  · rw [not_or, Bool.not_eq_true, Bool.not_eq_true] at hinfinite
    exact ((isFinite_iff z).1 (hop.isFinite hinfinite.1 hinfinite.2 h)).1

end Combines

/-- A product that does not meet NaN fails only because it leaves the range of decimals. -/
theorem mul_range (h : ¬ MeetsNaN a b) : InRange (a.mul b) := by
  by_cases hinfinite : a.isInfinite = true ∨ b.isInfinite = true
  · rw [mul_of_infinite hinfinite]
    exact .ok _
  · rw [not_or, Bool.not_eq_true, Bool.not_eq_true] at hinfinite
    obtain ⟨ha, hb⟩ := hinfinite
    rw [MeetsNaN, and_iff_left hb, and_iff_left ha, not_or, Bool.not_eq_true, Bool.not_eq_true] at h
    rw [mul_of_not_infinite ha hb]
    exact combine_range (fun _ _ => Decimal.fit_range _) ((isFinite_iff a).2 ⟨h.1, ha⟩) ((isFinite_iff b).2 ⟨h.2, hb⟩)

/-! ## Quotients and remainders -/

theorem isFinite_of_quotient (h : a.quotient b = .ok z) : z.isFinite = true := by
  unfold quotient at h
  split at h
  · exact isFinite_of_ofRat h
  · obtain ⟨c, -, h⟩ := bind_eq_ok.1 h
    obtain ⟨d, -, h⟩ := bind_eq_ok.1 h
    obtain ⟨r, -, h⟩ := bind_eq_ok.1 h
    exact isFinite_of_ofInexact h

theorem isFinite_of_div (ha : a.isInfinite = false) (h : a.div b = .ok z) : z.isFinite = true := by
  unfold div at h
  split at h
  · cases h
  · simp only at h
    split at h
    · cases ha
    · cases ha
    · obtain rfl := Except.ok.inj h
      rfl
    · exact isFinite_of_quotient h

/-- Only NaN is refused as an operand of a division. -/
theorem not_refused_div (ha : a.isNaN = false) (hb : b.isNaN = false) : ¬ Refused (a.div b) := by
  unfold div
  split
  · rw [refused_fail_iff]
    decide
  · simp only
    split
    · exact not_refused_ok _
    · exact not_refused_ok _
    · exact not_refused_ok _
    · rename_i hinfinite hinfinite' _
      obtain ⟨c, hc⟩ := exists_decimal (isFinite_of_not_infinite ha hinfinite)
      obtain ⟨d, hd⟩ := exists_decimal (isFinite_of_not_infinite hb hinfinite')
      refine InRange.not_refused ?_
      unfold quotient
      split
      · exact ofRat_range _
      · rw [hc, hd]
        exact .bind (.ok c) fun _ _ => .bind (.ok d) fun _ _ => .bind (Decimal.make_range _ _ _) fun _ _ =>
          ofInexact_range _ _

/-- Only NaN is refused as an operand of a remainder. -/
theorem not_refused_mod (ha : a.isNaN = false) (hb : b.isNaN = false) : ¬ Refused (a.mod b) := by
  unfold mod
  split
  · rw [refused_fail_iff]
    decide
  · split
    · exact not_refused_ok _
    · exact not_refused_ok _
    · rename_i hinfinite hinfinite'
      obtain ⟨c, hc⟩ := exists_decimal (isFinite_of_not_infinite ha hinfinite)
      obtain ⟨d, hd⟩ := exists_decimal (isFinite_of_not_infinite hb hinfinite')
      refine InRange.not_refused ?_
      split
      · exact ofRat_range _
      · rw [hc, hd]
        exact .bind (.ok c) fun _ _ => .bind (.ok d) fun _ _ => .bind (Decimal.remainderWithin_range _ _ _) fun _ _ =>
          ofInexact_range _ _

end

end Real

end Reckon
