/-
Equality of real numbers. A number other than NaN lies on the extended line of rationals: a finite one
where the best rational for it does, which is the exact one if there is one. Two numbers are equal exactly
if they lie at the same place.
-/
import Reckon.Number.Order
import Reckon.Proofs.Outcome

namespace Reckon

/-- The rationals with an element below and one above all of them. -/
abbrev ExtendedRat := WithBot (WithTop ℚ)

/-- A rational among the extended ones. -/
def ExtendedRat.finite (q : ℚ) : ExtendedRat := ((q : WithTop ℚ) : WithBot (WithTop ℚ))

theorem ExtendedRat.finite_inj {p q : ℚ} : finite p = finite q ↔ p = q := by
  rw [finite, finite, WithBot.coe_inj, WithTop.coe_inj]

namespace Real

/-! ## The rational of a number -/

theorem isNaN_of_exactRat? {x : Real} {q : ℚ} (h : x.exactRat? = some q) : x.isNaN = false := by
  cases x <;> first | rfl | cases h

theorem toRat?_of_exactRat? {x : Real} {q : ℚ} (h : x.exactRat? = some q) : x.toRat? = some q := by
  unfold toRat?
  rw [h]

theorem toRat_eq_ok_iff {x : Real} {q : ℚ} : x.toRat = .ok q ↔ x.toRat? = some q := by
  unfold toRat
  cases x.toRat? with
  | none => exact iff_of_false nofun nofun
  | some p => exact ⟨fun h => congrArg some (Except.ok.inj h), fun h => congrArg Except.ok (Option.some.inj h)⟩

/-! ## Places on the extended line -/

/-- Where a number lies on the extended line; NaN lies nowhere. -/
def place? : Real → Option ExtendedRat
  | infinite negative => some (if negative then ⊥ else ⊤)
  | x => x.toRat?.map .finite

/-- A number other than NaN is an infinity or stands for a rational. -/
theorem infinite_or_toRat? {x : Real} (h : x.isNaN = false) : (∃ s, x = infinite s) ∨ ∃ q, x.toRat? = some q := by
  cases x with
  | infinite s => exact .inl ⟨s, rfl⟩
  | nan => cases h
  | recurring d =>
    right
    unfold toRat?
    cases (recurring d).exactRat? with
    | none => exact ⟨_, rfl⟩
    | some q => exact ⟨q, rfl⟩
  | _ => exact .inr ⟨_, rfl⟩

theorem place?_of_toRat? {x : Real} {q : ℚ} (h : x.toRat? = some q) : x.place? = some (.finite q) := by
  cases x with
  | infinite s => cases h
  | nan => cases h
  | _ => exact congrArg (Option.map ExtendedRat.finite) h

theorem isInfinite_of_toRat? {x : Real} {q : ℚ} (h : x.toRat? = some q) : x.isInfinite = false := by
  cases x <;> first | rfl | cases h

/-- A number other than NaN has a place. -/
theorem exists_place? {x : Real} (h : x.isNaN = false) : ∃ p, x.place? = some p := by
  obtain ⟨s, rfl⟩ | ⟨q, hq⟩ := infinite_or_toRat? h
  · exact ⟨_, rfl⟩
  · exact ⟨_, place?_of_toRat? hq⟩

theorem place?_infinite_inj {s t : Bool} : (infinite s).place? = (infinite t).place? ↔ s = t := by
  cases s <;> cases t <;> simp [place?]

theorem place?_infinite_ne {s : Bool} {x : Real} {q : ℚ} (h : x.toRat? = some q) : (infinite s).place? ≠ x.place? := by
  rw [place?_of_toRat? h]
  cases s <;> simp [place?, ExtendedRat.finite]

theorem place?_inj {x y : Real} {p q : ℚ} (hx : x.toRat? = some p) (hy : y.toRat? = some q) :
    x.place? = y.place? ↔ p = q := by
  rw [place?_of_toRat? hx, place?_of_toRat? hy, Option.some_inj, ExtendedRat.finite_inj]

/-! ## Equality -/

theorem equals_of_toRat? {a b : Real} {p q : ℚ} (ha : a.toRat? = some p) (hb : b.toRat? = some q) :
    a.equals b = .ok (p == q) := by
  have hra := toRat_eq_ok_iff.2 ha
  have hrb := toRat_eq_ok_iff.2 hb
  cases a <;> cases b <;> first | cases ha; done | cases hb; done | skip
  all_goals
    unfold equals
    rw [hra, hrb]
    rfl

theorem equals_of_exactRat? {a b : Real} {p q : ℚ} (ha : a.exactRat? = some p) (hb : b.exactRat? = some q) :
    a.equals b = .ok (p == q) := equals_of_toRat? (toRat?_of_exactRat? ha) (toRat?_of_exactRat? hb)

/-- Two numbers that stand for rationals are equal exactly if the rationals are. -/
theorem equals_ofReal_of_exactRat? {a b : Real} {p q : ℚ} (ha : a.exactRat? = some p) (hb : b.exactRat? = some q) :
    Number.equals (.ofReal a) (.ofReal b) = .ok (p == q) := by
  have hzero : Real.equals .zero .zero = .ok true := by with_unfolding_all decide
  show (if a.isNaN || b.isNaN then Except.ok false
    else do if ← a.equals b then Real.equals .zero .zero else .ok false) = _
  rw [isNaN_of_exactRat? ha, isNaN_of_exactRat? hb, equals_of_exactRat? ha hb, hzero]
  cases p == q <;> rfl

/-- Numbers other than NaN are equal exactly if they lie at the same place. -/
theorem equals_eq_decide {a b : Real} (ha : a.isNaN = false) (hb : b.isNaN = false) :
    a.equals b = .ok (decide (a.place? = b.place?)) := by
  obtain ⟨s, rfl⟩ | ⟨p, hp⟩ := infinite_or_toRat? ha <;> obtain ⟨t, rfl⟩ | ⟨q, hq⟩ := infinite_or_toRat? hb
  · rw [decide_eq_decide.2 place?_infinite_inj]
    exact congrArg Except.ok (Bool.beq_eq_decide_eq s t)
  · rw [decide_eq_false (place?_infinite_ne hq)]
    cases b <;> first | rfl | cases hq
  · rw [decide_eq_false (place?_infinite_ne hp).symm]
    cases a <;> first | rfl | cases hp
  · rw [equals_of_toRat? hp hq, decide_eq_decide.2 (place?_inj hp hq), Bool.beq_eq_decide_eq]

end Real

end Reckon
