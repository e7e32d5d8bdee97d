/-
The order of numbers. Integers and real numbers other than NaN are ordered by their places on the
extended line, so the order is total, agrees with equality and puts the infinities at the ends; whether
an integer is compared as such or after its promotion makes no difference.
-/
import Reckon.Proofs.Number.Equality

namespace Reckon

namespace ExtendedRat

theorem finite_strictMono : StrictMono finite := fun _ _ h => WithBot.coe_lt_coe.2 (WithTop.coe_lt_coe.2 h)

theorem bot_lt_finite (q : ℚ) : ⊥ < finite q := WithBot.bot_lt_coe _

theorem finite_lt_top (q : ℚ) : finite q < ⊤ := WithBot.coe_lt_coe.2 (WithTop.coe_lt_top q)

end ExtendedRat

namespace Real

open ExtendedRat

theorem compare_of_toRat? {a b : Real} {p q : ℚ} (ha : a.toRat? = some p) (hb : b.toRat? = some q) :
    a.compare b = .ok (cmp p q) := by
  unfold compare
  rw [isInfinite_of_toRat? ha, isInfinite_of_toRat? hb, toRat_eq_ok_iff.2 ha, toRat_eq_ok_iff.2 hb]
  rfl

/-- The order of numbers other than NaN is that of their places. -/
theorem compare_eq_cmp {a b : Real} {p q : ExtendedRat} (ha : a.place? = some p) (hb : b.place? = some q) :
    a.compare b = .ok (cmp p q) := by
  have hnan : ∀ {x : Real} {r : ExtendedRat}, x.place? = some r → x.isNaN = false := fun {x r} h => by
    cases x <;> first | rfl | cases h
  have hregion : ∀ {x : Real} {r : ℚ}, x.toRat? = some r → x.region = 0 := fun {x r} h => by
    cases x <;> first | rfl | cases h
  obtain ⟨s, rfl⟩ | ⟨p', hp⟩ := infinite_or_toRat? (hnan ha) <;> obtain ⟨t, rfl⟩ | ⟨q', hq⟩ := infinite_or_toRat? (hnan hb)
  · obtain rfl := Option.some.inj ha
    obtain rfl := Option.some.inj hb
    cases s <;> cases t <;> decide
  · obtain rfl := Option.some.inj ha
    obtain rfl := Option.some.inj ((place?_of_toRat? hq).symm.trans hb)
    unfold compare
    rw [show (infinite s).isInfinite = true from rfl, hregion hq]
    cases s with
    | false => exact congrArg Except.ok ((cmp_eq_gt_iff _ _).2 (finite_lt_top q')).symm
    | true => exact congrArg Except.ok ((cmp_eq_lt_iff _ _).2 (bot_lt_finite q')).symm
  · obtain rfl := Option.some.inj hb
    obtain rfl := Option.some.inj ((place?_of_toRat? hp).symm.trans ha)
    unfold compare
    rw [show (infinite t).isInfinite = true from rfl, Bool.or_true, hregion hp]
    cases t with
    | false => exact congrArg Except.ok ((cmp_eq_lt_iff _ _).2 (finite_lt_top p')).symm
    | true => exact congrArg Except.ok ((cmp_eq_gt_iff _ _).2 (bot_lt_finite p')).symm
  · obtain rfl := Option.some.inj ((place?_of_toRat? hp).symm.trans ha)
    obtain rfl := Option.some.inj ((place?_of_toRat? hq).symm.trans hb)
    rw [compare_of_toRat? hp hq, finite_strictMono.cmp_map_eq]

end Real

namespace Number

variable {a b : Number} {p q : ExtendedRat}

/-- Integers, and real numbers other than NaN. -/
def isOrdered : Number → Bool
  | integer _ => true
  | scalar (.real x) => !x.isNaN
  | scalar (.complex ..) => false

/-- Where an ordered number lies on the extended line. -/
def place? : Number → Option ExtendedRat
  | integer n => some (.finite n.value)
  | scalar (.real x) => x.place?
  | scalar (.complex ..) => none

theorem exists_place? (h : a.isOrdered = true) : ∃ p, a.place? = some p := by
  match a, h with
  | integer n, _ => exact ⟨_, rfl⟩
  | scalar (.real x), h => exact Real.exists_place? (by simpa [isOrdered] using h)

theorem exists_real_of_place? (h : a.place? = some p) : ∃ x, a.toScalar = .real x ∧ x.place? = some p := by
  match a, h with
  | integer n, h => exact ⟨_, rfl, (Real.place?_of_toRat? (Real.toRat?_ofInt n.value)).trans h⟩
  | scalar (.real x), h => exact ⟨x, rfl, h⟩

/-- Promotion leaves a number where it is. -/
theorem place?_toScalar (a : Number) : (scalar a.toScalar).place? = a.place? := by
  match a with
  | integer n => exact Real.place?_of_toRat? (Real.toRat?_ofInt n.value)
  | scalar z => rfl

theorem exists_finite_place? (h : a.toScalar.isReal = true) : ∃ q, a.place? = some (.finite q) := by
  rw [← place?_toScalar]
  match a.toScalar, h with
  | .real x, h =>
    have hnan : x.isNaN = false := by cases x <;> first | rfl | cases h
    obtain ⟨s, rfl⟩ | ⟨q, hq⟩ := Real.infinite_or_toRat? hnan
    · cases h
    · exact ⟨q, Real.place?_of_toRat? hq⟩

theorem isNaN_of_place? {x : Real} (h : x.place? = some p) : x.isNaN = false := by
  cases x <;> first | rfl | cases h

theorem hasNaN_of_place? (h : a.place? = some p) : a.hasNaN = false := by
  match a, h with
  | integer n, _ => rfl
  | scalar (.real x), h => exact isNaN_of_place? h

theorem point?_of_place? (h : a.place? = some p) : a.point? = some (p, .finite 0) := by
  match a, h with
  | integer n, h => exact congrArg (Option.map fun r => (r, ExtendedRat.finite 0)) h
  | scalar (.real x), h => exact congrArg (Option.map fun r => (r, ExtendedRat.finite 0)) h

theorem equals_iff_of_place? (ha : a.place? = some p) (hb : b.place? = some q) : a.equals b = .ok true ↔ p = q := by
  rw [equals_eq_ok_true_iff (hasNaN_of_place? ha) (hasNaN_of_place? hb), point?_of_place? ha, point?_of_place? hb]
  simp

theorem compare_of_real {x y : Real} (ha : a.toScalar = .real x) (hb : b.toScalar = .real y) (hx : x.isNaN = false)
    (hy : y.isNaN = false) : compare (.scalar a.toScalar) (.scalar b.toScalar) = x.compare y := by
  rw [ha, hb]
  show (if x.isNaN || y.isNaN then fail .nanOperand else x.compare y) = _
  rw [hx, hy]
  rfl

theorem compare_integer (m n : Integer) :
    compare (integer m) (integer n) = .ok (cmp (ExtendedRat.finite m.value) (.finite n.value)) := by
  rw [ExtendedRat.finite_strictMono.cmp_map_eq, Int.cast_strictMono.cmp_map_eq]
  exact congrArg Except.ok (cmp_eq_compare m.value n.value).symm

/-- The order of numbers is that of their places. -/
theorem compare_eq_cmp (ha : a.place? = some p) (hb : b.place? = some q) : a.compare b = .ok (cmp p q) := by
  obtain ⟨x, hx, hxp⟩ := exists_real_of_place? ha
  obtain ⟨y, hy, hyq⟩ := exists_real_of_place? hb
  have hreal := (compare_of_real hx hy (isNaN_of_place? hxp) (isNaN_of_place? hyq)).trans (Real.compare_eq_cmp hxp hyq)
  match a, b, ha, hb with
  | integer m, integer n, ha, hb =>
    obtain rfl := Option.some.inj ha
    obtain rfl := Option.some.inj hb
    exact compare_integer m n
  | integer m, scalar z, _, _ => exact hreal
  | scalar z, _, _, _ => exact hreal

theorem orderNumber_swap (o : Ordering) : orderNumber o.swap = -orderNumber o := by cases o <;> rfl

theorem orderNumber_eq_zero_iff (o : Ordering) : orderNumber o = 0 ↔ o = .eq := by cases o <;> decide

/-- The order of integers and real numbers is total. It is antisymmetric and transitive, two numbers
compare as equal exactly if they are, the infinities lie at the ends, and integers compare as their
promotions do. -/
theorem compare_totalOrder :
    (∀ a b : Number, a.isOrdered = true → b.isOrdered = true → ∃ o, a.compare b = .ok o ∧ b.compare a = .ok o.swap ∧
      orderNumber o.swap = -orderNumber o ∧ (orderNumber o = 0 ↔ a.equals b = .ok true)) ∧
    (∀ a b c : Number, a.isOrdered = true → b.isOrdered = true → c.isOrdered = true → ∀ o o', a.compare b = .ok o →
      b.compare c = .ok o' → o ≠ .gt → o' ≠ .gt →
        ∃ o'', a.compare c = .ok o'' ∧ o'' ≠ .gt ∧ (o'' = .eq → o = .eq ∧ o' = .eq)) ∧
    (∀ a : Number, a.toScalar.isReal = true →
      (ofReal (.infinite true)).compare a = .ok .lt ∧ (ofReal (.infinite false)).compare a = .ok .gt) ∧
    ∀ m n : Integer, (integer m).compare (integer n) =
      (scalar (integer m).toScalar).compare (scalar (integer n).toScalar) := by
  refine ⟨fun a b ha hb => ?_, fun a b c ha hb hc o o' hab hbc ho ho' => ?_, fun a ha => ?_, fun m n => ?_⟩
  · obtain ⟨p, hp⟩ := exists_place? ha
    obtain ⟨q, hq⟩ := exists_place? hb
    refine ⟨cmp p q, compare_eq_cmp hp hq, ?_, orderNumber_swap _, ?_⟩
    · rw [cmp_swap]
      exact compare_eq_cmp hq hp
    · rw [orderNumber_eq_zero_iff, cmp_eq_eq_iff, equals_iff_of_place? hp hq]
  -- transitivity comes from the order of the places
  · obtain ⟨p, hp⟩ := exists_place? ha
    obtain ⟨q, hq⟩ := exists_place? hb
    obtain ⟨r, hr⟩ := exists_place? hc
    rw [compare_eq_cmp hp hq] at hab
    rw [compare_eq_cmp hq hr] at hbc
    obtain rfl := Except.ok.inj hab
    obtain rfl := Except.ok.inj hbc
    rw [Ne, cmp_eq_gt_iff, not_lt] at ho ho'
    refine ⟨cmp p r, compare_eq_cmp hp hr, ?_, fun heq => ?_⟩
    · rw [Ne, cmp_eq_gt_iff, not_lt]
      exact ho.trans ho'
    · rw [cmp_eq_eq_iff] at heq ⊢
      rw [cmp_eq_eq_iff]
      subst heq
      exact ⟨le_antisymm ho ho', le_antisymm ho' ho⟩
  · obtain ⟨q, hq⟩ := exists_finite_place? ha
    rw [compare_eq_cmp (a := ofReal (.infinite true)) rfl hq, compare_eq_cmp (a := ofReal (.infinite false)) rfl hq]
    exact ⟨congrArg Except.ok ((cmp_eq_lt_iff _ _).2 (ExtendedRat.bot_lt_finite q)),
      congrArg Except.ok ((cmp_eq_gt_iff _ _).2 (ExtendedRat.finite_lt_top q))⟩
  · rw [compare_integer, compare_eq_cmp (place?_toScalar (integer m)) (place?_toScalar (integer n))]

/-- A third, an approximate half and the integer one stand in this order, below infinity. -/
theorem compare_totalOrder_third : ∃ third half : Number,
    third = .ofReal (.recurring ⟨false, 3333, -4⟩) ∧ half = .ofReal (.irrational ⟨false, 5, -1⟩) ∧
      third.compare half = .ok .lt ∧ half.compare (.ofInt 1) = .ok .lt ∧
      (∃ o, third.compare (.ofInt 1) = .ok o ∧ o ≠ .gt ∧ (o = .eq → Ordering.lt = .eq ∧ Ordering.lt = .eq)) ∧
      (∃ o, half.compare third = .ok o ∧ third.compare half = .ok o.swap ∧ orderNumber o.swap = -orderNumber o ∧
        (orderNumber o = 0 ↔ half.equals third = .ok true)) ∧
      (ofReal (.infinite false)).compare third = .ok .gt := by
  have hlow : compare (.ofReal (.recurring ⟨false, 3333, -4⟩)) (.ofReal (.irrational ⟨false, 5, -1⟩)) = .ok .lt := by
    decide +kernel
  have hhigh : compare (.ofReal (.irrational ⟨false, 5, -1⟩)) (.ofInt 1) = .ok .lt := by decide +kernel
  exact ⟨_, _, rfl, rfl, hlow, hhigh,
    compare_totalOrder.2.1 _ _ _ rfl rfl rfl .lt .lt hlow hhigh (by decide) (by decide),
    compare_totalOrder.1 _ _ rfl rfl, (compare_totalOrder.2.2.1 (.ofReal (.recurring ⟨false, 3333, -4⟩)) rfl).2⟩

end Number

end Reckon
