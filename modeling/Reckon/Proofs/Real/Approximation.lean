/-
How accurate an approximation with a repeating operand is. The stored digits of the repeating value
are combined and the result is cut once, so two errors add up: what the cut drops and what the
digits stored for the repeating value lack of its rational. In a sum with an approximation that has
no more places than are kept only the lack counts. A short cycle is stored with a few digits only,
and then it is far above the precision.
-/
import Reckon.Proofs.Number.Parts
import Reckon.Proofs.Real.Recurring

namespace Reckon.Real

/-! ## Cutting an approximation -/

theorem toRat_irrational (d : Decimal) : (irrational d).toRat = .ok d.toRat := rfl

theorem toRat_big (d : Decimal) : (big d).toRat = .ok d.toRat := rfl

/-- Cutting to the precision always succeeds. -/
theorem exists_truncate (d : Decimal) : ∃ r, d.truncate precision = .ok r := by
  unfold Decimal.truncate
  split
  · exact ⟨d, rfl⟩
  · have hunit : Decimal.make false 1 (-precision) = .ok ⟨false, 1, -precision⟩ :=
      Decimal.make_eq_ok_iff.2 ⟨rfl, by with_unfolding_all decide⟩
    rw [hunit]
    exact ⟨_, rfl⟩

/-- An approximation always has a result, whose value is cut to the precision. -/
theorem ofApproximation_eq_ok (d : Decimal) :
    ∃ x, ofApproximation d = .ok x ∧ x.toRat = .ok (Decimal.cut precision d.toRat) := by
  obtain ⟨r, hr⟩ := exists_truncate d
  rw [← Decimal.toRat_truncate hr]
  unfold ofApproximation
  rw [hr]
  by_cases hf : r.hasFraction = true
  · exact ⟨.irrational r, by simp only [Except.bind, bind, if_pos hf], toRat_irrational r⟩
  · refine ⟨.big r.strip, by simp only [Except.bind, bind, if_neg hf], ?_⟩
    rw [toRat_big, Decimal.toRat_strip]

theorem combine_irrational_right (exact : ℚ → ℚ → ℚ) (stored : Decimal → Decimal → Outcome Decimal) (a b : Decimal) :
    combine exact stored (recurring b) (irrational a) = stored b a >>= ofApproximation := by
  unfold combine
  cases (recurring b).exactRat? <;> rfl

/-! ## Operations on numbers -/

/-- The result is a real number, and its value is at most a unit of the last kept place away from
the exact result on the values of the operands. -/
def KeepsPrecision (op : Number → Number → Outcome Number) (exact : ℚ → ℚ → ℚ) (x y : Real) : Prop :=
  ∃ p q z v, x.toRat = .ok p ∧ y.toRat = .ok q ∧ op (.ofReal x) (.ofReal y) = .ok (.ofReal z) ∧
    z.toRat = .ok v ∧ |v - exact p q| ≤ Decimal.tenPow (-precision)

/-- What cutting to the precision drops. -/
def dropped (q : ℚ) : ℚ := q - Decimal.cut precision q

theorem binary_ofReal (onIntegers : Int → Int → Outcome Int) (f : Real → Real → Outcome Real)
    (g : Scalar → Scalar → Outcome Scalar) {x y : Real} (hx : x.isNaN = false) (hy : y.isNaN = false) :
    Number.binary onIntegers (Scalar.binary f g) (.ofReal x) (.ofReal y) = (f x y).map .ofReal := by
  show ((Scalar.binary f g (.real x) (.real y)).map .scalar : Outcome Number) = _
  rw [Scalar.binary_real hx hy]
  cases f x y <;> rfl

theorem ofReal_injective {x y : Real} (h : Number.ofReal x = Number.ofReal y) : x = y :=
  Scalar.real.inj (Number.scalar.inj h)

/-- An operation that combines the stored digits and cuts is accurate exactly if the digits fit and
the dropped digits and the lacking ones together stay below a unit of the last place. -/
theorem keepsPrecision_iff {op : Number → Number → Outcome Number} {exact : ℚ → ℚ → ℚ} {x y : Real} {p q : ℚ}
    {stored : Decimal} (hx : x.toRat = .ok p) (hy : y.toRat = .ok q)
    (h : op (.ofReal x) (.ofReal y) = (stored.fit >>= ofApproximation).map Number.ofReal) :
    KeepsPrecision op exact x y ↔
      stored.Fits ∧ |dropped stored.toRat + (exact p q - stored.toRat)| ≤ Decimal.tenPow (-precision) := by
  -- the error of the cut and the lack of the stored digits make up the whole error
  have habs : |dropped stored.toRat + (exact p q - stored.toRat)| =
      |Decimal.cut precision stored.toRat - exact p q| := by
    rw [dropped, abs_sub_comm]
    congr 1
    ring
  rw [habs, ← Decimal.exists_fit_iff]
  constructor
  · rintro ⟨p', q', z, v, hp, hq, hok, hv, hle⟩
    obtain rfl := Except.ok.inj (hx.symm.trans hp)
    obtain rfl := Except.ok.inj (hy.symm.trans hq)
    obtain ⟨z', hz', hreal⟩ := Outcome.map_eq_ok.1 (h.symm.trans hok)
    obtain rfl := ofReal_injective hreal
    obtain ⟨r, hr, hcut⟩ := Outcome.bind_eq_ok.1 hz'
    obtain ⟨w, hw, hval⟩ := ofApproximation_eq_ok r
    obtain rfl := Except.ok.inj (hw.symm.trans hcut)
    rw [Decimal.toRat_fit hr] at hval
    obtain rfl := Except.ok.inj (hval.symm.trans hv)
    exact ⟨⟨r, hr⟩, hle⟩
  · rintro ⟨⟨r, hr⟩, hle⟩
    obtain ⟨w, hw, hval⟩ := ofApproximation_eq_ok r
    rw [Decimal.toRat_fit hr] at hval
    refine ⟨p, q, w, _, hx, hy, ?_, hval, hle⟩
    rw [h, hr]
    exact Outcome.map_eq_ok.2 ⟨w, hw, rfl⟩

/-! ## Sums with few places -/

theorem exists_units (d : Decimal) {e : ℤ} (h : e ≤ d.exponent) : ∃ n : ℤ, d.toRat = n * Decimal.tenPow e :=
  ⟨_, (Decimal.coefficientAt_mul_tenPow h).symm⟩

/-- What is dropped of a whole number of units is short of a unit of the last kept place by at
least one of them. -/
theorem abs_dropped_le {v : ℚ} {n e : ℤ} (he : e ≤ -precision) (hv : v = n * Decimal.tenPow e) :
    |dropped v| ≤ Decimal.tenPow (-precision) - Decimal.tenPow e := by
  obtain ⟨k, hk⟩ : ∃ k : Nat, precision = -e - k := ⟨(-e - precision).toNat, by omega⟩
  have habs : |v| = n.natAbs * Decimal.tenPow e := by
    rw [hv, abs_mul, abs_of_pos (Decimal.tenPow_pos e), Nat.cast_natAbs, Int.cast_abs]
  have hunit : Decimal.tenPow (-precision) = ((10 ^ k : Nat) : ℚ) * Decimal.tenPow e := by
    rw [← Decimal.tenPow_natCast, ← Decimal.tenPow_add, hk]
    congr 1
    omega
  have hfloor : ⌊|v| * Decimal.tenPow precision⌋₊ = n.natAbs / 10 ^ k := by
    rw [habs, mul_assoc, ← Decimal.tenPow_add, show e + precision = -(k : ℤ) by omega, Decimal.tenPow_neg_natCast,
      ← div_eq_mul_inv, Nat.floor_div_eq_div]
  have hdropped : dropped v = (if v < 0 then -1 else 1) * ((n.natAbs % 10 ^ k : Nat) * Decimal.tenPow e) := by
    have hmod : (n.natAbs : ℚ) = (n.natAbs / 10 ^ k : Nat) * ((10 ^ k : Nat) : ℚ) + (n.natAbs % 10 ^ k : Nat) := by
      exact_mod_cast (Nat.div_add_mod' n.natAbs (10 ^ k)).symm
    unfold dropped Decimal.cut
    conv_lhs => enter [1]; rw [← Decimal.sign_mul_abs v]
    rw [hfloor, hunit, habs, ← mul_sub, hmod]
    ring
  rw [hdropped, Decimal.abs_sign_mul,
    abs_of_nonneg (mul_nonneg (by positivity) (Decimal.tenPow_pos e).le), hunit, ← sub_one_mul]
  refine mul_le_mul_of_nonneg_right ?_ (Decimal.tenPow_pos e).le
  have hlt : n.natAbs % 10 ^ k + 1 ≤ 10 ^ k := Nat.mod_lt _ (by positivity)
  rw [le_sub_iff_add_le]
  exact_mod_cast hlt

/-- Where a sum has no more places than are kept, or its operand lacks at most a unit of its last
place, only the lack decides. -/
theorem abs_dropped_add_le_iff {v lack : ℚ} {n e : ℤ} (he : e ≤ -precision) (hv : v = n * Decimal.tenPow e)
    (h : e = -precision ∨ |lack| ≤ Decimal.tenPow e) :
    |dropped v + lack| ≤ Decimal.tenPow (-precision) ↔ |lack| ≤ Decimal.tenPow (-precision) := by
  have hdropped := abs_dropped_le he hv
  rcases h with rfl | hlack
  · rw [sub_self] at hdropped
    rw [abs_eq_zero.1 (le_antisymm hdropped (abs_nonneg _)), zero_add]
  · have hpos := Decimal.tenPow_pos e
    have hnonneg := abs_nonneg (dropped v)
    refine iff_of_true ?_ (by linarith)
    calc |dropped v + lack| ≤ |dropped v| + |lack| := abs_add_le _ _
      _ ≤ (Decimal.tenPow (-precision) - Decimal.tenPow e) + Decimal.tenPow e := add_le_add hdropped hlack
      _ = Decimal.tenPow (-precision) := sub_add_cancel _ _

/-- With an approximation that has no more places than are kept, whatever the signs of the operands
are in the sum. -/
theorem abs_dropped_add_lack_le_iff {a b : Decimal} {q lack : ℚ} (ha : -precision ≤ a.exponent)
    (hb : recurringRat? b = some q) (hlack : |lack| = |q - b.toRat|) (x y : ℤ) :
    |dropped (x * a.toRat + y * b.toRat) + lack| ≤ Decimal.tenPow (-precision) ↔
      |q - b.toRat| ≤ Decimal.tenPow (-precision) := by
  obtain ⟨n, hn⟩ := exists_units a (le_trans (min_le_right b.exponent (-precision)) ha)
  obtain ⟨m, hm⟩ := exists_units b (min_le_left b.exponent (-precision))
  have hv : x * a.toRat + y * b.toRat = (x * n + y * m : ℤ) * Decimal.tenPow (min b.exponent (-precision)) := by
    rw [hn, hm]
    push_cast
    ring
  rw [abs_dropped_add_le_iff (min_le_right _ _) hv, hlack]
  rcases le_total (-precision) b.exponent with hfew | hmany
  · exact .inl (min_eq_right hfew)
  · rw [min_eq_left hmany, hlack]
    exact .inr (abs_sub_toRat_le hb)

/-! ## Mixed operands -/

section

variable (a : Decimal) {b : Decimal} {q : ℚ} (hb : recurringRat? b = some q)

include hb

theorem keepsPrecision_add_iff : KeepsPrecision Number.add (· + ·) (irrational a) (recurring b) ↔
    (Decimal.sum a b).Fits ∧ |dropped (a.toRat + b.toRat) + (q - b.toRat)| ≤ Decimal.tenPow (-precision) := by
  rw [keepsPrecision_iff (toRat_irrational a) (toRat_recurring hb) (binary_ofReal _ _ _ rfl rfl), Decimal.toRat_sum,
    add_sub_add_left_eq_sub]

theorem keepsPrecision_sub_iff : KeepsPrecision Number.sub (· - ·) (irrational a) (recurring b) ↔
    (Decimal.sum a b.neg).Fits ∧ |dropped (a.toRat - b.toRat) - (q - b.toRat)| ≤ Decimal.tenPow (-precision) := by
  rw [keepsPrecision_iff (toRat_irrational a) (toRat_recurring hb) (binary_ofReal _ _ _ rfl rfl), Decimal.toRat_sum,
    Decimal.toRat_neg, ← sub_eq_add_neg, sub_sub_sub_cancel_left, ← neg_sub q, ← sub_eq_add_neg]

theorem keepsPrecision_sub_from_iff : KeepsPrecision Number.sub (· - ·) (recurring b) (irrational a) ↔
    (Decimal.sum b a.neg).Fits ∧ |dropped (b.toRat - a.toRat) + (q - b.toRat)| ≤ Decimal.tenPow (-precision) := by
  have hsub : Number.sub (.ofReal (recurring b)) (.ofReal (irrational a)) =
      ((Decimal.sum b a.neg).fit >>= ofApproximation).map Number.ofReal := by
    refine (binary_ofReal _ _ _ rfl rfl).trans (congrArg (Except.map Number.ofReal) ?_)
    exact combine_irrational_right (· - ·) Decimal.sub a b
  rw [keepsPrecision_iff (toRat_recurring hb) (toRat_irrational a) hsub, Decimal.toRat_sum, Decimal.toRat_neg,
    ← sub_eq_add_neg, sub_sub_sub_cancel_right]

theorem keepsPrecision_mul_iff : KeepsPrecision Number.mul (· * ·) (irrational a) (recurring b) ↔
    (Decimal.product a b).Fits ∧
      |dropped (a.toRat * b.toRat) + a.toRat * (q - b.toRat)| ≤ Decimal.tenPow (-precision) := by
  rw [keepsPrecision_iff (toRat_irrational a) (toRat_recurring hb) (binary_ofReal _ _ _ rfl rfl), Decimal.toRat_product,
    mul_sub]

/-- When mixing an approximation with a repeating value keeps the precision: the result has to fit,
and what cutting drops must not add up with what the stored digits of the repeating value lack to
more than a unit of the last place. In a product the lack counts times the other factor. Where the
approximation has no more places than are kept, a sum keeps the precision exactly if the stored
digits do. -/
theorem keepsPrecision_mixed_iff :
    (KeepsPrecision Number.add (· + ·) (irrational a) (recurring b) ↔ (Decimal.sum a b).Fits ∧
      |dropped (a.toRat + b.toRat) + (q - b.toRat)| ≤ Decimal.tenPow (-precision)) ∧
    (KeepsPrecision Number.sub (· - ·) (irrational a) (recurring b) ↔ (Decimal.sum a b.neg).Fits ∧
      |dropped (a.toRat - b.toRat) - (q - b.toRat)| ≤ Decimal.tenPow (-precision)) ∧
    (KeepsPrecision Number.sub (· - ·) (recurring b) (irrational a) ↔ (Decimal.sum b a.neg).Fits ∧
      |dropped (b.toRat - a.toRat) + (q - b.toRat)| ≤ Decimal.tenPow (-precision)) ∧
    (KeepsPrecision Number.mul (· * ·) (irrational a) (recurring b) ↔ (Decimal.product a b).Fits ∧
      |dropped (a.toRat * b.toRat) + a.toRat * (q - b.toRat)| ≤ Decimal.tenPow (-precision)) ∧
    (-precision ≤ a.exponent →
      (KeepsPrecision Number.add (· + ·) (irrational a) (recurring b) ↔
        (Decimal.sum a b).Fits ∧ |q - b.toRat| ≤ Decimal.tenPow (-precision)) ∧
      (KeepsPrecision Number.sub (· - ·) (irrational a) (recurring b) ↔
        (Decimal.sum a b.neg).Fits ∧ |q - b.toRat| ≤ Decimal.tenPow (-precision)) ∧
      (KeepsPrecision Number.sub (· - ·) (recurring b) (irrational a) ↔
        (Decimal.sum b a.neg).Fits ∧ |q - b.toRat| ≤ Decimal.tenPow (-precision))) := by
  refine ⟨keepsPrecision_add_iff a hb, keepsPrecision_sub_iff a hb, keepsPrecision_sub_from_iff a hb,
    keepsPrecision_mul_iff a hb, fun ha => ⟨?_, ?_, ?_⟩⟩
  · have := abs_dropped_add_lack_le_iff ha hb rfl 1 1
    rw [Int.cast_one, one_mul, one_mul] at this
    rw [keepsPrecision_add_iff a hb, this]
  · have := abs_dropped_add_lack_le_iff ha hb (abs_neg _) 1 (-1)
    rw [Int.cast_neg, Int.cast_one, one_mul, neg_one_mul, ← sub_eq_add_neg, ← sub_eq_add_neg] at this
    rw [keepsPrecision_sub_iff a hb, this]
  · have := abs_dropped_add_lack_le_iff ha hb rfl (-1) 1
    rw [Int.cast_neg, Int.cast_one, one_mul, neg_one_mul, neg_add_eq_sub] at this
    rw [keepsPrecision_sub_from_iff a hb, this]

end

/-- A half and a seventy-first, which is stored with a hundred and forty digits. -/
theorem keepsPrecision_half_add_seventyFirst :
    recurringRat? ⟨false, 10 ^ 140 / 71, -140⟩ = some (1 / 71) ∧
      KeepsPrecision Number.add (· + ·) (irrational ⟨false, 5, -1⟩)
        (recurring ⟨false, 10 ^ 140 / 71, -140⟩) := by
  have hb : recurringRat? ⟨false, 10 ^ 140 / 71, -140⟩ = some (1 / 71) := by decide +kernel
  obtain ⟨-, -, -, -, hfew⟩ := keepsPrecision_mixed_iff ⟨false, 5, -1⟩ hb
  exact ⟨hb, (hfew (by decide)).1.2 ⟨.inr (by decide +kernel), by decide +kernel⟩⟩

/-- A third is stored with four digits, so a half and a third give 0.8333. -/
theorem not_keepsPrecision_half_add_third :
    ofRat (1 / 3) = .ok (.recurring ⟨false, 3333, -4⟩) ∧ recurringRat? ⟨false, 3333, -4⟩ = some (1 / 3) ∧
      Number.add (.ofReal (irrational ⟨false, 5, -1⟩)) (.ofReal (recurring ⟨false, 3333, -4⟩)) =
        .ok (.ofReal (irrational ⟨false, 8333, -4⟩)) ∧
      ¬ KeepsPrecision Number.add (· + ·) (irrational ⟨false, 5, -1⟩) (recurring ⟨false, 3333, -4⟩) := by
  have hb : recurringRat? ⟨false, 3333, -4⟩ = some (1 / 3) := by decide +kernel
  refine ⟨by decide +kernel, hb, by decide +kernel, ?_⟩
  rw [keepsPrecision_iff (toRat_irrational _) (toRat_recurring hb) (binary_ofReal _ _ _ rfl rfl)]
  rintro ⟨-, h⟩
  exact absurd h (by decide +kernel)

end Reckon.Real
