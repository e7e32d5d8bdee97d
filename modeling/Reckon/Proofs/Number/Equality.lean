/-
Equality and hashes. A number denotes a point: a pair of extended rationals, of which the second is
zero for a real number. Two numbers without NaN are equal exactly if they denote the same point, whatever
their kinds, so equality is an equivalence. The hash is that of the point as well, and the hash of a
rational agrees with that of a whole number where both are defined.
-/
import Reckon.Proofs.Real.Power

namespace Reckon

open Outcome

namespace Real

/-! ## Zero and whole numbers -/

theorem toRat?_ofInt (n : ℤ) : (ofInt n).toRat? = some (n : ℚ) := congrArg some (Decimal.toRat_ofInt n)

theorem place?_zero : zero.place? = some (.finite 0) := place?_of_toRat? (toRat?_ofInt 0)

/-- A repeating value stands for zero only if all its digits are zero. -/
theorem coefficient_of_recurringRat?_zero {d : Decimal} (h : recurringRat? d = some 0) : d.coefficient = 0 := by
  obtain ⟨s, l, hvalid, hvalue⟩ := exists_valid_of_recurringRat? h
  have hsign : (if d.negative then -1 else 1 : ℚ) ≠ 0 := by cases d.negative <;> simp
  rw [hvalid.value_eq, Decimal.wholePart_mul_pow_add hvalid.ne_nil, eq_comm, mul_eq_zero, or_iff_right hsign,
    div_eq_zero_iff, or_iff_left (by positivity)] at hvalue
  have hzero := (add_eq_zero_iff_of_nonneg (by positivity) (by positivity)).1 hvalue
  exact_mod_cast hzero.1

theorem isZero_iff_place? {x : Real} (h : x.isNaN = false) : x.isZero = true ↔ x.place? = some (.finite 0) := by
  constructor
  · intro hzero
    exact place?_of_toRat? (toRat_eq_ok_iff.1 (toRat_of_isZero hzero))
  · intro hplace
    obtain ⟨s, rfl⟩ | ⟨q, hq⟩ := infinite_or_toRat? h
    · exact absurd (hplace.trans place?_zero.symm) (place?_infinite_ne (toRat?_ofInt 0))
    obtain rfl : q = 0 := by
      rwa [place?_of_toRat? hq, Option.some_inj, ExtendedRat.finite_inj] at hplace
    have hdecimal : ∀ {d : Decimal}, d.toRat = 0 → d.isZero = true := fun hd =>
      (Decimal.isZero_iff _).2 ((Decimal.toRat_eq_zero_iff _).1 hd)
    cases x with
    | infinite s => cases hq
    | nan => cases hq
    | recurring d =>
      unfold toRat? at hq
      cases hrat : (recurring d).exactRat? with
      | none =>
        rw [hrat] at hq
        exact hdecimal (d := d) (Option.some.inj hq)
      | some q =>
        rw [hrat] at hq
        obtain rfl := Option.some.inj hq
        exact (Decimal.isZero_iff d).2 (coefficient_of_recurringRat?_zero hrat)
    | _ => exact hdecimal (Option.some.inj hq)

end Real

namespace Number

/-! ## Points -/

/-- NaN, or a complex number with such a part. -/
def hasNaN : Number → Bool
  | integer _ => false
  | scalar (.real x) => x.isNaN
  | scalar (.complex re im) => re.isNaN || im.isNaN

/-- The point that a number denotes: the places of both parts, where a real number has zero as the
second one. -/
def point? : Number → Option (ExtendedRat × ExtendedRat)
  | integer n => some (.finite n.value, .finite 0)
  | scalar (.real x) => x.place?.map (·, .finite 0)
  | scalar (.complex re im) => re.place?.bind fun p => im.place?.map fun q => (p, q)

/-- Real and imaginary part. -/
def parts (a : Number) : Real × Real := a.toScalar.parts

theorem isNaN_parts {a : Number} (h : a.hasNaN = false) : a.parts.1.isNaN = false ∧ a.parts.2.isNaN = false := by
  match a, h with
  | integer n, _ => exact ⟨rfl, rfl⟩
  | scalar (.real x), h => exact ⟨h, rfl⟩
  | scalar (.complex re im), h => exact Bool.or_eq_false_iff.1 h

/-- The point consists of the places of the parts. -/
theorem point?_eq (a : Number) : a.point? = a.parts.1.place?.bind fun p => a.parts.2.place?.map fun q => (p, q) := by
  match a with
  | integer n =>
    rw [point?, parts, toScalar, Scalar.parts, Real.place?_zero, Real.place?_of_toRat? (Real.toRat?_ofInt n.value)]
    rfl
  | scalar (.real x) =>
    rw [point?, parts, toScalar, Scalar.parts, Real.place?_zero]
    cases x.place? <;> rfl
  | scalar (.complex re im) => rfl

theorem point?_eq_iff {a b : Number} (ha : a.hasNaN = false) (hb : b.hasNaN = false) : a.point? = b.point? ↔
    a.parts.1.place? = b.parts.1.place? ∧ a.parts.2.place? = b.parts.2.place? := by
  obtain ⟨p, hp⟩ := Real.exists_place? (isNaN_parts ha).1
  obtain ⟨p', hp'⟩ := Real.exists_place? (isNaN_parts ha).2
  obtain ⟨q, hq⟩ := Real.exists_place? (isNaN_parts hb).1
  obtain ⟨q', hq'⟩ := Real.exists_place? (isNaN_parts hb).2
  rw [point?_eq, point?_eq, hp, hp', hq, hq']
  simp

theorem exists_point? {a : Number} (h : a.hasNaN = false) : ∃ p, a.point? = some p := by
  obtain ⟨p, hp⟩ := Real.exists_place? (isNaN_parts h).1
  obtain ⟨p', hp'⟩ := Real.exists_place? (isNaN_parts h).2
  exact ⟨(p, p'), by rw [point?_eq, hp, hp']; rfl⟩

/-- Numbers without NaN are equal exactly if they denote the same point. -/
theorem equals_eq_decide {a b : Number} (ha : a.hasNaN = false) (hb : b.hasNaN = false) :
    a.equals b = .ok (decide (a.point? = b.point?)) := by
  obtain ⟨hre, him⟩ := isNaN_parts ha
  obtain ⟨hre', him'⟩ := isNaN_parts hb
  have hparts : (do if ← a.parts.1.equals b.parts.1 then a.parts.2.equals b.parts.2 else .ok false) =
      (.ok (decide (a.point? = b.point?)) : Outcome Bool) := by
    rw [Real.equals_eq_decide hre hre', Real.equals_eq_decide him him', ok_bind, decide_eq_decide.2 (point?_eq_iff ha hb),
      Bool.decide_and]
    cases decide (a.parts.1.place? = b.parts.1.place?) <;> rfl
  have hscalar : ∀ c : Number, c.hasNaN = false → c.toScalar.isNaN = false := by
    intro c hc
    match c, hc with
    | integer n, _ => rfl
    | scalar (.real x), hc => exact hc
    | scalar (.complex re im), _ => rfl
  unfold equals
  split
  · rename_i x y
    have hvalue : (integer x).point? = (integer y).point? ↔ x.value = y.value := by simp [point?, ExtendedRat.finite_inj]
    rw [decide_eq_decide.2 hvalue, Bool.beq_eq_decide_eq]
  · simp only [hscalar a ha, hscalar b hb]
    exact hparts

theorem equals_eq_ok_true_iff {a b : Number} (ha : a.hasNaN = false) (hb : b.hasNaN = false) :
    a.equals b = .ok true ↔ a.point? = b.point? := by
  rw [equals_eq_decide ha hb]
  exact ⟨fun h => of_decide_eq_true (Except.ok.inj h), fun h => congrArg Except.ok (decide_eq_true h)⟩

/-! ## Hashes -/

/-- The hash of a whole number: its residue with its sign, where -1 is reserved. -/
def hashWhole (n : ℤ) : ℤ :=
  let h := n.sign * (n.natAbs % hashModulus : Nat)
  if h = -1 then -2 else h

theorem powMod_eq (base n m : Nat) : powMod base n m = base ^ n % m := by
  induction n using Nat.strong_induction_on generalizing base with
  | _ n ih =>
    unfold powMod
    split
    · rename_i hn
      rw [hn, pow_zero]
    · rename_i hn
      have hsquare : powMod (base * base % m) (n / 2) m = base ^ (2 * (n / 2)) % m := by
        rw [ih _ (by omega), ← Nat.pow_mod, ← sq, ← pow_mul]
      simp only [hsquare]
      split
      · rename_i hodd
        conv_rhs => rw [show n = 2 * (n / 2) + 1 by omega, pow_succ]
        rw [Nat.mod_mul_mod]
      · rw [show 2 * (n / 2) = n by omega]

theorem powMod_one {m : Nat} (hm : 1 < m) (n : Nat) : powMod (1 % m) n m = 1 := by
  rw [powMod_eq, Nat.mod_eq_of_lt hm, one_pow, Nat.mod_eq_of_lt hm]

/-- Over one the hash is that of the numerator. -/
theorem hashQuotient_one (n : ℤ) : hashQuotient (n < 0) (n.natAbs % hashModulus) 1 = hashWhole n := by
  have hinverse : powMod (1 % hashModulus) (hashModulus - 2) hashModulus = 1 := powMod_one (by decide) _
  unfold hashQuotient hashWhole
  simp only [hinverse, one_ne_zero, if_false, mul_one, Nat.mod_mod]
  rcases lt_trichotomy n 0 with hneg | rfl | hpos
  · rw [decide_eq_true hneg, if_pos rfl, Int.sign_eq_neg_one_of_neg hneg, neg_one_mul]
  · rfl
  · rw [decide_eq_false (by omega), if_neg Bool.false_ne_true, Int.sign_eq_one_of_pos hpos, one_mul]

/-- The hash of a rational is that of the whole number where it is one. -/
theorem hashRat_intCast (n : ℤ) : hashRat n = hashWhole n := by
  rw [← hashQuotient_one]
  unfold hashRat
  rw [Rat.num_intCast, Rat.den_intCast]

theorem hashReal_of_toRat? {x : Real} {q : ℚ} (h : x.toRat? = some q) : hashReal x = .one (hashRat q) := by
  have hvalue : x.toRat?.getD 0 = q := by rw [h, Option.getD_some]
  cases x with
  | infinite s => cases h
  | nan => cases h
  | _ => exact congrArg (fun r => HashKey.one (hashRat r)) hvalue

theorem hashReal_congr {x y : Real} (hx : x.isNaN = false) (hy : y.isNaN = false) (h : x.place? = y.place?) :
    hashReal x = hashReal y := by
  obtain ⟨s, rfl⟩ | ⟨p, hp⟩ := Real.infinite_or_toRat? hx <;> obtain ⟨t, rfl⟩ | ⟨q, hq⟩ := Real.infinite_or_toRat? hy
  · rw [Real.place?_infinite_inj.1 h]
  · exact absurd h (Real.place?_infinite_ne hq)
  · exact absurd h.symm (Real.place?_infinite_ne hp)
  · rw [hashReal_of_toRat? hp, hashReal_of_toRat? hq, (Real.place?_inj hp hq).1 h]

/-- The hash of a number is that of its real part if the imaginary part is zero, else of both. -/
theorem hashKey_eq (a : Number) : a.hashKey =
    if a.parts.2.isZero then hashReal a.parts.1 else .pair (hashReal a.parts.1) (hashReal a.parts.2) := by
  match a with
  | integer n =>
    show HashKey.one (hashRat n.value) = if Real.zero.isZero then hashReal (.ofInt n.value) else _
    rw [if_pos (show Real.zero.isZero = true from rfl), hashReal_of_toRat? (Real.toRat?_ofInt n.value)]
  | scalar (.real x) => rfl
  | scalar (.complex re im) => rfl

theorem hashKey_congr {a b : Number} (ha : a.hasNaN = false) (hb : b.hasNaN = false) (h : a.point? = b.point?) :
    a.hashKey = b.hashKey := by
  obtain ⟨hre, him⟩ := isNaN_parts ha
  obtain ⟨hre', him'⟩ := isNaN_parts hb
  obtain ⟨hfirst, hsecond⟩ := (point?_eq_iff ha hb).1 h
  have hzero : a.parts.2.isZero = b.parts.2.isZero := by
    rw [Bool.eq_iff_iff, Real.isZero_iff_place? him, Real.isZero_iff_place? him', hsecond]
  rw [hashKey_eq, hashKey_eq, hzero, hashReal_congr hre hre' hfirst, hashReal_congr him him' hsecond]

/-! ## Equality and hashes -/

/-- Equality of numbers without NaN is an equivalence: it says that both denote the same point. Equal
numbers have the same hash, of whatever kinds they are, and the hash of an integer is its residue. -/
theorem equals_coherent :
    Equivalence (fun a b : {a : Number // a.hasNaN = false} => a.1.equals b.1 = .ok true) ∧
    (∀ a b : Number, a.hasNaN = false → b.hasNaN = false → ∃ p q, a.point? = some p ∧ b.point? = some q ∧
      a.equals b = .ok (decide (p = q)) ∧ (a.equals b = .ok true → a.hashKey = b.hashKey)) ∧
    ∀ n : Integer, (integer n).hashKey = .one (hashWhole n.value) := by
  refine ⟨⟨fun a => ?_, fun {a b} h => ?_, fun {a b c} h h' => ?_⟩, fun a b ha hb => ?_, fun n => ?_⟩
  · exact (equals_eq_ok_true_iff a.2 a.2).2 rfl
  · rw [equals_eq_ok_true_iff a.2 b.2] at h
    exact (equals_eq_ok_true_iff b.2 a.2).2 h.symm
  · rw [equals_eq_ok_true_iff a.2 b.2] at h
    rw [equals_eq_ok_true_iff b.2 c.2] at h'
    exact (equals_eq_ok_true_iff a.2 c.2).2 (h.trans h')
  · obtain ⟨p, hp⟩ := exists_point? ha
    obtain ⟨q, hq⟩ := exists_point? hb
    refine ⟨p, q, hp, hq, ?_, fun h => hashKey_congr ha hb ((equals_eq_ok_true_iff ha hb).1 h)⟩
    rw [equals_eq_decide ha hb, decide_eq_decide.2 (by rw [hp, hq, Option.some_inj] : a.point? = b.point? ↔ p = q)]
  · exact congrArg HashKey.one (hashRat_intCast n.value)

/-- A stored 0.9999 over a negative zero is the integer one and has its hash. -/
theorem equals_coherent_nines : ∃ a b : Number,
    a = integer ⟨1, some .i8⟩ ∧ b = scalar (.complex (.recurring ⟨false, 9999, -4⟩) (.big ⟨true, 0, -3⟩)) ∧
      a.hasNaN = false ∧ b.hasNaN = false ∧ a.equals b = .ok true ∧ a.hashKey = b.hashKey := by
  have hequal : equals (integer ⟨1, some .i8⟩) (scalar (.complex (.recurring ⟨false, 9999, -4⟩) (.big ⟨true, 0, -3⟩))) =
      .ok true := by decide +kernel
  obtain ⟨-, -, -, -, -, hhash⟩ := equals_coherent.2.1 (integer ⟨1, some .i8⟩)
    (scalar (.complex (.recurring ⟨false, 9999, -4⟩) (.big ⟨true, 0, -3⟩))) rfl rfl
  exact ⟨_, _, rfl, rfl, rfl, rfl, hequal, hhash hequal⟩

end Number

end Reckon
