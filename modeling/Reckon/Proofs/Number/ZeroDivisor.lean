/-
Division by a complex number. It fails for a zero divisor if the sum of the squares of the parts is stored as
zero, and in no other way than by leaving the range of decimals once it is not. The sum is zero for the zero
divisor, and also for one that is not zero but has parts so small that nothing of their squares is stored.
-/
import Reckon.Proofs.Number.Refusal
import Reckon.Proofs.Number.SquareSum

namespace Reckon

open Outcome Reckon.Expansion

namespace Real

/-! ## Operations on finite numbers -/

section

variable {a b c d x : Real}

theorem exists_toRat? (h : x.isFinite = true) : ∃ q, x.toRat? = some q := by
  obtain ⟨s, rfl⟩ | hrational := infinite_or_toRat? ((isFinite_iff x).1 h).1
  · cases h
  · exact hrational

theorem Combines.range {op : Outcome Real} (hop : Combines op a b) (ha : a.isFinite = true) (hb : b.isFinite = true) :
    InRange op := by
  obtain ⟨exact, stored, hstored, rfl⟩ := hop.finite ((isFinite_iff a).1 ha).2 ((isFinite_iff b).1 hb).2
  exact combine_range hstored ha hb

theorem isFinite_mul (ha : a.isFinite = true) (hb : b.isFinite = true) (h : a.mul b = .ok x) : x.isFinite = true :=
  (combines_mul a b).isFinite ((isFinite_iff a).1 ha).2 ((isFinite_iff b).1 hb).2 h

variable {op : Real → Real → Outcome Real} (hop : ∀ x y, Combines (op x y) x y)
variable (ha : a.isFinite = true) (hb : b.isFinite = true) (hc : c.isFinite = true) (hd : d.isFinite = true)

include hop ha hb hc hd

theorem ofProducts_range : InRange (do op (← a.mul c) (← b.mul d)) :=
  .bind ((combines_mul a c).range ha hc) fun x hx => .bind ((combines_mul b d).range hb hd) fun y hy =>
    (hop x y).range (isFinite_mul ha hc hx) (isFinite_mul hb hd hy)

theorem isFinite_of_ofProducts (h : (do op (← a.mul c) (← b.mul d)) = .ok x) : x.isFinite = true := by
  obtain ⟨y, hy, h⟩ := bind_eq_ok.1 h
  obtain ⟨z, hz, h⟩ := bind_eq_ok.1 h
  exact (hop y z).isFinite ((isFinite_iff y).1 (isFinite_mul ha hc hy)).2 ((isFinite_iff z).1 (isFinite_mul hb hd hz)).2 h

end

theorem div_range {a b : Real} (ha : a.isFinite = true) (hb : b.isFinite = true) (hzero : b.isZero = false) :
    InRange (a.div b) := by
  rw [div_of_not_infinite ((isFinite_iff a).1 ha).2 ((isFinite_iff b).1 hb).2 hzero]
  exact combine_range (fun _ _ => Decimal.make_range _ _ _) ha hb

end Real

/-! ## Quotients -/

namespace Scalar

open Reckon.Real

/-- Both parts are finite. -/
def HasFiniteParts (z : Scalar) : Prop := z.re.isFinite = true ∧ z.im.isFinite = true

variable {z w : Scalar} {n : Real}

theorem quotientParts_range (hz : z.HasFiniteParts) (hw : w.HasFiniteParts) (hn : n.isFinite = true) (hzero : n.isZero = false) :
    InRange (quotientParts z w n) := by
  obtain ⟨ha, hb⟩ := hz
  obtain ⟨hc, hd⟩ := hw
  refine .bind (ofProducts_range combines_add ha hb hc hd) fun x hx => ?_
  refine .bind (ofProducts_range combines_sub hb ha hc hd) fun y hy => ?_
  have hx := isFinite_of_ofProducts combines_add ha hb hc hd hx
  have hy := isFinite_of_ofProducts combines_sub hb ha hc hd hy
  exact .bind (div_range hx hn hzero) fun _ _ => .bind (div_range hy hn hzero) fun _ _ => .ok _

/-- A quotient of complex numbers with finite parts fails for a zero divisor exactly if the norm is stored as
zero. -/
theorem divParts_divisionByZero_iff (hz : z.HasFiniteParts) (hw : w.HasFiniteParts) :
    (∃ e, z.divParts w = .error e ∧ e.code? = some .divisionByZero) ↔ ∃ n, w.norm = .ok n ∧ n.isZero = true := by
  rw [divParts_eq]
  constructor
  · rintro ⟨e, he, hcode⟩
    have hrange : e.isRange = false := by
      rw [Bool.eq_false_iff]
      intro hrange
      exact nomatch (Notation.code?_of_isRange hrange).symm.trans hcode
    rcases bind_eq_error.1 he with he | ⟨n, hn, he⟩
    · exact absurd (ofProducts_range combines_add hw.1 hw.2 hw.1 hw.2 e he) (Bool.eq_false_iff.1 hrange)
    · refine ⟨n, hn, ?_⟩
      by_contra hzero
      rw [if_neg hzero] at he
      have hfinite := isFinite_of_ofProducts combines_add hw.1 hw.2 hw.1 hw.2 hn
      exact absurd (quotientParts_range hz hw hfinite (Bool.eq_false_iff.2 hzero) e he) (Bool.eq_false_iff.1 hrange)
  · rintro ⟨n, hn, hzero⟩
    exact ⟨_, by rw [hn, ok_bind, if_pos hzero]; rfl, rfl⟩

end Scalar

/-! ## Parts that are too small -/

namespace Real

/-- A repeating value of unknown cycle, other than zero, whose square starts behind the digit budget. -/
def IsObscure (x : Real) : Prop :=
  ∃ d, x = .recurring d ∧ recurringRat? d = none ∧ d.toRat ≠ 0 ∧ d.toRat ^ 2 < Decimal.tenPow (-10000)

/-- An approximation other than zero whose square is below the precision, or a repeating value other than zero
whose square starts behind the digit budget. -/
def IsFaint (x : Real) : Prop := ∃ v, x.toRat? = some v ∧ v ≠ 0 ∧
  (x.isIrrational = true ∧ v ^ 2 < Decimal.tenPow (-precision) ∨ x.isRecurring = true ∧ v ^ 2 < Decimal.tenPow (-10000))

variable {x c d n : Real} {v : ℚ}

theorem terminates_of_not_recurring (hx : x.isRecurring = false) (hv : x.toRat? = some v) : Terminates v := by
  cases x with
  | recurring d => cases hx
  | infinite s => cases hv
  | nan => cases hv
  | _ =>
    obtain rfl := Option.some.inj hv
    exact terminates_toRat _

theorem IsObscure.isFaint (h : x.IsObscure) : x.IsFaint := by
  obtain ⟨d, rfl, hcycle, hne, hlt⟩ := h
  exact ⟨d.toRat, toRat?_of_no_cycle hcycle, hne, .inr ⟨rfl, hlt⟩⟩

/-- What is lost is zero or faint. -/
theorem IsLost.eq_zero_or_isFaint (h : x.IsLost) : x.toRat? = some 0 ∨ x.IsFaint := by
  obtain ⟨v, hv, h⟩ := h
  by_cases hzero : v = 0
  · exact .inl (hzero ▸ hv)
  refine .inr ⟨v, hv, hzero, ?_⟩
  rcases h with (hsquare | ⟨hterminates, hlt⟩) | h
  · exact absurd (pow_eq_zero_iff two_ne_zero |>.1 hsquare) hzero
  · rw [abs_of_nonneg (sq_nonneg v)] at hlt
    refine .inr ⟨?_, hlt⟩
    by_contra hrecurring
    exact hterminates (terminates_pow (terminates_of_not_recurring (Bool.eq_false_iff.2 hrecurring) hv) 2)
  · exact .inl h

/-- A zero has a stored square, and that is a zero. -/
theorem isLost_of_zero (h : x.toRat? = some 0) : Succeeds (x.mul x) ∧ x.IsLost :=
  ⟨exists_square h, 0, h, .inl (.inl (zero_pow two_ne_zero))⟩

theorem isLost_unit_iff (e : ℤ) : (irrational ⟨false, 1, e⟩).IsLost ↔ e + e < -precision := by
  have hvalue : Decimal.toRat ⟨false, 1, e⟩ = Decimal.tenPow e := by
    rw [Decimal.toRat_eq_sign, if_neg Bool.false_ne_true, Nat.cast_one, one_mul, one_mul]
  rw [isLost_iff (toRat_eq_ok_iff.1 (toRat_irrational _)),
    vanishes_iff_of_terminates (terminates_pow (terminates_toRat _) 2), hvalue, sq, ← Decimal.tenPow_add,
    or_iff_right (Decimal.tenPow_ne_zero _), Decimal.tenPow_lt_tenPow]
  exact and_iff_right rfl

variable (hc : c.isFinite = true) (hd : d.isFinite = true)

include hc hd

/-- The sum of two squares that are stored as zero is stored as zero. -/
theorem exists_sumOfSquares (hc' : Succeeds (c.mul c) ∧ c.IsLost) (hd' : Succeeds (d.mul d) ∧ d.IsLost) :
    ∃ n, sumOfProducts c c d d = .ok n ∧ n.isZero = true := by
  obtain ⟨⟨x, hx⟩, hclost⟩ := hc'
  obtain ⟨⟨y, hy⟩, hdlost⟩ := hd'
  obtain ⟨p, hp⟩ := isTerm_square hc hx
  obtain ⟨q, hq⟩ := isTerm_square hd hy
  have hzero := And.intro ((isZero_square_iff hc hx).2 hclost) ((isZero_square_iff hd hy).2 hdlost)
  obtain ⟨n, hn⟩ := hp.exists_add hq hzero
  exact ⟨n, by rw [sumOfProducts, hx, ok_bind, hy, ok_bind, hn], (hp.isZero_add_iff hq hn).2 (.inl hzero)⟩

/-- If the sum of two squares is stored as zero then so is each of them, or one of them is a repeating value of
unknown cycle that starts behind the budget. -/
theorem isLost_of_sumOfSquares (h : sumOfProducts c c d d = .ok n) (hzero : n.isZero = true) :
    (Succeeds (c.mul c) ∧ c.IsLost) ∧ Succeeds (d.mul d) ∧ d.IsLost ∨ c.IsObscure ∨ d.IsObscure := by
  obtain ⟨x, hx, h⟩ := bind_eq_ok.1 h
  obtain ⟨y, hy, hn⟩ := bind_eq_ok.1 h
  obtain ⟨e, he⟩ := isTerm_square hc hx
  obtain ⟨f, hf⟩ := isTerm_square hd hy
  rcases (he.isZero_add_iff hf hn).1 hzero with ⟨hxzero, hyzero⟩ | ⟨p, q, hp, hq, hterminates, hlt⟩
  · exact .inl ⟨⟨⟨x, hx⟩, (isZero_square_iff hc hx).1 hxzero⟩, ⟨y, hy⟩, (isZero_square_iff hd hy).1 hyzero⟩
  · right
    have hpnonneg := he.nonneg.trans (he.toRat_le hp)
    have hqnonneg := hf.nonneg.trans (hf.toRat_le hq)
    by_cases hpterminates : Terminates p
    · have hqterminates : ¬ Terminates q := fun hq => hterminates (terminates_add hpterminates hq)
      exact .inr (no_cycle_of_square hd hy hq hqterminates (by linarith))
    · exact .inl (no_cycle_of_square hc hx hp hpterminates (by linarith))

end Real

/-! ## The complex divisors that count as zero -/

namespace Number

open Reckon.Real

/-- The division fails for a zero divisor. -/
def DividesByZero (z w : Number) : Prop := ∃ e, z.div w = .error e ∧ e.code? = some .divisionByZero

variable {z : Number} {c d : Real}

theorem isNaN_of_hasFiniteParts {z : Scalar} (hz : z.HasFiniteParts) : z.isNaN = false := by
  cases z with
  | real x => exact ((isFinite_iff x).1 hz.1).1
  | complex re im => rfl

theorem dividesByZero_complex_iff (hz : z.toScalar.HasFiniteParts) (hc : c.isFinite = true) (hd : d.isFinite = true) :
    DividesByZero z (.scalar (.complex c d)) ↔ ∃ n, sumOfProducts c c d d = .ok n ∧ n.isZero = true := by
  have hdiv : z.div (.scalar (.complex c d)) = (z.toScalar.divParts (.complex c d)).map .scalar := by
    have hcomplex : z.toScalar.div (.complex c d) = z.toScalar.divParts (.complex c d) :=
      Scalar.binary_complex (isNaN_of_hasFiniteParts hz) rfl (.inr rfl)
    rw [← hcomplex]
    cases z <;> rfl
  rw [DividesByZero, hdiv]
  simp only [map_eq_error]
  exact Scalar.divParts_divisionByZero_iff hz ⟨hc, hd⟩

theorem equals_zero_iff (hc : c.isFinite = true) (hd : d.isFinite = true) :
    equals (.scalar (.complex c d)) (.ofInt 0) = .ok true ↔ c.toRat? = some 0 ∧ d.toRat? = some 0 := by
  obtain ⟨p, hp⟩ := exists_toRat? hc
  obtain ⟨q, hq⟩ := exists_toRat? hd
  have hnan : (scalar (.complex c d)).hasNaN = false :=
    Bool.or_eq_false_iff.2 ⟨isNaN_of_toRat? hp, isNaN_of_toRat? hq⟩
  rw [equals_eq_ok_true_iff hnan rfl, point?, place?_of_toRat? hp, place?_of_toRat? hq, hp, hq]
  simp [point?, ofInt, ExtendedRat.finite_inj]

/-- When a division by a complex number with finite parts fails for a zero divisor. It does for the zero, and
apart from that only if a part is faint. Without repeating values of unknown cycle, it does exactly if both
parts have a square and both squares are stored as zero. -/
theorem dividesByZero_of_complex (hz : z.toScalar.HasFiniteParts) (hc : c.isFinite = true) (hd : d.isFinite = true) :
    (equals (.scalar (.complex c d)) (.ofInt 0) = .ok true → DividesByZero z (.scalar (.complex c d))) ∧
    (DividesByZero z (.scalar (.complex c d)) →
      equals (.scalar (.complex c d)) (.ofInt 0) = .ok true ∨ c.IsFaint ∨ d.IsFaint) ∧
    (¬ c.IsObscure → ¬ d.IsObscure → (DividesByZero z (.scalar (.complex c d)) ↔
      (Succeeds (c.mul c) ∧ c.IsLost) ∧ Succeeds (d.mul d) ∧ d.IsLost)) := by
  rw [dividesByZero_complex_iff hz hc hd, equals_zero_iff hc hd]
  refine ⟨fun ⟨hczero, hdzero⟩ => ?_, ?_, fun hcobscure hdobscure => ⟨?_, ?_⟩⟩
  · exact exists_sumOfSquares hc hd (isLost_of_zero hczero) (isLost_of_zero hdzero)
  · rintro ⟨n, hn, hzero⟩
    rcases isLost_of_sumOfSquares hc hd hn hzero with ⟨⟨-, hclost⟩, -, hdlost⟩ | hobscure | hobscure
    · rcases hclost.eq_zero_or_isFaint with hczero | hfaint
      · exact hdlost.eq_zero_or_isFaint.imp (⟨hczero, ·⟩) .inr
      · exact .inr (.inl hfaint)
    · exact .inr (.inl hobscure.isFaint)
    · exact .inr (.inr hobscure.isFaint)
  · rintro ⟨n, hn, hzero⟩
    exact (isLost_of_sumOfSquares hc hd hn hzero).resolve_right (not_or.2 ⟨hcobscure, hdobscure⟩)
  · rintro ⟨hclost, hdlost⟩
    exact exists_sumOfSquares hc hd hclost hdlost

/-- A divisor of a magnitude below the square root of the precision counts as zero, one above it does not. -/
theorem dividesByZero_of_complex_small :
    DividesByZero (.ofInt 1) (.scalar (.complex (.irrational ⟨false, 1, -100⟩) .zero)) ∧
    ¬ DividesByZero (.ofInt 1) (.scalar (.complex (.irrational ⟨false, 1, -68⟩) .zero)) := by
  have hobscure : ∀ x : Real, x.isRecurring = false → ¬ x.IsObscure := by
    rintro _ hx ⟨d, rfl, -⟩
    cases hx
  have hiff := fun e : ℤ => (@dividesByZero_of_complex (.ofInt 1) (.irrational ⟨false, 1, e⟩) .zero ⟨rfl, rfl⟩ rfl rfl).2.2
    (hobscure _ rfl) (hobscure _ rfl)
  have hmul : (irrational ⟨false, 1, -100⟩).mul (irrational ⟨false, 1, -100⟩) = .ok .zero := by decide +kernel
  rw [hiff, hiff, isLost_unit_iff, isLost_unit_iff]
  exact ⟨⟨⟨⟨_, hmul⟩, by decide⟩, isLost_of_zero rfl⟩, fun h => absurd h.1.2 (by decide)⟩

/-- An approximation of a hundred places is not zero, and yet a complex number with it cannot be divided by. -/
theorem not_dividesByZero_of_complex_only_zero : ¬ ∀ (z : Number) (c d : Real), z.toScalar.HasFiniteParts →
    c.isFinite = true → d.isFinite = true → DividesByZero z (.scalar (.complex c d)) →
    equals (.scalar (.complex c d)) (.ofInt 0) = .ok true := by
  intro hclaim
  have hdiv : div (.ofInt 1) (.scalar (.complex (.irrational ⟨false, 1, -100⟩) .zero)) =
      .error (.numeric .divisionByZero) := by decide +kernel
  have hequals : equals (.scalar (.complex (.irrational ⟨false, 1, -100⟩) .zero)) (.ofInt 0) = .ok false := by
    decide +kernel
  have htrue := hclaim (.ofInt 1) _ _ ⟨rfl, rfl⟩ rfl rfl ⟨_, hdiv, rfl⟩
  exact nomatch hequals.symm.trans htrue

end Number

end Reckon
