/-
The point that a unit draw marks between two bounds. The draw is read as its shortest decimal, which stays
below one by a unit of its sixteenth digit, so the point never passes the bounds; it is found unless the
distance of the bounds, or the part of it that is drawn, has no decimal.
-/
import Reckon.Proofs.Binary.Shortest
import Reckon.Proofs.Binary.Spacing
import Reckon.Proofs.Number.Order
import Reckon.Proofs.Parts
import Reckon.Proofs.Random.Source
import Reckon.Proofs.Real.Cutting
import Reckon.Proofs.Real.Refusal
import Reckon.Random.Numbers

namespace Reckon

open Reckon.Outcome Reckon.Real

/-! ## Draws below one -/

namespace FiniteBinary

variable {x : FiniteBinary .double}

/-- The greatest double below one. -/
def belowOne : FiniteBinary .double := ⟨false, 0x3fefffffffffffff, by decide⟩

theorem toDecimal_belowOne : belowOne.toDecimal = ⟨false, 9999999999999999, -16⟩ := by
  decide +kernel

theorem toRat_toDecimal_belowOne : belowOne.toDecimal.toRat = 1 - Decimal.tenPow (-16) := by
  rw [toDecimal_belowOne, show (⟨false, 9999999999999999, -16⟩ : Decimal).toRat = 9999999999999999 / 10 ^ 16 by decide +kernel]
  norm_num [Decimal.tenPow]

theorem absRat_belowOne : belowOne.absRat = 1 - 2 ^ (-53 : ℤ) := by
  rw [absRat_eq, show belowOne.significand = 9007199254740991 by decide, show belowOne.quantum = -53 by decide]
  norm_num

/-- A number below one does not use the bits from one on. -/
theorem quantum_le_of_lt_one (h : x.absRat < 1) : x.quantum ≤ -53 := by
  obtain hmin | hfull := x.quantum_eq_or_unit_le
  · rw [hmin]
    decide
  · have hfull : (2 : ℚ) ^ (52 : ℤ) ≤ x.significand := by exact_mod_cast hfull
    have hpow : (2 : ℚ) ^ (52 + x.quantum) < 2 ^ (0 : ℤ) := calc
      (2 : ℚ) ^ (52 + x.quantum) = 2 ^ (52 : ℤ) * 2 ^ x.quantum := zpow_add₀ two_ne_zero _ _
      _ ≤ x.significand * 2 ^ x.quantum := mul_le_mul_of_nonneg_right hfull (zpow_pos two_pos _).le
      _ < 2 ^ (0 : ℤ) := x.absRat_eq ▸ h
    have := (zpow_lt_zpow_iff_right₀ one_lt_two).1 hpow
    omega

/-- From a half up to one the doubles are the multiples of one unit, so the last one is alone in two units. -/
theorem eq_belowOne_of_lt (hsign : x.negative = false) (hlow : 1 - 2 ^ (-52 : ℤ) < x.absRat) (hhigh : x.absRat < 1) :
    x = belowOne := by
  have hvalue := x.absRat_eq
  have hlt : (x.significand : ℚ) < 2 ^ (53 : ℤ) := by exact_mod_cast x.significand_lt_unit
  have hunit : 0 < (2 : ℚ) ^ x.quantum := zpow_pos two_pos _
  have hbelow : -53 ≤ x.quantum := by
    have h : (2 : ℚ) ^ (-1 : ℤ) < 2 ^ (53 + x.quantum) := calc
      (2 : ℚ) ^ (-1 : ℤ) < 1 - 2 ^ (-52 : ℤ) := by norm_num
      _ < x.significand * 2 ^ x.quantum := hvalue ▸ hlow
      _ ≤ 2 ^ (53 : ℤ) * 2 ^ x.quantum := mul_le_mul_of_nonneg_right hlt.le hunit.le
      _ = 2 ^ (53 + x.quantum) := (zpow_add₀ two_ne_zero _ _).symm
    have := (zpow_lt_zpow_iff_right₀ one_lt_two).1 h
    omega
  have hquantum := le_antisymm (quantum_le_of_lt_one hhigh) hbelow
  have hsignificand : x.significand = 9007199254740991 := by
    rw [hvalue, hquantum] at hlow
    have h : (9007199254740990 : ℚ) < x.significand := by
      norm_num at hlow
      linarith only [hlow]
    have h' : x.significand < 9007199254740992 := x.significand_lt_unit
    have : 9007199254740990 < x.significand := by exact_mod_cast h
    omega
  refine eq_of_absRat hsign ?_
  rw [hvalue, hquantum, hsignificand, absRat_belowOne]
  norm_num

/-- The shortest decimal of a double from zero up to one ends a unit of the sixteenth digit before one. -/
theorem toDecimal_mem (h0 : 0 ≤ x.toRat) (h1 : x.toRat < 1) :
    x.toDecimal.toRat ∈ Set.Icc 0 (1 - Decimal.tenPow (-16)) := by
  have habs : 0 ≤ x.absRat := by
    rw [absRat_eq]
    positivity
  have hroom : (0 : ℚ) ≤ 1 - Decimal.tenPow (-16) := by
    norm_num [Decimal.tenPow]
  cases hsign : x.negative with
  | true =>
    have hzero : x.absRat = 0 := by
      -- a negative number that is not below zero is the negative zero
      rw [toRat, if_pos hsign] at h0
      linarith only [h0, habs]
    have hnone : (FiniteBinary.zero true : FiniteBinary .double).absRat = 0 := by
      rw [absRat_eq, show (FiniteBinary.zero true : FiniteBinary .double).significand = 0 by decide, Nat.cast_zero,
        zero_mul]
    obtain rfl : x = .zero true := eq_of_absRat hsign (hzero.trans hnone.symm)
    rw [show (FiniteBinary.zero true : FiniteBinary .double).toDecimal.toRat = 0 by decide +kernel]
    exact ⟨le_rfl, hroom⟩
  | false =>
    rw [toRat, if_neg (by rw [hsign]; exact Bool.false_ne_true)] at h1
    constructor
    · rw [toRat_toDecimal, hsign]
      have := Decimal.tenPow_pos x.shortest.2
      simp only [Bool.false_eq_true, if_false, one_mul]
      positivity
    · by_cases hlow : 1 - 2 ^ (-52 : ℤ) < x.absRat
      · rw [eq_belowOne_of_lt hsign hlow h1]
        exact toRat_toDecimal_belowOne.le
      · -- two units below one, the decimal is at most half a unit of the double away
        have hquantum : x.quantum ≤ -53 := quantum_le_of_lt_one h1
        have herror := (abs_le.1 x.toDecimal_error).2
        rw [toRat, if_neg (by rw [hsign]; exact Bool.false_ne_true)] at herror
        have hunit : (2 : ℚ) ^ x.quantum ≤ 2 ^ (-53 : ℤ) := zpow_le_zpow_right₀ one_le_two hquantum
        norm_num [Decimal.tenPow] at hlow hunit ⊢
        linarith only [hlow, hunit, herror]

end FiniteBinary

/-! ## Numbers in order -/

/-- The first number compares as at most the second one. -/
def Number.AtMost (x y : Number) : Prop := ∃ o, x.compare y = .ok o ∧ o ≠ .gt

theorem Number.atMost_iff {x y : Real} {p q : ℚ} (hx : x.toRat? = some p) (hy : y.toRat? = some q) :
    AtMost (.ofReal x) (.ofReal y) ↔ p ≤ q := by
  have hcompare := compare_eq_cmp (a := .ofReal x) (b := .ofReal y) (place?_of_toRat? hx) (place?_of_toRat? hy)
  rw [ExtendedRat.finite_strictMono.cmp_map_eq] at hcompare
  rw [← not_lt, ← cmp_eq_gt_iff]
  constructor
  · rintro ⟨o, ho, hne⟩
    rw [hcompare] at ho
    rwa [Except.ok.inj ho]
  · intro hne
    exact ⟨_, hcompare, hne⟩

/-! ## Decimals between bounds -/

namespace Decimal

/-- What is found has the value, and so there is one to find. -/
theorem GivesValue.of_eq_ok {x : Outcome Decimal} {p : Prop} {v : ℚ} {r : Decimal} (h : GivesValue x p v)
    (hr : x = .ok r) : p ∧ r.toRat = v := by
  by_cases hp : p
  · obtain ⟨r', hr', hv⟩ := h.ok hp
    obtain rfl := Except.ok.inj (hr.symm.trans hr')
    exact ⟨hp, hv⟩
  · obtain ⟨e, he⟩ := h.error hp
    cases hr.symm.trans he

/-- A sum needs no more places than its terms, so it is a decimal unless it is too large. -/
theorem representable_add {p q : ℚ} (hp : Representable p) (hq : Representable q) (h : |p + q| < tenPow (maxExponent + 1)) :
    Representable (p + q) := by
  obtain ⟨a, ha, rfl⟩ := hp
  obtain ⟨b, hb, rfl⟩ := hq
  obtain ⟨hamin, hamax⟩ := (inRange_iff a).1 ha
  obtain ⟨hbmin, hbmax⟩ := (inRange_iff b).1 hb
  refine ⟨sum a b, (inRange_iff _).2 ⟨?_, (adjusted_le_iff _ _).2 ⟨?_, ?_⟩⟩, toRat_sum a b⟩
  · exact le_min hamin hbmin
  · exact (min_le_left _ _).trans ((adjusted_le_iff a _).1 hamax).1
  · rwa [toRat_sum]

end Decimal

namespace Random

open Sampler Decimal

/-- The point at a fraction of the way from one decimal to another. -/
def point (a b f : Decimal) : Outcome Decimal := do a.add (← (← b.sub a).mul f)

theorem scale_finite (a b f : Decimal) : scale a b (.finite f) = (point a b f).map .finite := by
  unfold scale point
  cases b.sub a with
  | error e => rfl
  | ok d =>
    change ((d.mul f).map ExtendedDecimal.finite >>= (ExtendedDecimal.finite a).add) = ((d.mul f) >>= a.add).map .finite
    cases d.mul f with
    | error e => rfl
    | ok m => rfl

section Point

variable {a b f : Decimal}

/-- A smaller part of the way marks a point on the way. -/
theorem point_mem_uIcc {a b f g : ℚ} (h0 : 0 ≤ f) (h1 : f ≤ g) : a + (b - a) * f ∈ Set.uIcc a (a + (b - a) * g) := by
  rw [Set.mem_uIcc]
  rcases le_total 0 (b - a) with h | h
  · exact .inl ⟨le_add_of_nonneg_right (mul_nonneg h h0), add_le_add_right (mul_le_mul_of_nonneg_left h1 h) a⟩
  · exact .inr ⟨add_le_add_right (mul_le_mul_of_nonpos_left h1 h) a, add_le_of_nonpos_right (mul_nonpos_of_nonpos_of_nonneg h h0)⟩

theorem point_mem_Icc {a b f : ℚ} (hab : a ≤ b) (h0 : 0 ≤ f) (h1 : f ≤ 1) : a + (b - a) * f ∈ Set.Icc a b := by
  have hmem := point_mem_uIcc (a := a) (b := b) h0 h1
  rwa [mul_one, add_sub_cancel, Set.uIcc_of_le hab] at hmem

theorem abs_point_le {a b f : ℚ} (h0 : 0 ≤ f) (h1 : f ≤ 1) : |a + (b - a) * f| ≤ max |a| |b| := by
  have hmem := point_mem_uIcc (a := a) (b := b) h0 h1
  rw [mul_one, add_sub_cancel, Set.mem_uIcc] at hmem
  rcases hmem with ⟨hlow, hhigh⟩ | ⟨hlow, hhigh⟩
  · exact abs_le_max_abs_abs hlow hhigh
  · exact (abs_le_max_abs_abs hlow hhigh).trans_eq (max_comm _ _)

/-- The point is found if there are decimals for the distance and for the part of it. -/
theorem givesValue_point (ha : a.inRange = true) (hb : b.inRange = true) (h0 : 0 ≤ f.toRat) (h1 : f.toRat ≤ 1) :
    GivesValue (point a b f) (Representable (b.toRat - a.toRat) ∧ Representable ((b.toRat - a.toRat) * f.toRat))
      (a.toRat + (b.toRat - a.toRat) * f.toRat) := by
  have hsize : |a.toRat + (b.toRat - a.toRat) * f.toRat| < tenPow (maxExponent + 1) :=
    (abs_point_le h0 h1).trans_lt (max_lt ((inRange_iff_withinRange a).1 ha).2.2 ((inRange_iff_withinRange b).1 hb).2.2)
  constructor
  · rintro ⟨hdistance, hpart⟩
    obtain ⟨d, hd, hdv⟩ := (givesValue_sub b a).ok hdistance
    obtain ⟨m, hm, hmv⟩ := (givesValue_mul d f).ok (by rwa [hdv])
    rw [hdv] at hmv
    obtain ⟨y, hy, hyv⟩ := (givesValue_add a m).ok (by rw [hmv]; exact representable_add ⟨a, ha, rfl⟩ hpart hsize)
    exact ⟨y, bind_eq_ok.2 ⟨d, hd, bind_eq_ok.2 ⟨m, hm, hy⟩⟩, by rw [hyv, hmv]⟩
  · intro hnot
    cases hpoint : point a b f with
    | error e => exact ⟨e, rfl⟩
    | ok y =>
      obtain ⟨d, hd, hrest⟩ := bind_eq_ok.1 hpoint
      obtain ⟨m, hm, -⟩ := bind_eq_ok.1 hrest
      obtain ⟨hdistance, hdv⟩ := (givesValue_sub b a).of_eq_ok hd
      obtain ⟨hpart, -⟩ := (givesValue_mul d f).of_eq_ok hm
      exact absurd ⟨hdistance, hdv ▸ hpart⟩ hnot

theorem point_range : InRange (point a b f) := by
  unfold point
  exact (fit_range _).bind fun d _ => (fit_range _).bind fun m _ => fit_range _

theorem inRange_of_point {y : Decimal} (h : point a b f = .ok y) : y.inRange = true := by
  obtain ⟨d, -, hrest⟩ := bind_eq_ok.1 h
  obtain ⟨m, -, hy⟩ := bind_eq_ok.1 hrest
  exact inRange_of_fit hy

end Point

/-! ## Draws between bounds -/

section Bounds

variable {lo hi : Real} {a b : Decimal} (ha : lo.decimal? = some a) (hb : hi.decimal? = some b)

/-- The operand is a real number of the library. -/
theorem bound_ofReal (ha : lo.decimal? = some a) : bound (.number (.ofReal lo)) = .ok a := by
  have hscalar : Operand.toScalar (.number (.ofReal lo)) = .ok (.real lo) := rfl
  unfold bound
  rw [hscalar, ok_bind]
  simp only [ha]

include ha hb

/-- What begins with a point between two bounds goes on with the point, and fails without one. -/
theorem outcomeOn_scaled {β : Type} (k : Decimal → Decimal → ExtendedDecimal → Sampler β) (x : FiniteBinary .double)
    (rest : List Draw) (requests : List Request) :
    outcomeOn (ofOutcome (bound (.number (.ofReal lo))) >>= fun a => ofOutcome (bound (.number (.ofReal hi))) >>= fun b =>
        unit >>= fun u => ofOutcome (scale a b u) >>= k a b) ⟨.real (.finite x) :: rest, requests⟩ =
      match point a b x.toDecimal with
      | .ok y => outcomeOn (k a b (.finite y)) ⟨rest, .unit :: requests⟩
      | .error e => (.error (.failed e), ⟨rest, .unit :: requests⟩) := by
  rw [bound_ofReal ha, bound_ofReal hb]
  change outcomeOn (ofOutcome (scale a b (.finite x.toDecimal)) >>= k a b) ⟨rest, .unit :: requests⟩ = _
  rw [scale_finite]
  cases point a b x.toDecimal <;> rfl

end Bounds

end Random

end Reckon
