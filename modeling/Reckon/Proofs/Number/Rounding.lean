/-
Rounding and cutting numbers. An integer stays one, and every other finite number becomes a big number;
either way the result has the rounded value of the rational behind the operand, whether that was rounded
as a rational or by its stored digits. Doing it again changes nothing.
-/
import Reckon.Number.Rounding
import Reckon.Proofs.Decimal.Rounding
import Reckon.Proofs.Number.Order
import Reckon.Proofs.Parts

namespace Reckon

open Reckon.Outcome Reckon.Decimal

namespace Decimal.RoundsTo

variable {exact : ℚ → ℤ → Outcome Decimal} {stored : Decimal → ℤ → Outcome Decimal} {value : ℤ → ℚ → ℚ}

/-- Rounding stored digits and rounding their value give decimals of one value, or both fail. -/
def Agree (r s : Outcome Decimal) : Prop :=
  (∃ a b, r = .ok a ∧ s = .ok b ∧ a.toRat = b.toRat) ∨ ∃ e f, r = .error e ∧ s = .error f

theorem agree (h : RoundsTo exact stored value) {d : Decimal} (hd : d.inRange = true) {places : ℤ}
    (hplaces : places ≤ -minExponent) : Agree (stored d places) (exact d.toRat places) := by
  have hstored := h.stored d places hd
  have hexact := h.exact d.toRat places
  by_cases hin : WithinRange places (value places d.toRat)
  · obtain ⟨a, ha, hav⟩ := hstored.ok hin
    obtain ⟨b, hb, hbv⟩ := hexact.ok ⟨hplaces, hin⟩
    exact .inl ⟨a, b, ha, hb, hav.trans hbv.symm⟩
  · obtain ⟨e, he⟩ := hstored.error hin
    obtain ⟨f, hf⟩ := hexact.error fun hboth => hin hboth.2
    exact .inr ⟨e, f, he, hf⟩

theorem again (h : RoundsTo exact stored value) (places : ℤ) (q : ℚ) : value places (value places q) = value places q :=
  h.self places _ (h.multiple places q)

/-- A whole number is a multiple of every place behind the point. -/
theorem value_intCast (h : RoundsTo exact stored value) {places : ℤ} (hplaces : 0 ≤ places) (n : ℤ) :
    value places n = n := by
  refine h.self places _ ⟨n * 10 ^ places.toNat, ?_⟩
  rw [← mul_one (n : ℚ), ← tenPow_zero, ← add_neg_cancel places, tenPow_add, tenPow_toNat hplaces]
  push_cast
  ring

/-- Before the point every place is whole. -/
theorem exists_intCast (h : RoundsTo exact stored value) {places : ℤ} (hplaces : places < 0) (q : ℚ) :
    ∃ n : ℤ, value places q = n := by
  obtain ⟨n, hn⟩ := h.multiple places q
  refine ⟨n * 10 ^ (-places).toNat, ?_⟩
  rw [hn, tenPow_toNat (by omega)]
  push_cast
  rfl

/-- Before the point an integer stays as it is if it ends in as many zeros. -/
theorem value_intCast_eq_iff (h : RoundsTo exact stored value) {places : ℤ} (hplaces : places < 0) (n : ℤ) :
    value places n = n ↔ ((10 ^ (-places).toNat : Nat) : ℤ) ∣ n := by
  have hunit := tenPow_toNat (show 0 ≤ -places by omega)
  constructor
  · intro hself
    obtain ⟨k, hk⟩ := h.multiple places n
    rw [hself, hunit] at hk
    exact Dvd.intro_left k (by exact_mod_cast hk.symm)
  · rintro ⟨k, hk⟩
    refine h.self places n ⟨k, ?_⟩
    rw [hunit, hk]
    push_cast
    ring

end Decimal.RoundsTo

namespace Number

/-! ## The numbers that come out -/

/-- A number of the value: an integer for an integer, a big number for a real one. -/
inductive IsRounded : Number → Number → ℚ → Prop
  | integer (n m : Integer) : IsRounded (.integer n) (.integer m) m.value
  | big (x : Real) (d : Decimal) : IsRounded (.ofReal x) (.ofReal (.big d)) d.toRat

/-- On the condition `p` the operation has the rounded number as its result, else it fails; on the
condition `again` the result is equal to what the operation makes of it. -/
structure GivesRounded (op : Number → ℤ → Outcome Number) (x : Number) (places : ℤ) (p again : Prop) (v : ℚ) : Prop where
  ok : p → ∃ y, op x places = .ok y ∧ IsRounded x y v ∧ (again → ∃ z, op y places = .ok z ∧ z.equals y = .ok true)
  error : ¬ p → ∃ e, op x places = .error e

/-- An operation on numbers rounds integers and finite real numbers to the value. An exact number cannot be
rounded to more places than the least exponent has. -/
structure RoundsNumbers (op : Number → ℤ → Outcome Number) (value : ℤ → ℚ → ℚ) : Prop where
  integer : ∀ (n : Integer) (places : ℤ),
    GivesRounded op (.integer n) places (0 ≤ places ∨ WithinRange places (value places n.value)) True
      (value places n.value)
  real : ∀ (x : Real) (q : ℚ) (places : ℤ), x.IsStored → x.toRat? = some q →
    GivesRounded op (.ofReal x) places
      ((x.exactRat?.isSome = true → places ≤ -minExponent) ∧ WithinRange places (value places q))
      (places ≤ -minExponent) (value places q)

section Rounding

variable {exact : ℚ → ℤ → Outcome Decimal} {stored : Decimal → ℤ → Outcome Decimal} {value : ℤ → ℚ → ℚ}
  (h : RoundsTo exact stored value)

include h

theorem roundInteger_gives (n : Integer) (places : ℤ) (hplaces : places < 0)
    (hin : WithinRange places (value places n.value)) :
    ∃ m : ℤ, roundInteger exact n places = .ok (.ofInt m) ∧ (m : ℚ) = value places n.value := by
  obtain ⟨m, hm⟩ := h.exists_intCast hplaces n.value
  have hmin : minExponent ≤ 0 := by decide
  obtain ⟨r, hr, hvalue⟩ := (h.exact n.value places).ok ⟨by omega, hin⟩
  refine ⟨m, ?_, hm.symm⟩
  rw [roundInteger, if_neg (by omega), hr, ok_bind, toInt_of_toRat (hvalue.trans hm)]

theorem givesRounded_integer {op : Number → ℤ → Outcome Number}
    (hop : ∀ (n : Integer) (places : ℤ), op (.integer n) places = roundInteger exact n places) (n : Integer) (places : ℤ) :
    GivesRounded op (.integer n) places (0 ≤ places ∨ WithinRange places (value places n.value)) True
      (value places n.value) := by
  by_cases hplaces : 0 ≤ places
  · have hkeep : op (.integer n) places = .ok (.integer n) := by rw [hop, roundInteger, if_pos hplaces]
    have hequal : (integer n).equals (.integer n) = .ok true := by simp [equals]
    rw [h.value_intCast hplaces]
    exact ⟨fun _ => ⟨_, hkeep, .integer n n, fun _ => ⟨_, hkeep, hequal⟩⟩, fun hnot => absurd (.inl hplaces) hnot⟩
  · constructor
    · intro hin
      have hin := hin.resolve_left hplaces
      obtain ⟨m, hm, hvalue⟩ := roundInteger_gives h n places (not_le.1 hplaces) hin
      have hagain : value places m = m := by rw [hvalue, h.again]
      obtain ⟨k, hk, hkvalue⟩ := roundInteger_gives h ⟨m, none⟩ places (not_le.1 hplaces)
        (by rw [hagain, hvalue]; exact hin)
      have hkm : k = m := by exact_mod_cast hkvalue.trans hagain
      rw [← hvalue]
      refine ⟨.ofInt m, (hop n places).trans hm, .integer n ⟨m, none⟩, fun _ => ⟨.ofInt k, (hop _ _).trans hk, ?_⟩⟩
      simp [equals, ofInt, hkm]
    · intro hnot
      have hmin : minExponent ≤ 0 := by decide
      obtain ⟨e, he⟩ := (h.exact n.value places).error fun hboth => hnot (.inr hboth.2)
      exact ⟨e, by rw [hop, roundInteger, if_neg hplaces, he]; rfl⟩

omit h in
/-- What a finite number is rounded by: its exact rational, else its stored digits. -/
theorem roundWith_spec {x : Real} {q : ℚ} (hq : x.toRat? = some q) (f : ℚ → Outcome Decimal) (g : Decimal → Outcome Decimal) :
    x.exactRat? = some q ∧ x.roundWith f g = (f q).map (fun r => .big r.strip) ∨
      ∃ d, x.exactRat? = none ∧ x.decimal? = some d ∧ d.toRat = q ∧ x.roundWith f g = (g d).map fun r => .big r.strip := by
  cases hexact : x.exactRat? with
  | some p =>
    obtain rfl : p = q := Option.some.inj ((Real.toRat?_of_exactRat? hexact).symm.trans hq)
    obtain ⟨d, hd⟩ : ∃ d, x.decimal? = some d := by
      cases x with
      | infinite | nan => cases hexact
      | _ => exact ⟨_, rfl⟩
    refine .inl ⟨rfl, ?_⟩
    simp only [Real.roundWith, hd, hexact]
    cases f p <;> rfl
  | none =>
    rw [Real.toRat?, hexact] at hq
    obtain ⟨d, hd, hdq⟩ := Option.map_eq_some_iff.1 hq
    refine .inr ⟨d, rfl, hd, hdq, ?_⟩
    simp only [Real.roundWith, hd, hexact]
    cases g d <;> rfl

/-- A finite number is rounded to a big one of the rounded value. -/
theorem roundWith_gives {x : Real} (hx : x.IsStored) {q : ℚ} (hq : x.toRat? = some q) (places : ℤ) :
    ∃ r, x.roundWith (exact · places) (stored · places) = r.map (fun d => Real.big d.strip) ∧
      GivesValue r ((x.exactRat?.isSome = true → places ≤ -minExponent) ∧ WithinRange places (value places q))
        (value places q) := by
  rcases roundWith_spec hq (exact · places) (stored · places) with ⟨hexact, hround⟩ | ⟨d, hexact, hd, rfl, hround⟩
  · refine ⟨_, hround, ?_⟩
    rw [hexact]
    simpa using h.exact q places
  · refine ⟨_, hround, ?_⟩
    rw [hexact]
    simpa using h.stored d places (hx.inRange hd)

theorem givesRounded_real {op : Number → ℤ → Outcome Number}
    (hop : ∀ (x : Real) (places : ℤ), op (.ofReal x) places = (x.roundWith (exact · places) (stored · places)).map .ofReal)
    {x : Real} (hx : x.IsStored) {q : ℚ} (hq : x.toRat? = some q) (places : ℤ) :
    GivesRounded op (.ofReal x) places
      ((x.exactRat?.isSome = true → places ≤ -minExponent) ∧ WithinRange places (value places q))
      (places ≤ -minExponent) (value places q) := by
  obtain ⟨r, hround, hgives⟩ := roundWith_gives h hx hq places
  constructor
  · intro hin
    obtain ⟨d, rfl, hd⟩ := hgives.ok hin
    have hstrip : d.strip.toRat = value places q := (toRat_strip d).trans hd
    rw [← hstrip]
    refine ⟨.ofReal (.big d.strip), ?_, .big x d.strip, fun hplaces => ?_⟩
    · rw [hop, hround]
      rfl
    -- what is rounded already is a multiple, and rounding keeps multiples
    · have hagain : value places d.strip.toRat = d.strip.toRat := by rw [hstrip, h.again]
      rcases roundWith_spec (x := .big d.strip) rfl (exact · places) (stored · places) with ⟨-, hround⟩ | ⟨c, hnone, -⟩
      · obtain ⟨s, hs, hvalue⟩ := (h.exact d.strip.toRat places).ok
          ⟨hplaces, by rw [hagain, hstrip]; exact hin.2⟩
        refine ⟨.ofReal (.big s.strip), ?_, ?_⟩
        · rw [hop, hround, hs]
          rfl
        · rw [Real.equals_ofReal_of_exactRat? rfl rfl, toRat_strip, hvalue, hagain, beq_self_eq_true]
      · cases hnone
  · intro hnot
    obtain ⟨e, rfl⟩ := hgives.error hnot
    exact ⟨e, by rw [hop, hround]; rfl⟩

theorem roundsNumbers {op : Number → ℤ → Outcome Number}
    (hinteger : ∀ (n : Integer) (places : ℤ), op (.integer n) places = roundInteger exact n places)
    (hreal : ∀ (x : Real) (places : ℤ), op (.ofReal x) places = (x.roundWith (exact · places) (stored · places)).map .ofReal) :
    RoundsNumbers op value where
  integer := givesRounded_integer h hinteger
  real _ _ places hx hq := givesRounded_real h hreal hx hq places

end Rounding

theorem map_map_ofReal (x : Outcome Real) : (x.map Scalar.real).map Number.scalar = x.map .ofReal := by
  cases x <;> rfl

theorem roundTo_rounds : RoundsNumbers roundTo rounded :=
  roundsNumbers roundsTo_nearest (fun _ _ => rfl) fun _ _ => map_map_ofReal _

theorem truncate_rounds : RoundsNumbers truncate cut :=
  roundsNumbers roundsTo_cut (fun _ _ => rfl) fun _ _ => map_map_ofReal _

/-- Rounding gives the nearest multiple of the last place, a half away from zero, and cutting the greatest
one that is not beyond the number. Rationals, stored decimals and numbers are rounded to the same values, as
far as the last place and the result lie in the range of exponents; else the operation fails. -/
theorem rounding_is_correct :
    (∀ (places : ℤ) (q : ℚ), IsNearestMultiple (tenPow (-places)) q (rounded places q) ∧
      IsCutMultiple (tenPow (-places)) q (cut places q)) ∧
    RoundsTo roundRat Decimal.round rounded ∧ RoundsTo truncateRat Decimal.truncate cut ∧
    (∀ (d : Decimal) (places : ℤ), d.inRange = true → places ≤ 1999999999999999997 →
      RoundsTo.Agree (d.round places) (roundRat d.toRat places) ∧
      RoundsTo.Agree (d.truncate places) (truncateRat d.toRat places)) ∧
    RoundsNumbers roundTo rounded ∧ RoundsNumbers truncate cut :=
  ⟨fun places q => ⟨isNearestMultiple_rounded places q, isCutMultiple_cut places q⟩, roundsTo_nearest, roundsTo_cut,
    fun _ _ hd hplaces => ⟨roundsTo_nearest.agree hd hplaces, roundsTo_cut.agree hd hplaces⟩, roundTo_rounds, truncate_rounds⟩

/-- An approximation that ends in a half is rounded away from zero. -/
theorem rounding_is_correct_minus_eighth : (Real.irrational ⟨true, 125, -3⟩).IsStored ∧
    ∃ y z, roundTo (.ofReal (.irrational ⟨true, 125, -3⟩)) 2 = .ok y ∧
      IsRounded (.ofReal (.irrational ⟨true, 125, -3⟩)) y (-13 / 100) ∧ roundTo y 2 = .ok z ∧ z.equals y = .ok true := by
  have hstored : (Real.irrational ⟨true, 125, -3⟩).IsStored :=
    show inRange ⟨true, 125, -3⟩ = true by with_unfolding_all decide
  have hq : (Real.irrational ⟨true, 125, -3⟩).toRat? = some (-1 / 8) := by
    refine congrArg some ?_
    rw [toRat_eq_sign]
    norm_num [tenPow]
  have hvalue : rounded 2 (-1 / 8) = -13 / 100 := by norm_num [rounded, tenPow]
  have hsmall : |(-13 / 100 : ℚ)| < tenPow (maxExponent + 1) :=
    lt_of_lt_of_le (by norm_num [tenPow]) (tenPow_le_tenPow.2 (show (0 : ℤ) ≤ maxExponent + 1 by decide))
  obtain ⟨-, -, -, -, hround, -⟩ := rounding_is_correct
  obtain ⟨y, hy, hform, hagain⟩ := (hround.real _ _ 2 hstored hq).ok
    ⟨fun h => absurd h Bool.false_ne_true, by decide, by rwa [hvalue]⟩
  obtain ⟨z, hz, hequal⟩ := hagain (by decide)
  exact ⟨hstored, y, z, hy, hvalue ▸ hform, hz, hequal⟩

/-- One half is nearest to zero among the multiples of a place above the range of exponents, but there it
cannot be rounded at all; and to more places than the least exponent it can be rounded only once. -/
theorem rounding_leaves_range :
    (Real.irrational ⟨false, 5, -1⟩).toRat? = some (1 / 2) ∧
    IsNearestMultiple (tenPow 1000000000000000000) (1 / 2) 0 ∧ IsCutMultiple (tenPow 1000000000000000000) (1 / 2) 0 ∧
    roundTo (.ofReal (.irrational ⟨false, 5, -1⟩)) (-1000000000000000000) = .error .decimalRange ∧
    truncate (.ofReal (.irrational ⟨false, 5, -1⟩)) (-1000000000000000000) = .error .decimalRange ∧
    ∃ y e, roundTo (.ofReal (.irrational ⟨false, 5, -1⟩)) 1999999999999999998 = .ok y ∧
      roundTo y 1999999999999999998 = .error e := by
  have hhalf : (1 / 2 : ℚ) < tenPow 1000000000000000000 :=
    lt_of_lt_of_le (by norm_num [tenPow]) (tenPow_le_tenPow.2 (show (0 : ℤ) ≤ 1000000000000000000 by decide))
  have hcut : cut (-1000000000000000000) (1 / 2) = 0 := by
    rw [cut_eq_zero_iff, neg_neg, abs_of_pos (by norm_num)]
    exact hhalf
  have hrounded : rounded (-1000000000000000000) (1 / 2) = 0 := by
    have htiny : tenPow (-1000000000000000000) < 1 := tenPow_lt_tenPow.2 (show (-1000000000000000000 : ℤ) < 0 by decide)
    have hfloor : ⌊|(1 / 2 : ℚ)| * tenPow (-1000000000000000000) + 1 / 2⌋₊ = 0 := by
      rw [Nat.floor_eq_zero, abs_of_pos (by norm_num)]
      linarith
    rw [rounded, hfloor, Nat.cast_zero, zero_mul, mul_zero]
  have hq : (Real.irrational ⟨false, 5, -1⟩).toRat? = some (1 / 2) := by
    refine congrArg some ?_
    rw [toRat_eq_sign]
    norm_num [tenPow]
  -- the rounded number is exact, and an exact one has no room for so many places
  have hbig : ∃ e, roundTo (.ofReal (.big ⟨false, 5, -1⟩)) 1999999999999999998 = .error e := by
    have hstored : (Real.big ⟨false, 5, -1⟩).IsStored := show inRange ⟨false, 5, -1⟩ = true by with_unfolding_all decide
    refine (roundTo_rounds.real (.big ⟨false, 5, -1⟩) _ _ hstored rfl).error fun h => ?_
    exact absurd (h.1 rfl) (by decide)
  obtain ⟨e, he⟩ := hbig
  have hnearest := isNearestMultiple_rounded (-1000000000000000000) (1 / 2)
  have hgreatest := isCutMultiple_cut (-1000000000000000000) (1 / 2)
  rw [hrounded, neg_neg] at hnearest
  rw [hcut, neg_neg] at hgreatest
  refine ⟨hq, hnearest, hgreatest, by with_unfolding_all decide, by with_unfolding_all decide,
    .ofReal (.big ⟨false, 5, -1⟩), e, by with_unfolding_all decide, he⟩

end Number

end Reckon
