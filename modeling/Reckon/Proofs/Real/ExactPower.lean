/-
When a power that is not marked as an approximation is exact. It is if it is computed exactly, and
otherwise it is one of two things: the exact power to a small fraction near the exponent, or an
approximation of which no fraction is left.
-/
import Reckon.Proofs.Real.Power

namespace Reckon.Real

open Reckon.Outcome Reckon.Roots Reckon.Expansion

/-! ## Results -/

/-- The number stands for the rational: it stores its decimal, or it is the repeating value made of it. -/
inductive Denotes : Real → ℚ → Prop
  | decimal (d : Decimal) : Denotes (.big d) d.toRat
  | repeating {d : Decimal} {q : ℚ} : ofRat q = .ok (.recurring d) → Denotes (.recurring d) q

theorem denotes_of_ofRat {q : ℚ} {x : Real} (h : ofRat q = .ok x) : Denotes x q := by
  by_cases hq : Terminates q
  · obtain ⟨places, units, hleast⟩ := exists_isLeastPlaces hq
    rw [ofRat_of_terminates hleast, Decimal.ofScaled, map_eq_ok] at h
    obtain ⟨d, hd, rfl⟩ := h
    obtain ⟨rfl, -⟩ := Decimal.make_eq_ok_iff.1 hd
    have hvalue := toRat_of_isLeastPlaces hleast
    exact hvalue ▸ Denotes.decimal _
  · have hx := h
    rw [ofRat_of_not_terminates hq] at hx
    obtain rfl := Except.ok.inj hx
    exact .repeating h

/-- An approximation of which the cut to the precision leaves an integer. -/
def IsWhole (x : Real) (q : ℚ) : Prop := ∃ (d : Decimal) (n : ℤ), x = .big d ∧ d.toRat = n ∧ Decimal.cut precision q = n

theorem ofApproximation_cases {d : Decimal} {x : Real} (h : ofApproximation d = .ok x) :
    x.isIrrational = true ∨ IsWhole x d.toRat := by
  obtain ⟨r, hr, h⟩ := bind_eq_ok.1 h
  obtain rfl := Except.ok.inj h
  split
  · exact .inl rfl
  · rename_i hwhole
    have hden := not_not.1 ((Decimal.hasFraction_iff r).not.1 hwhole)
    have hvalue := (Rat.coe_int_num_of_den_eq_one hden).symm
    refine .inr ⟨r.strip, r.toRat.num, rfl, ?_, ?_⟩
    · rwa [Decimal.toRat_strip]
    · rwa [← Decimal.toRat_truncate hr]

/-! ## Routes -/

variable {base exponent x : Real}

/-- What 64-bit arithmetic gives is marked as an approximation, infinite or an integer. -/
theorem nativePower_cases (h : nativePower base exponent = .ok x) :
    x.isIrrational = true ∨ x.isInfinite = true ∨ ∃ q, IsWhole x q := by
  obtain ⟨y, -, h⟩ := bind_eq_ok.1 h
  obtain ⟨z, -, h⟩ := bind_eq_ok.1 h
  split at h
  · cases h
  · obtain rfl := Except.ok.inj h
    exact .inr (.inl rfl)
  · exact (ofApproximation_cases h).imp_right fun hx => .inr ⟨_, hx⟩

theorem orElseNumeric_eq_ok {attempt : Outcome Real} {otherwise : Unit → Outcome Real}
    (h : orElseNumeric attempt otherwise = .ok x) :
    attempt = .ok x ∨ (∃ n, attempt = .error (.numeric n)) ∧ otherwise () = .ok x := by
  unfold orElseNumeric at h
  split at h
  · exact .inr ⟨⟨_, rfl⟩, h⟩
  · exact .inl h

/-! ## Exponents -/

/-- An exponent for which a root is taken as it is. -/
def IsSmallFraction (e : ℚ) : Prop := e.den ≤ 200 ∧ e.num.natAbs ≤ 10000

/-- A small fraction that is the exponent, or close to it. -/
structure NearFraction (e r : ℚ) : Prop where
  small : IsSmallFraction r
  near : |r - e| ≤ 2 / 10 ^ 15 * max 1 |e|

theorem nearFraction_self {e : ℚ} (h : IsSmallFraction e) : NearFraction e e := by
  refine ⟨h, ?_⟩
  rw [sub_self, abs_zero]
  positivity

/-- Two small fractions are too far apart to be close to each other. -/
theorem NearFraction.eq_of_small {e r : ℚ} (h : NearFraction e r) (he : IsSmallFraction e) : r = e := by
  obtain ⟨⟨hrden, -⟩, hnear⟩ := h
  obtain ⟨heden, henum⟩ := he
  by_contra hne
  have hdiff : (r - e) * (r.den * e.den) = ((r.num * e.den - e.num * r.den : ℤ) : ℚ) := by
    have hr := Rat.mul_den_eq_num r
    have he := Rat.mul_den_eq_num e
    push_cast
    rw [← hr, ← he]
    ring
  have hdens : (0 : ℚ) < r.den * e.den := by
    have := r.den_pos
    have := e.den_pos
    positivity
  have hint : r.num * e.den - e.num * r.den ≠ 0 := by
    intro hzero
    rw [hzero, Int.cast_zero, mul_eq_zero, or_iff_left hdens.ne', sub_eq_zero] at hdiff
    exact hne hdiff
  -- two different fractions are at least one over the product of their denominators apart
  have hone : 1 ≤ |r - e| * (r.den * e.den) := by
    rw [← abs_of_pos hdens, ← abs_mul, hdiff, ← Int.cast_abs]
    exact_mod_cast Int.one_le_abs hint
  have hsize : max 1 |e| ≤ 10000 := by
    refine max_le (by norm_num) ?_
    rw [abs_eq_natAbs_div]
    exact (div_le_self (Nat.cast_nonneg _) (by exact_mod_cast e.den_pos)).trans (by exact_mod_cast henum)
  have hprod : ((r.den : ℚ) * e.den) ≤ 200 * 200 := by
    gcongr
    · exact_mod_cast hrden
    · exact_mod_cast heden
  have hclose : |r - e| * (r.den * e.den) ≤ 2 / 10 ^ 15 * 10000 * (200 * 200) := by
    refine mul_le_mul (hnear.trans ?_) hprod hdens.le (by norm_num)
    gcongr
  norm_num at hclose
  linarith

/-- A convergent of the 64-bit number for an exponent is close to the exponent. -/
theorem near_of_accepts {e : Decimal} {y : FiniteBinary .double} {p q : ℤ}
    (hy : (Binary.ofDecimal e : Double) = .finite y) (h : Accepts y.toRat p q) :
    |Rat.divInt p q - e.toRat| ≤ 2 / 10 ^ 15 * max 1 |e.toRat| := by
  have hround := Binary.ofDecimal_error hy
  have hnear := h.near
  generalize Rat.divInt p q = r at hnear ⊢
  generalize y.toRat = x at hround hnear
  generalize e.toRat = e at hround ⊢
  have htiny : (2 : ℚ) ^ (-1000 : ℤ) ≤ 1 / 10 ^ 30 := calc
    (2 : ℚ) ^ (-1000 : ℤ) ≤ 2 ^ (-100 : ℤ) := zpow_le_zpow_right₀ (by norm_num) (by norm_num)
    _ ≤ 1 / 10 ^ 30 := by norm_num
  generalize (2 : ℚ) ^ (-1000 : ℤ) = tiny at hround htiny
  have hone : 1 ≤ max 1 |e| := le_max_left _ _
  have hle : |e| ≤ max 1 |e| := le_max_right _ _
  have hsize : max 1 |x| ≤ max 1 |e| + |x - e| := by
    refine max_le (by linarith [abs_nonneg (x - e)]) ?_
    have := abs_sub_abs_le_abs_sub x e
    linarith
  have htriangle : |r - e| ≤ |x - r| + |x - e| := by
    rw [abs_sub_comm x r]
    exact abs_sub_le _ _ _
  generalize max 1 |x| = m at hnear hsize
  generalize max 1 |e| = M at hsize hone hle ⊢
  linarith

/-! ## Rational powers -/

theorem powRational_congr (b : ℚ) {p q p' q' : ℤ} (hq : q ≠ 0) (hq' : q' ≠ 0) (h : Rat.divInt p q = Rat.divInt p' q') :
    powRational b p q = powRational b p' q' := by
  unfold powRational
  rw [if_neg hq, if_neg hq', h]

theorem powRational_positive {b v r : ℚ} (hb : 0 < b) (h : powRational b r.num r.den = .ok (v, true)) :
    0 < v ∧ v ^ r.den = b ^ r.num := by
  obtain ⟨-, hpow, hsign⟩ := powRational_exact h r.den_pos r.reduced rfl
  have hpos : 0 < b ^ r.num := zpow_pos hb _
  have hnonneg : 0 ≤ v := hsign.resolve_right fun hneg => absurd hneg.2 (not_lt.2 hpos.le)
  refine ⟨hnonneg.lt_of_ne ?_, hpow⟩
  rintro rfl
  rw [zero_pow r.den_nz] at hpow
  exact hpos.ne hpow

/-- A rational power of a stored decimal: exact, or cut. -/
theorem rationalPower_cases {b : Decimal} {p q : ℤ} (h : rationalPower (.big b) p q = .ok x) :
    ∃ v, powRational b.toRat p q = .ok (v, true) ∧ ofRat v = .ok x ∨
      powRational b.toRat p q = .ok (v, false) ∧ (x.isIrrational = true ∨ IsWhole x v) := by
  obtain ⟨_, hb, h⟩ := bind_eq_ok.1 h
  obtain rfl := Except.ok.inj hb
  obtain ⟨⟨v, exact⟩, hpow, h⟩ := bind_eq_ok.1 h
  refine ⟨v, ?_⟩
  cases exact with
  | true => exact .inl ⟨hpow, h⟩
  | false =>
    obtain ⟨d, hd, h⟩ := bind_eq_ok.1 h
    refine .inr ⟨hpow, (ofApproximation_cases h).imp_right ?_⟩
    rintro ⟨d', n, rfl, hn, hcut⟩
    rw [Decimal.toRat_truncateRat hd, Decimal.cut_cut] at hcut
    exact ⟨d', n, rfl, hn, hcut⟩

theorem rationalPower_congr (base : Real) {p q p' q' : ℤ} (hq : q ≠ 0) (hq' : q' ≠ 0)
    (h : Rat.divInt p q = Rat.divInt p' q') : rationalPower base p q = rationalPower base p' q' := by
  unfold rationalPower
  simp only [powRational_congr _ hq hq' h]

/-! ## Exponents that are no integers -/

section

variable {e : Decimal}

theorem convergentPower_cases (h : convergentPower base (.big e) = .ok x) :
    (∃ r, NearFraction e.toRat r ∧ rationalPower base r.num r.den = .ok x) ∨ nativePower base (.big e) = .ok x := by
  have hproject : (big e).project = .ok (Binary.ofDecimal e) := rfl
  obtain ⟨answer, hanswer, haccept⟩ := rationalApproximation_ok (Binary.ofDecimal e)
  unfold convergentPower at h
  rw [hproject, ok_bind, hanswer, ok_bind] at h
  split at h
  · rename_i p q
    obtain ⟨y, hy, hq, hq', hp⟩ := haccept p q rfl
    rw [show maxDenominator = 200 from rfl] at hq'
    rw [show maxNumerator = 10000 from rfl] at h
    split at h
    · rename_i hnum
      refine (orElseNumeric_eq_ok h).imp (fun h => ⟨Rat.divInt p q, ⟨⟨?_, ?_⟩, near_of_accepts hy hp⟩, ?_⟩) And.right
      · exact (den_divInt_le p (by omega)).trans (by omega)
      · exact (natAbs_num_divInt_le p (by omega)).trans (by omega)
      · rwa [rationalPower_congr base (by have := (Rat.divInt p q).den_pos; omega) (show q ≠ 0 by omega)
          (Rat.num_divInt_den _)]
    · exact .inr h
  · exact .inr h

theorem isSmallFraction_iff (q : ℚ) :
    ((q.den : ℤ) ≤ maxDenominator ∧ (q.num.natAbs : ℤ) ≤ maxNumerator) ↔ IsSmallFraction q := by
  rw [show maxDenominator = 200 from rfl, show maxNumerator = 10000 from rfl]
  unfold IsSmallFraction
  omega

theorem fractionalPower_cases (h : fractionalPower base (.big e) = .ok x) :
    (∃ r, NearFraction e.toRat r ∧ rationalPower base r.num r.den = .ok x) ∨
      nativePower base (.big e) = .ok x ∧
        (IsSmallFraction e.toRat → ∃ n, rationalPower base e.toRat.num e.toRat.den = .error (.numeric n)) := by
  unfold fractionalPower at h
  rw [show (big e).exactRat? = some e.toRat from rfl] at h
  simp only at h
  split at h
  · rename_i hsmall
    rw [isSmallFraction_iff] at hsmall
    rcases orElseNumeric_eq_ok h with h | ⟨hfail, h⟩
    · exact .inl ⟨_, nearFraction_self hsmall, h⟩
    · exact (convergentPower_cases h).imp_right fun h => ⟨h, fun _ => hfail⟩
  · rename_i hlarge
    rw [isSmallFraction_iff] at hlarge
    exact (convergentPower_cases h).imp_right fun h => ⟨h, fun hsmall => absurd hsmall hlarge⟩

end

/-! ## All exponents -/

/-- The power is computed without rounding: by squaring as long as the result stays small, or by a root
that turns out to be exact. -/
def IsComputedExactly (b e : ℚ) : Prop :=
  if e.den = 1 then e.num.natAbs * max (bitLength b.num.natAbs) (bitLength b.den) ≤ maxPowerBits
  else IsSmallFraction e ∧ ∃ v, powRational b e.num e.den = .ok (v, true)

/-- What a power that is not marked as an approximation is: the exact power, or the exact power to a
small fraction that the exponent comes close to but is not, or an approximation cut to an integer. -/
inductive PowerResult (b e : Decimal) (x : Real) : Prop
  | exact {v : ℚ} (hx : Denotes x v) (hpos : 0 < v) (hpow : v ^ e.toRat.den = b.toRat ^ e.toRat.num)
  | near {r v : ℚ} (hden : e.toRat.den ≠ 1) (hlarge : ¬ IsSmallFraction e.toRat) (hr : NearFraction e.toRat r)
      (hx : Denotes x v) (hpos : 0 < v) (hpow : v ^ r.den = b.toRat ^ r.num)
  | root {r v : ℚ} (hexact : ¬ IsComputedExactly b.toRat e.toRat) (hr : NearFraction e.toRat r)
      (hroot : powRational b.toRat r.num r.den = .ok (v, false)) (hx : IsWhole x v)
  | native {y : Real} {v : ℚ} (hexact : ¬ IsComputedExactly b.toRat e.toRat) (hy : y.toRat = .ok e.toRat)
      (hpow : nativePower (.big b) y = .ok x) (hx : IsWhole x v)

/-- An integer power by squaring is the power of the rational, for a negative exponent as well. -/
theorem ite_pow_eq_zpow (q : ℚ) (n : ℤ) : (if n < 0 then (1 / q) ^ n.natAbs else q ^ n.natAbs) = q ^ n := by
  split
  · rw [one_div, ← zpow_natCast, inv_zpow', show -(n.natAbs : ℤ) = n by omega]
  · rw [← zpow_natCast, show (n.natAbs : ℤ) = n by omega]

section

variable {b e : Decimal}

theorem integerPower_result {n : ℤ} (hb : 0 < b.toRat) (hn : e.toRat = n) (h : integerPower (.big b) n = .ok x)
    (hx : x.isIrrational = false) (hx' : x.isInfinite = false) : PowerResult b e x := by
  have hden : e.toRat.den = 1 := by rw [hn, Rat.den_intCast]
  have hnum : e.toRat.num = n := by rw [hn, Rat.num_intCast]
  unfold integerPower at h
  rw [show (big b).exactRat? = some b.toRat from rfl] at h
  simp only at h
  split at h
  · rw [ite_pow_eq_zpow] at h
    refine .exact (denotes_of_ofRat h) (zpow_pos hb n) ?_
    rw [hden, hnum, pow_one]
  · rename_i hlarge
    obtain ⟨v, hv⟩ := ((nativePower_cases h).resolve_left (by rw [hx]; decide)).resolve_left (by rw [hx']; decide)
    refine .native ?_ ?_ h hv
    · unfold IsComputedExactly
      rwa [if_pos hden, hnum]
    · rw [hn]
      exact congrArg Except.ok (Decimal.toRat_ofInt n)

theorem fractionalPower_result (hb : 0 < b.toRat) (hden : e.toRat.den ≠ 1) (h : fractionalPower (.big b) (.big e) = .ok x)
    (hx : x.isIrrational = false) (hx' : x.isInfinite = false) : PowerResult b e x := by
  rcases fractionalPower_cases h with ⟨r, hr, h⟩ | ⟨h, hfail⟩
  · obtain ⟨v, ⟨hpow, h⟩ | ⟨hpow, h⟩⟩ := rationalPower_cases h
    · have hdenotes := denotes_of_ofRat h
      obtain ⟨hpos, hvalue⟩ := powRational_positive hb hpow
      by_cases hsmall : IsSmallFraction e.toRat
      · obtain rfl := hr.eq_of_small hsmall
        exact .exact hdenotes hpos hvalue
      · exact .near hden hsmall hr hdenotes hpos hvalue
    · refine .root ?_ hr hpow (h.resolve_left (by rw [hx]; decide))
      unfold IsComputedExactly
      rw [if_neg hden]
      rintro ⟨hsmall, v', hv'⟩
      obtain rfl := hr.eq_of_small hsmall
      rw [hpow] at hv'
      cases hv'
  · obtain ⟨v, hv⟩ := ((nativePower_cases h).resolve_left (by rw [hx]; decide)).resolve_left (by rw [hx']; decide)
    refine .native ?_ (toRat_big e) h hv
    unfold IsComputedExactly
    rw [if_neg hden]
    rintro ⟨hsmall, v', hv'⟩
    -- an exact root fails only if it has no decimal, and that is not tried again
    obtain ⟨n, hn⟩ := hfail hsmall
    unfold rationalPower at hn
    rw [toRat_big, ok_bind, hv', ok_bind] at hn
    cases ofRat_range _ _ hn

theorem scalar_power_real {y z : Real} (hy : y.isNaN = false) (hz : z.isNaN = false) :
    (Scalar.real y).power (.real z) = (power y z).map .real := by
  unfold Scalar.power Scalar.refuseNaN
  rw [show (Scalar.real y).isNaN = false from hy, show (Scalar.real z).isNaN = false from hz,
    show (Scalar.real z).isZero = z.isZero from rfl]
  cases hzero : z.isZero with
  | false => rfl
  | true =>
    have hone : power y z = .ok one := if_pos hzero
    rw [hone]
    rfl

theorem number_power_ofReal {y z : Real} (hy : y.isNaN = false) (hz : z.isNaN = false) :
    Number.power (.ofReal y) (.ofReal z) = (power y z).map .ofReal := by
  show (((Scalar.real y).power (.real z)).map .scalar : Outcome Number) = _
  rw [scalar_power_real hy hz]
  cases power y z <;> rfl

/-- A positive decimal to the power of a decimal, if the result is not marked as an approximation. -/
theorem power_result (hb : 0 < b.toRat) (h : Number.power (.ofReal (.big b)) (.ofReal (.big e)) = .ok (.ofReal x))
    (hx : x.kind = .big ∨ x.kind = .recurring) : PowerResult b e x := by
  have hirrational : x.isIrrational = false := by
    cases x <;> first | rfl | simp [kind] at hx
  have hinfinite : x.isInfinite = false := by
    cases x with
    | infinite s => cases s <;> simp [kind] at hx
    | _ => rfl
  rw [number_power_ofReal rfl rfl, map_eq_ok] at h
  obtain ⟨x', h, hx'⟩ := h
  obtain rfl := ofReal_injective hx'
  unfold power at h
  split at h
  · rename_i hzero
    obtain rfl := Except.ok.inj h
    have he : e.toRat = 0 := (Decimal.toRat_eq_zero_iff e).2 ((Decimal.isZero_iff e).1 hzero)
    have hone : Decimal.one.toRat = 1 := by with_unfolding_all decide
    refine .exact (hone ▸ Denotes.decimal Decimal.one) zero_lt_one ?_
    rw [he]
    simp
  split at h
  · obtain rfl := Except.ok.inj h
    cases hinfinite
  split at h
  · rename_i hexponent
    cases hexponent
  split at h
  · rename_i hzero
    exact absurd ((Decimal.toRat_eq_zero_iff b).2 ((Decimal.isZero_iff b).1 hzero)) hb.ne'
  split at h
  -- the exponent is an integer exactly if it has no fraction
  · rename_i hinteger
    have hden : e.toRat.den = 1 := by
      by_contra hden
      have hfraction := (Decimal.hasFraction_iff e).2 hden
      rw [show (big e).isInteger = !e.hasFraction from rfl, hfraction] at hinteger
      cases hinteger
    have hnum := Rat.coe_int_num_of_den_eq_one hden
    obtain ⟨v, hv, h⟩ := bind_eq_ok.1 h
    obtain rfl := Except.ok.inj hv
    refine integerPower_result hb ?_ h hirrational hinfinite
    rw [← hnum, Rat.floor_intCast]
  · rename_i hinteger
    refine fractionalPower_result hb ?_ h hirrational hinfinite
    rw [← Decimal.hasFraction_iff]
    simpa using (show ¬ (!e.hasFraction) = true from hinteger)

end

/-- The square root of 2.25 is found to be exact. -/
theorem power_result_half :
    Number.power (.ofReal (.big ⟨false, 225, -2⟩)) (.ofReal (.big ⟨false, 5, -1⟩)) = .ok (.ofReal (.big ⟨false, 15, -1⟩)) ∧
      PowerResult ⟨false, 225, -2⟩ ⟨false, 5, -1⟩ (.big ⟨false, 15, -1⟩) := by
  have hpower : Number.power (.ofReal (.big ⟨false, 225, -2⟩)) (.ofReal (.big ⟨false, 5, -1⟩)) =
      .ok (.ofReal (.big ⟨false, 15, -1⟩)) := by decide +kernel
  exact ⟨hpower, power_result (by decide +kernel) hpower (.inl rfl)⟩

/-- Powers that are not exact and not marked as approximations: an integer power that is too large to
compute, and a power whose exponent is so close to a half that the root is taken for it. -/
theorem not_exact_power :
    (∃ b e x : Decimal, 0 < b.toRat ∧ e.hasFraction = false ∧
      Number.power (.ofReal (.big b)) (.ofReal (.big e)) = .ok (.ofReal (.big x)) ∧
      x.toRat ^ e.toRat.den ≠ b.toRat ^ e.toRat.num) ∧
    ∃ b e x : Decimal, 0 < b.toRat ∧ e.hasFraction = true ∧
      Number.power (.ofReal (.big b)) (.ofReal (.big e)) = .ok (.ofReal (.big x)) ∧
      x.toRat ^ e.toRat.den ≠ b.toRat ^ e.toRat.num := by
  constructor
  · refine ⟨⟨false, 10 ^ 30 + 1, -30⟩, ⟨false, 10 ^ 8, 0⟩, .one, by decide +kernel, by decide +kernel,
      by decide +kernel, ?_⟩
    have hbase : 1 < Decimal.toRat ⟨false, 10 ^ 30 + 1, -30⟩ := by decide +kernel
    have hexponent : 0 < (Decimal.toRat ⟨false, 10 ^ 8, 0⟩).num := by decide +kernel
    rw [show Decimal.one.toRat = 1 by decide +kernel, one_pow]
    exact (one_lt_zpow₀ hbase hexponent).ne
  · refine ⟨⟨false, 4, 0⟩, ⟨false, 5 * 10 ^ 30 + 1, -31⟩, ⟨false, 2, 0⟩, by decide +kernel, by decide +kernel,
      by decide +kernel, ?_⟩
    have hnum : (Decimal.toRat ⟨false, 5 * 10 ^ 30 + 1, -31⟩).num = 5 * 10 ^ 30 + 1 := by decide +kernel
    have hden : (Decimal.toRat ⟨false, 5 * 10 ^ 30 + 1, -31⟩).den = 10 ^ 31 := by decide +kernel
    rw [show Decimal.toRat ⟨false, 4, 0⟩ = 2 ^ (2 : ℤ) by decide +kernel,
      show Decimal.toRat ⟨false, 2, 0⟩ = 2 by decide +kernel, hnum, hden, ← zpow_mul, ← zpow_natCast]
    refine (zpow_right_injective₀ (by norm_num) (by norm_num)).ne ?_
    norm_num

end Reckon.Real
