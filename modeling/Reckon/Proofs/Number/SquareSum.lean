/-
Sums of two stored squares. The square of an approximation is cut to the precision, and the digits of a
repeating square come from a budget, so a number other than zero can have a zero for its stored square. The
sum of two stored squares is zero only if both of them are, or if it repeats itself and starts behind the
budget.
-/
import Reckon.Proofs.Number.SquareRoot
import Reckon.Proofs.Real.Cutting
import Reckon.Proofs.Real.Stored
import Reckon.Proofs.Real.Vanishing

namespace Reckon.Real

open Outcome Reckon.Expansion

/-! ## How two finite numbers are combined -/

section

variable {a b : Real} {c d : Decimal} (exact : ℚ → ℚ → ℚ) (stored : Decimal → Decimal → Outcome Decimal)

/-- Without an approximation, but with an operand that no rational is known of, the stored digits count. -/
theorem combine_of_no_rational (ha : a.decimal? = some c) (hb : b.decimal? = some d)
    (h : a.isIrrational = false ∧ b.isIrrational = false) (hnone : a.exactRat? = none ∨ b.exactRat? = none) :
    combine exact stored a b = (stored c d).map recurring := by
  have hdecimals : (do ofInexact (← stored (← a.decimal) (← b.decimal)) (a.isIrrational || b.isIrrational)) =
      (stored c d).map recurring := by
    rw [decimal_of_decimal? ha, decimal_of_decimal? hb, h.1, h.2]
    cases hr : stored c d <;> simp only [ok_bind, hr] <;> rfl
  unfold combine
  cases ha : a.exactRat? with
  | none => exact hdecimals
  | some p =>
    rw [hnone.resolve_left (by rw [ha]; nofun)]
    exact hdecimals

/-- The three ways to combine: approximately, exactly, or with the digits of a repeating value of unknown
cycle. -/
theorem combine_cases (ha : a.decimal? = some c) (hb : b.decimal? = some d) :
    ((a.isIrrational = true ∨ b.isIrrational = true) ∧ combine exact stored a b = stored c d >>= ofApproximation) ∨
    (∃ p q, a.exactRat? = some p ∧ b.exactRat? = some q ∧ combine exact stored a b = ofRat (exact p q)) ∨
    (a.exactRat? = none ∨ b.exactRat? = none) ∧ combine exact stored a b = (stored c d).map recurring := by
  by_cases hirrational : a.isIrrational = true ∨ b.isIrrational = true
  · exact .inl ⟨hirrational, combine_of_isIrrational exact stored ha hb hirrational⟩
  right
  rw [not_or, Bool.not_eq_true, Bool.not_eq_true] at hirrational
  cases hp : a.exactRat? with
  | none => exact .inr ⟨.inl rfl, combine_of_no_rational exact stored ha hb hirrational (.inl hp)⟩
  | some p =>
    cases hq : b.exactRat? with
    | none => exact .inr ⟨.inr rfl, combine_of_no_rational exact stored ha hb hirrational (.inr hq)⟩
    | some q => exact .inl ⟨p, q, rfl, rfl, combine_of_exactRat? exact stored hp hq⟩

/-- The combination has a result if its stored digits and its rational have one. -/
theorem exists_combine (ha : a.decimal? = some c) (hb : b.decimal? = some d) (hstored : ∃ r, stored c d = .ok r)
    (hexact : ∀ p q, a.exactRat? = some p → b.exactRat? = some q → ∃ x, ofRat (exact p q) = .ok x) :
    ∃ x, combine exact stored a b = .ok x := by
  obtain ⟨r, hr⟩ := hstored
  rcases combine_cases exact stored ha hb with ⟨-, h⟩ | ⟨p, q, hp, hq, h⟩ | ⟨-, h⟩
  · obtain ⟨x, hx, -⟩ := ofApproximation_eq_ok r
    exact ⟨x, by rw [h, hr, ok_bind, hx]⟩
  · rw [h]
    exact hexact p q hp hq
  · exact ⟨.recurring r, by rw [h, hr]; rfl⟩

end

/-! ## Terms that are not negative -/

section

variable {q : ℚ}

theorem vanishes_iff_of_terminates (h : Terminates q) : Vanishes q ↔ q = 0 := or_iff_left fun hrest => hrest.1 h

/-- Digits that are not negative are no more than the rational that is read back. -/
theorem toRat_le_of_recurringRat? {d : Decimal} (h : recurringRat? d = some q) (hd : 0 ≤ d.toRat) :
    d.toRat ≤ q := by
  rcases hd.eq_or_lt with hzero | hpos
  · rw [eq_zero_of_recurringRat? h ((Decimal.toRat_eq_zero_iff d).1 hzero.symm), ← hzero]
  · obtain ⟨t, ht, -, rfl⟩ := exists_lack_of_recurringRat? h
    rw [Decimal.negative_eq_false_of_pos hpos, if_neg Bool.false_ne_true, one_mul, abs_of_pos hpos]
    exact le_add_of_nonneg_right ht

end

/-- A finite number with digits that are not negative. As an approximation it is at least a unit of the last
place that is kept. -/
structure IsTerm (x : Real) (d : Decimal) : Prop where
  decimal : x.decimal? = some d
  nonneg : 0 ≤ d.toRat
  unit_le : x.isIrrational = true → Decimal.tenPow (-precision) ≤ d.toRat

namespace IsTerm

variable {x y n : Real} {c d : Decimal} {p q : ℚ}

theorem isZero_iff (h : x.IsTerm d) : x.isZero = true ↔ d.toRat = 0 := by
  rw [isZero_of_decimal? h.decimal, Decimal.isZero_iff, Decimal.toRat_eq_zero_iff]

theorem toRat_le (h : x.IsTerm d) (hp : x.exactRat? = some p) : d.toRat ≤ p := by
  obtain ⟨hdecimal, hnonneg, -⟩ := h
  cases x with
  | small f b => exact (Option.some.inj (hdecimal.symm.trans rfl) ▸ Option.some.inj hp).le
  | big d' => exact (Option.some.inj (hdecimal.symm.trans rfl) ▸ Option.some.inj hp).le
  | recurring d' =>
    obtain rfl := Option.some.inj hdecimal
    exact toRat_le_of_recurringRat? hp hnonneg
  | _ => cases hp

/-- A sum of two terms is zero if both are zero, or if its expansion does not terminate and shows only zeros up
to the digit budget. -/
theorem isZero_add_iff (hx : x.IsTerm c) (hy : y.IsTerm d) (h : x.add y = .ok n) : n.isZero = true ↔
    x.isZero = true ∧ y.isZero = true ∨ ∃ p q, x.exactRat? = some p ∧ y.exactRat? = some q ∧
      ¬ Terminates (p + q) ∧ p + q < Decimal.tenPow (-10000) := by
  have hsum : ∀ {r : Decimal}, Decimal.add c d = .ok r → r.toRat = c.toRat + d.toRat := fun hr =>
    (Decimal.toRat_fit hr).trans (Decimal.toRat_sum c d)
  rw [add_of_not_infinite (isInfinite_of_decimal? hx.decimal) (isInfinite_of_decimal? hy.decimal)] at h
  rcases combine_cases (· + ·) Decimal.add hx.decimal hy.decimal with
    ⟨hirrational, hcombine⟩ | ⟨p, q, hp, hq, hcombine⟩ | ⟨hnone, hcombine⟩ <;> rw [hcombine] at h
  · obtain ⟨r, hr, hn⟩ := bind_eq_ok.1 h
    obtain ⟨n', hn', hvalue⟩ := ofApproximation_eq_ok r
    obtain rfl := Except.ok.inj (hn'.symm.trans hn)
    -- the approximate term alone is as much as the cut keeps
    have hlow : Decimal.tenPow (-precision) ≤ c.toRat + d.toRat := by
      rcases hirrational with h | h
      · exact (hx.unit_le h).trans (le_add_of_nonneg_right hy.nonneg)
      · exact (hy.unit_le h).trans (le_add_of_nonneg_left hx.nonneg)
    have hpos := Decimal.tenPow_pos (-precision)
    rw [isZero_iff_eq_zero (toRat_eq_ok_iff.1 hvalue), Decimal.cut_eq_zero_iff, hsum hr,
      abs_of_pos (hpos.trans_le hlow)]
    refine iff_of_false (not_lt.2 hlow) ?_
    rintro (⟨hzero, hzero'⟩ | ⟨p, q, hp, hq, -⟩)
    · rw [hx.isZero_iff.1 hzero, hy.isZero_iff.1 hzero', add_zero] at hlow
      exact absurd hpos (not_lt.2 hlow)
    · rcases hirrational with h | h
      · exact nomatch (exactRat?_of_isIrrational h).symm.trans hp
      · exact nomatch (exactRat?_of_isIrrational h).symm.trans hq
  · have hpnonneg := hx.nonneg.trans (hx.toRat_le hp)
    have hqnonneg := hy.nonneg.trans (hy.toRat_le hq)
    rw [isZero_iff_vanishes h, Vanishes, add_eq_zero_iff_of_nonneg hpnonneg hqnonneg,
      abs_of_nonneg (add_nonneg hpnonneg hqnonneg), isZero_iff_eq_zero (toRat?_of_exactRat? hp),
      isZero_iff_eq_zero (toRat?_of_exactRat? hq), hp, hq]
    simp only [Option.some_inj, exists_and_left, exists_eq_left']
  · obtain ⟨r, hr, rfl⟩ := map_eq_ok.1 h
    rw [show (recurring r).isZero = r.isZero from rfl, Decimal.isZero_iff, ← Decimal.toRat_eq_zero_iff, hsum hr,
      add_eq_zero_iff_of_nonneg hx.nonneg hy.nonneg, hx.isZero_iff, hy.isZero_iff]
    refine (or_iff_left ?_).symm
    rintro ⟨p, q, hp, hq, -⟩
    rcases hnone with h | h
    · exact nomatch h.symm.trans hp
    · exact nomatch h.symm.trans hq

/-- Zeros have a sum. -/
theorem exists_add (hx : x.IsTerm c) (hy : y.IsTerm d) (hzero : x.isZero = true ∧ y.isZero = true) :
    ∃ n, x.add y = .ok n := by
  rw [add_of_not_infinite (isInfinite_of_decimal? hx.decimal) (isInfinite_of_decimal? hy.decimal)]
  refine exists_combine _ _ hx.decimal hy.decimal ?_ fun p q hp hq => ?_
  · obtain ⟨r, hr, -⟩ := (Decimal.givesValue_add c d).ok (by
      rw [hx.isZero_iff.1 hzero.1, hy.isZero_iff.1 hzero.2, add_zero]
      exact representable_zero)
    exact ⟨r, hr⟩
  · rw [(isZero_iff_eq_zero (toRat?_of_exactRat? hp)).1 hzero.1,
      (isZero_iff_eq_zero (toRat?_of_exactRat? hq)).1 hzero.2, add_zero]
    exact ⟨zero, ofRat_zero⟩

end IsTerm

/-! ## What a cut leaves -/

/-- A cut that leaves a digit does not fall below a power of ten. -/
theorem tenPow_le_cut {q : ℚ} {places e : ℤ} (hq : Decimal.tenPow e ≤ q) (hne : Decimal.cut places q ≠ 0) :
    Decimal.tenPow e ≤ Decimal.cut places q := by
  have hpos := Decimal.tenPow_pos e
  have hcut := Decimal.isCutMultiple_cut places q
  rw [← abs_of_nonneg (Decimal.cut_nonneg places (hpos.le.trans hq))]
  rcases le_or_gt (-places) e with hle | hlt
  · have hunits := Decimal.tenPow_of_le hle
    have habs : |Decimal.tenPow e| ≤ |q| := by rwa [abs_of_pos hpos, abs_of_pos (hpos.trans_le hq)]
    rw [hunits] at habs
    have hgreatest := hcut.greatest ((10 ^ (e - -places).toNat : Nat) : ℤ) (by exact_mod_cast habs)
    rw [Int.cast_natCast, ← hunits, abs_of_pos hpos] at hgreatest
    exact hgreatest
  · obtain ⟨n, hn⟩ := hcut.multiple
    have hunit : 1 ≤ |n| := Int.one_le_abs fun hzero => hne (by rw [hn, hzero, Int.cast_zero, zero_mul])
    rw [hn, abs_mul, abs_of_pos (Decimal.tenPow_pos _), ← Int.cast_abs]
    calc Decimal.tenPow e ≤ 1 * Decimal.tenPow (-places) := by
          rw [one_mul]
          exact Decimal.tenPow_le_tenPow.2 hlt.le
      _ ≤ (|n| : ℤ) * Decimal.tenPow (-places) :=
          mul_le_mul_of_nonneg_right (by exact_mod_cast hunit) (Decimal.tenPow_pos _).le

/-- What a cut leaves is exact, or an approximation other than zero. -/
theorem IsCut.big_or_irrational {y : Real} {q : ℚ} (h : y.IsCut q) :
    (∃ d, y = .big d) ∨ ∃ d, y = .irrational d ∧ Decimal.cut precision q ≠ 0 := by
  have hkind := h.kind
  split at hkind
  · cases y with
    | big d => exact .inl ⟨d, rfl⟩
    | infinite s => cases s <;> cases hkind
    | _ => cases hkind
  · rename_i hden
    cases y with
    | irrational d => exact .inr ⟨d, rfl, fun hzero => hden (by rw [hzero, Rat.den_zero])⟩
    | infinite s => cases s <;> cases hkind
    | _ => cases hkind

/-- A rational that is not negative is stored as a term. An expansion that does not terminate leaves a digit
within the budget, or nothing but zeros. -/
theorem isTerm_of_ofRat {q : ℚ} {x : Real} (hq : 0 ≤ q) (h : ofRat q = .ok x) : ∃ d, x.IsTerm d ∧
    (Terminates q ∧ x = .big d ∧ d.toRat = q ∨
      ¬ Terminates q ∧ x = .recurring d ∧ (d.toRat = 0 ∨ Decimal.tenPow (-10000) ≤ d.toRat)) := by
  by_cases hterminates : Terminates q
  · obtain ⟨d, rfl, hd⟩ := exists_decimal_of_ofRat hterminates h
    exact ⟨d, ⟨rfl, hd ▸ hq, nofun⟩, .inl ⟨hterminates, rfl, hd⟩⟩
  · obtain ⟨whole, lead, cycle, hexp⟩ := exists_isExpansion q
    obtain ⟨d, hd, -, hcut⟩ := stores_of_not_terminates hexp hterminates defaultBudget
    obtain rfl := Except.ok.inj (hd.symm.trans h)
    have hterm : (recurring d).IsTerm d := ⟨rfl, hcut ▸ Decimal.cut_nonneg _ hq, nofun⟩
    refine ⟨d, hterm, .inr ⟨hterminates, rfl, or_iff_not_imp_left.2 fun hne => ?_⟩⟩
    have hshown := (isZero_iff_vanishes h).not.1 (hterm.isZero_iff.not.2 hne)
    rw [Vanishes, not_or, not_and, not_lt, abs_of_nonneg hq] at hshown
    rw [hcut] at hne ⊢
    exact tenPow_le_cut (hshown.2 hterminates) hne

/-! ## Squares -/

/-- If the square of the number is stored then as zero: the number is zero, its square repeats itself and starts
behind the digit budget, or it is an approximation and its square is below the precision. -/
def IsLost (x : Real) : Prop :=
  ∃ v, x.toRat? = some v ∧ (Vanishes (v ^ 2) ∨ x.isIrrational = true ∧ v ^ 2 < Decimal.tenPow (-precision))

section

variable {x y : Real} {v p : ℚ}

theorem isLost_iff (hv : x.toRat? = some v) :
    x.IsLost ↔ Vanishes (v ^ 2) ∨ x.isIrrational = true ∧ v ^ 2 < Decimal.tenPow (-precision) := by
  simp only [IsLost, hv, Option.some_inj, exists_eq_left']

/-- How a square is stored: cut to the precision, as a rational, or, if no cycle is known, with all its digits. -/
theorem square_cases (hx : x.isFinite = true) (h : x.mul x = .ok y) :
    (∃ d, x = .irrational d ∧ y.IsCut (d.toRat ^ 2)) ∨ (∃ v, x.exactRat? = some v ∧ ofRat (v ^ 2) = .ok y) ∨
      ∃ d r, x = .recurring d ∧ recurringRat? d = none ∧ y = .recurring r ∧ r.toRat = d.toRat ^ 2 := by
  obtain ⟨-, hinfinite⟩ := (isFinite_iff x).1 hx
  rw [mul_of_not_infinite hinfinite hinfinite] at h
  have hexact : ∀ v, x.exactRat? = some v → ofRat (v ^ 2) = .ok y := fun v hv => by
    rwa [combine_of_exactRat? _ _ hv hv, ← sq] at h
  have hsquare : ∀ {d r : Decimal}, Decimal.mul d d = .ok r → r.toRat = d.toRat ^ 2 := fun hr => by
    rw [Decimal.toRat_mul hr, sq]
  cases x with
  | small f b => exact .inr (.inl ⟨_, rfl, hexact _ rfl⟩)
  | big d => exact .inr (.inl ⟨_, rfl, hexact _ rfl⟩)
  | infinite s => cases hinfinite
  | nan => cases hx
  | irrational d =>
    have hdecimal : (irrational d).decimal? = some d := rfl
    rw [combine_of_isIrrational _ _ hdecimal hdecimal (.inl rfl)] at h
    obtain ⟨r, hr, hy⟩ := bind_eq_ok.1 h
    obtain ⟨y', hy', hcut⟩ := ofApproximation_isCut r
    obtain rfl := Except.ok.inj (hy'.symm.trans hy)
    exact .inl ⟨d, rfl, hsquare hr ▸ hcut⟩
  | recurring d =>
    right
    -- a repeating number whose cycle is lost is squared as the decimal that is stored
    cases hcycle : recurringRat? d with
    | some v => exact .inl ⟨v, hcycle, hexact v hcycle⟩
    | none =>
      have hdecimal : (recurring d).decimal? = some d := rfl
      rw [combine_of_no_rational _ _ hdecimal hdecimal ⟨rfl, rfl⟩ (.inl hcycle)] at h
      obtain ⟨r, hr, rfl⟩ := map_eq_ok.1 h
      exact .inr ⟨d, r, rfl, hcycle, rfl, hsquare hr⟩

/-- A stored square is a term. -/
theorem isTerm_square (hx : x.isFinite = true) (h : x.mul x = .ok y) : ∃ d, y.IsTerm d := by
  obtain ⟨d, rfl, hcut⟩ | ⟨v, -, hy⟩ | ⟨d, r, rfl, -, rfl, hr⟩ := square_cases hx h
  · obtain ⟨c, hc, hvalue, -⟩ := hcut.value
    refine ⟨c, hc, hvalue ▸ Decimal.cut_nonneg _ (sq_nonneg _), fun hirrational => ?_⟩
    obtain ⟨e, rfl⟩ | ⟨e, rfl, hne⟩ := hcut.big_or_irrational
    · cases hirrational
    have hlow := (Decimal.cut_eq_zero_iff _ _).not.1 hne
    rw [not_lt, abs_of_nonneg (sq_nonneg _)] at hlow
    rw [hvalue]
    exact tenPow_le_cut hlow hne
  · obtain ⟨d, hd, -⟩ := isTerm_of_ofRat (sq_nonneg v) hy
    exact ⟨d, hd⟩
  · exact ⟨r, rfl, hr ▸ sq_nonneg _, nofun⟩

theorem isZero_square_iff (hx : x.isFinite = true) (h : x.mul x = .ok y) : y.isZero = true ↔ x.IsLost := by
  obtain ⟨d, rfl, ⟨⟨c, hc, hvalue, -⟩, -⟩⟩ | ⟨v, hv, hy⟩ | ⟨d, r, rfl, hcycle, rfl, hr⟩ := square_cases hx h
  · have hpos := Decimal.tenPow_pos (-precision)
    rw [isLost_iff (toRat_eq_ok_iff.1 (toRat_irrational d)),
      vanishes_iff_of_terminates (terminates_pow (terminates_toRat d) 2), isZero_of_decimal? hc, Decimal.isZero_iff,
      ← Decimal.toRat_eq_zero_iff, hvalue, Decimal.cut_eq_zero_iff, abs_of_nonneg (sq_nonneg _),
      and_iff_right (show (irrational d).isIrrational = true from rfl)]
    exact (or_iff_right_of_imp fun hzero => hzero ▸ hpos).symm
  · rw [isZero_iff_vanishes hy, isLost_iff (toRat?_of_exactRat? hv)]
    exact (or_iff_left fun hirrational => nomatch (exactRat?_of_isIrrational hirrational.1).symm.trans hv).symm
  · rw [isLost_iff (toRat?_of_no_cycle hcycle), vanishes_iff_of_terminates (terminates_pow (terminates_toRat d) 2),
      show (recurring r).isZero = r.isZero from rfl, Decimal.isZero_iff, ← Decimal.toRat_eq_zero_iff, hr]
    exact (or_iff_left nofun).symm

/-- A rational behind the digit budget that is read back from a stored square comes from all the digits of a
repeating value of unknown cycle. -/
theorem no_cycle_of_square (hx : x.isFinite = true) (h : x.mul x = .ok y) (hp : y.exactRat? = some p)
    (hterminates : ¬ Terminates p) (hlt : p < Decimal.tenPow (-10000)) :
    ∃ d, x = .recurring d ∧ recurringRat? d = none ∧ d.toRat ≠ 0 ∧ d.toRat ^ 2 < Decimal.tenPow (-10000) := by
  have hzero : p ≠ 0 := fun hzero => hterminates (hzero ▸ terminates_intCast 0)
  obtain ⟨d, rfl, hcut⟩ | ⟨v, -, hy⟩ | ⟨d, r, rfl, hcycle, rfl, hr⟩ := square_cases hx h
  · obtain ⟨c, rfl⟩ | ⟨c, rfl, -⟩ := hcut.big_or_irrational
    · obtain rfl := Option.some.inj hp
      exact absurd (terminates_toRat c) hterminates
    · cases hp
  · obtain ⟨d, hd, ⟨-, rfl, -⟩ | ⟨-, rfl, hsize⟩⟩ := isTerm_of_ofRat (sq_nonneg v) hy
    · obtain rfl := Option.some.inj hp
      exact absurd (terminates_toRat d) hterminates
    · rcases hsize with hdigits | hsize
      · exact absurd (eq_zero_of_recurringRat? hp ((Decimal.toRat_eq_zero_iff d).1 hdigits)) hzero
      · exact absurd (hsize.trans (hd.toRat_le hp)) (not_le.2 hlt)
  · refine ⟨d, rfl, hcycle, fun hdigits => hzero ?_, hr ▸ (toRat_le_of_recurringRat? hp (hr ▸ sq_nonneg _)).trans_lt hlt⟩
    rw [hdigits, sq, mul_zero] at hr
    exact eq_zero_of_recurringRat? hp ((Decimal.toRat_eq_zero_iff r).1 hr)

/-- Zero has a stored square. -/
theorem exists_square (hzero : x.toRat? = some 0) : ∃ y, x.mul x = .ok y := by
  have hfinite := isFinite_of_toRat? hzero
  obtain ⟨d, hd⟩ := Option.isSome_iff_exists.1 hfinite
  obtain ⟨-, hinfinite⟩ := (isFinite_iff x).1 hfinite
  rw [mul_of_not_infinite hinfinite hinfinite]
  refine exists_combine _ _ hd hd ?_ fun p q hp hq => ?_
  · have hdigits : d.toRat = 0 := by
      rw [Decimal.toRat_eq_zero_iff, ← Decimal.isZero_iff, ← isZero_of_decimal? hd, isZero_iff_eq_zero hzero]
    obtain ⟨r, hr, -⟩ := (Decimal.givesValue_mul d d).ok (by
      rw [hdigits, mul_zero]
      exact representable_zero)
    exact ⟨r, hr⟩
  · obtain rfl := Option.some.inj ((toRat?_of_exactRat? hp).symm.trans hzero)
    rw [zero_mul]
    exact ⟨zero, ofRat_zero⟩

end

end Reckon.Real
