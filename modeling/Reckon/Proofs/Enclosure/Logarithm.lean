/-
Sizes of logarithms in fixed point. A series is dominated by its first term, so that the constants, the
logarithm of a reduced argument and with them a whole logarithm are known up to a small factor. This is
enough to tell a logarithm from zero and to bound it, whatever its precision.
-/
import Mathlib
import Reckon.Enclosure
import Reckon.Proofs.Binary.Rounding

namespace Reckon.Enclosure

/-! ## Narrowing -/

/-- A settled value is the lower end of some enclosure, rounded. -/
theorem settle_of_forall {α : Type} [BEq α] {round : Rat → α} {enclose : Nat → Enclosure} {p : α → Prop}
    (h : ∀ bits, 96 ≤ bits → p (round (enclose bits).low)) {l : List Nat} (hl : ∀ bits ∈ l, 96 ≤ bits) :
    p (settle round enclose l) := by
  induction l with
  | nil => exact h 96 le_rfl
  | cons bits l ih =>
    unfold settle
    simp only
    split
    · exact h bits (hl bits List.mem_cons_self)
    · exact ih fun b hb => hl b (List.mem_cons_of_mem _ hb)

theorem le_of_mem_precisions {bits : Nat} (h : bits ∈ precisions) : 96 ≤ bits := by
  revert bits
  decide

theorem scaledRat_eq (n e : ℤ) : scaledRat n e = n * (2 : ℚ) ^ e := by
  unfold scaledRat
  split
  · rename_i h
    conv_rhs => rw [show e = (e.natAbs : ℤ) by omega, zpow_natCast]
    push_cast
    rfl
  · rename_i h
    conv_rhs => rw [show e = -(e.natAbs : ℤ) by omega, zpow_neg, zpow_natCast]
    rw [Rat.mkRat_eq_div, div_eq_mul_inv]
    push_cast
    rfl

/-- The lower end lies a radius below the value. -/
theorem low_around (n : ℤ) {places bits : Nat} (h : bits ≤ places) :
    (around n places bits).low = n / 2 ^ places - 1 / 2 ^ bits := by
  have hpow : (2 : ℚ) ^ places = 2 ^ (places - bits) * 2 ^ bits := by rw [← pow_add, Nat.sub_add_cancel h]
  unfold around
  simp only
  rw [scaledRat_eq, zpow_neg, zpow_natCast, hpow]
  push_cast
  field_simp

/-! ## Constants -/

/-- The terms of a series add up to no more than twice the first one. -/
theorem inverseSeries_bounds {square : Nat} (hsquare : 2 ≤ square) (fuel : Nat) : ∀ {term : ℤ} (divisor : Nat),
    0 ≤ term → 0 ≤ inverseSeries square false fuel term divisor ∧
      inverseSeries square false fuel term divisor ≤ 2 * term := by
  induction fuel with
  | zero =>
    intro term divisor h
    exact ⟨le_rfl, by simpa [inverseSeries] using h⟩
  | succ fuel ih =>
    intro term divisor h
    have hnext : 0 ≤ term / (square : ℤ) := Int.ediv_nonneg h (Int.natCast_nonneg _)
    have hhalf : 2 * (term / (square : ℤ)) ≤ term := by
      have hle := Int.ediv_mul_le term (show (square : ℤ) ≠ 0 by omega)
      have := mul_le_mul_of_nonneg_left (show (2 : ℤ) ≤ square by omega) hnext
      linarith
    have hterm : 0 ≤ term / (divisor : ℤ) := Int.ediv_nonneg h (Int.natCast_nonneg _)
    have hterm' : term / (divisor : ℤ) ≤ term := Int.ediv_le_self _ h
    obtain ⟨hlow, hhigh⟩ := ih (divisor + 2) hnext
    unfold inverseSeries
    split
    · omega
    · simp only [Bool.false_eq_true, if_false]
      omega

theorem artanhInverse_bounds {n places : Nat} (hn : 2 ≤ n) (hplaces : 0 < places) :
    (2 ^ places : ℤ) / n ≤ artanhInverse n places ∧ artanhInverse n places ≤ 2 * ((2 ^ places : ℤ) / n) := by
  have hterm : ((2 ^ places / n : Nat) : ℤ) = (2 ^ places : ℤ) / n := by push_cast; rfl
  have hnonneg : (0 : ℤ) ≤ ((2 ^ places / n : Nat) : ℤ) := Int.natCast_nonneg _
  have hsquare : 2 ≤ n * n := hn.trans (Nat.le_mul_self n)
  have hhigh := (inverseSeries_bounds hsquare places 1 hnonneg).2
  refine ⟨?_, hterm ▸ hhigh⟩
  obtain ⟨k, rfl⟩ := Nat.exists_eq_add_one.2 hplaces
  rw [← hterm]
  unfold artanhInverse inverseSeries
  split
  · omega
  · have := (inverseSeries_bounds hsquare k (1 + 2) (Int.ediv_nonneg hnonneg (Int.natCast_nonneg (n * n)))).1
    simp only [Bool.false_eq_true, if_false, Nat.cast_one, Int.ediv_one]
    omega

theorem two_pow_places {places : Nat} (h : 64 ≤ places) : (2 : ℤ) ^ 64 ≤ 2 ^ places :=
  pow_le_pow_right₀ (by norm_num) h

/-- The logarithm of two. -/
theorem ln2_bounds {places : Nat} (h : 64 ≤ places) :
    69 * 2 ^ places ≤ 100 * ln2 places ∧ 100 * ln2 places ≤ 139 * 2 ^ places := by
  have hone := two_pow_places h
  obtain ⟨hlow, hhigh⟩ := artanhInverse_bounds (n := 26) (by decide) (show 0 < places by omega)
  obtain ⟨hlow', hhigh'⟩ := artanhInverse_bounds (n := 4801) (by decide) (show 0 < places by omega)
  obtain ⟨hlow'', hhigh''⟩ := artanhInverse_bounds (n := 8749) (by decide) (show 0 < places by omega)
  unfold ln2
  generalize (2 : ℤ) ^ places = one at *
  push_cast at *
  omega

/-- The logarithm of ten. -/
theorem ln10_bounds {places : Nat} (h : 64 ≤ places) :
    230 * 2 ^ places ≤ 100 * ln10 places ∧ 100 * ln10 places ≤ 461 * 2 ^ places := by
  have hone := two_pow_places h
  obtain ⟨hlow, hhigh⟩ := artanhInverse_bounds (n := 31) (by decide) (show 0 < places by omega)
  obtain ⟨hlow', hhigh'⟩ := artanhInverse_bounds (n := 49) (by decide) (show 0 < places by omega)
  obtain ⟨hlow'', hhigh''⟩ := artanhInverse_bounds (n := 161) (by decide) (show 0 < places by omega)
  unfold ln10
  generalize (2 : ℤ) ^ places = one at *
  push_cast at *
  omega

/-! ## The series of a reduced argument -/

section

variable {square : ℤ} {places : Nat}

theorem mulFixed_eq (places : Nat) (a b : ℤ) : mulFixed places a b = a * b / 2 ^ places := by
  rw [mulFixed, Int.shiftRight_eq_div_pow]
  push_cast
  rfl

theorem mulFixed_bounds (places : Nat) (a b : ℤ) :
    mulFixed places a b * 2 ^ places ≤ a * b ∧ a * b < (mulFixed places a b + 1) * 2 ^ places := by
  rw [mulFixed_eq]
  exact ⟨Int.ediv_mul_le _ (by positivity), Int.lt_ediv_add_one_mul_self _ (by positivity)⟩

/-- By a small square a term shrinks to a sixteenth. -/
theorem mulFixed_of_nonneg (hsquare : 0 ≤ square) (hsmall : 16 * square ≤ 2 ^ places) {term : ℤ} (h : 0 ≤ term) :
    0 ≤ mulFixed places term square ∧ 16 * mulFixed places term square ≤ term := by
  have hone : (0 : ℤ) < 2 ^ places := by positivity
  refine ⟨?_, ?_⟩
  · rw [mulFixed_eq]
    exact Int.ediv_nonneg (mul_nonneg h hsquare) hone.le
  · have hlow := (mulFixed_bounds places term square).1
    refine le_of_mul_le_mul_right ?_ hone
    linarith [mul_le_mul_of_nonneg_left hsmall h]

theorem mulFixed_of_nonpos (hsquare : 0 ≤ square) (hsmall : 16 * square ≤ 2 ^ places) {term : ℤ} (h : term ≤ 0) :
    mulFixed places term square ≤ 0 ∧ term < 16 * mulFixed places term square + 16 := by
  have hone : (0 : ℤ) < 2 ^ places := by positivity
  obtain ⟨hlow, hhigh⟩ := mulFixed_bounds places term square
  refine ⟨?_, ?_⟩
  · have : mulFixed places term square * 2 ^ places ≤ 0 * 2 ^ places := by
      linarith [mul_nonpos_of_nonpos_of_nonneg h hsquare]
    exact le_of_mul_le_mul_right this hone
  · refine lt_of_mul_lt_mul_right ?_ hone.le
    linarith [mul_le_mul_of_nonpos_left hsmall h]

/-- The series of a positive argument adds at most a half to its first term. -/
theorem oddSeries_of_nonneg (hsquare : 0 ≤ square) (hsmall : 16 * square ≤ 2 ^ places) (fuel : Nat) :
    ∀ {term : ℤ} (divisor : Nat), 0 ≤ term →
      0 ≤ oddSeries square places fuel term divisor ∧ 2 * oddSeries square places fuel term divisor ≤ 3 * term := by
  induction fuel with
  | zero =>
    intro term divisor h
    exact ⟨le_rfl, by simpa [oddSeries] using h⟩
  | succ fuel ih =>
    intro term divisor h
    obtain ⟨hnext, hsixteenth⟩ := mulFixed_of_nonneg hsquare hsmall h
    have hterm : 0 ≤ term / (divisor : ℤ) := Int.ediv_nonneg h (Int.natCast_nonneg _)
    have hterm' : term / (divisor : ℤ) ≤ term := Int.ediv_le_self _ h
    obtain ⟨hlow, hhigh⟩ := ih (divisor + 2) hnext
    unfold oddSeries
    split <;> omega

theorem ediv_of_nonpos {term : ℤ} (h : term ≤ 0) (divisor : Nat) :
    term ≤ term / (divisor : ℤ) ∧ term / (divisor : ℤ) ≤ 0 := by
  rcases Nat.eq_zero_or_pos divisor with rfl | hpos
  · rw [Nat.cast_zero, Int.ediv_zero]
    exact ⟨h, le_rfl⟩
  · have hone : (1 : ℤ) ≤ divisor := by exact_mod_cast hpos
    refine ⟨(Int.le_ediv_iff_mul_le (by omega)).2 ?_, Int.ediv_nonpos_of_nonpos_of_neg h (by omega)⟩
    linarith [mul_le_mul_of_nonpos_left hone h]

/-- The series of a negative argument does the same, where every step is rounded down. -/
theorem oddSeries_of_nonpos (hsquare : 0 ≤ square) (hsmall : 16 * square ≤ 2 ^ places) (fuel : Nat) :
    ∀ {term : ℤ} (divisor : Nat), term ≤ 0 →
      oddSeries square places fuel term divisor ≤ 0 ∧ 3 * term ≤ 2 * oddSeries square places fuel term divisor := by
  induction fuel with
  | zero =>
    intro term divisor h
    exact ⟨le_rfl, by simp only [oddSeries]; omega⟩
  | succ fuel ih =>
    intro term divisor h
    obtain ⟨hnext, hsixteenth⟩ := mulFixed_of_nonpos hsquare hsmall h
    obtain ⟨hterm, hterm'⟩ := ediv_of_nonpos h divisor
    obtain ⟨hlow, hhigh⟩ := ih (divisor + 2) hnext
    unfold oddSeries
    split
    · omega
    · rename_i hlarge
      simp only [Bool.or_eq_true, decide_eq_true_iff] at hlarge
      omega

/-- The first term of a positive argument is not lost. -/
theorem le_oddSeries (hsquare : 0 ≤ square) (hsmall : 16 * square ≤ 2 ^ places) {fuel : Nat} (hfuel : 0 < fuel) {term : ℤ}
    (h : 0 ≤ term) : term ≤ oddSeries square places fuel term 1 := by
  obtain ⟨fuel, rfl⟩ := Nat.exists_eq_add_one.2 hfuel
  have hrest := (oddSeries_of_nonneg hsquare hsmall fuel (1 + 2) (mulFixed_of_nonneg hsquare hsmall h).1).1
  unfold oddSeries
  rw [Nat.cast_one, Int.ediv_one]
  split
  · rename_i hend
    simp only [Bool.or_eq_true, decide_eq_true_iff] at hend
    omega
  · omega

/-- Nor is that of a negative one, unless it is the least possible. -/
theorem oddSeries_le (hsquare : 0 ≤ square) (hsmall : 16 * square ≤ 2 ^ places) {fuel : Nat} (hfuel : 0 < fuel) {term : ℤ}
    (h : term ≤ -2) : oddSeries square places fuel term 1 ≤ term := by
  obtain ⟨fuel, rfl⟩ := Nat.exists_eq_add_one.2 hfuel
  have hnext := (mulFixed_of_nonpos hsquare hsmall (show term ≤ 0 by omega)).1
  have hrest := (oddSeries_of_nonpos hsquare hsmall fuel (1 + 2) hnext).1
  unfold oddSeries
  rw [Nat.cast_one, Int.ediv_one]
  split
  · rename_i hend
    simp only [Bool.or_eq_true, decide_eq_true_iff] at hend
    omega
  · omega

end

/-! ## The reduction -/

theorem three_halves_lt_iff {m : ℚ} (hm : 0 < m) :
    (3 * m.den < 2 * m.num.natAbs ↔ 3 / 2 < m) ∧ (3 * m.num.natAbs < 2 * m.den ↔ m < 2 / 3) := by
  have hden : (0 : ℚ) < m.den := by exact_mod_cast m.den_pos
  have hvalue : (m.num.natAbs : ℚ) = m * m.den := by
    rw [eq_comm, ← eq_div_iff hden.ne', ← abs_eq_natAbs_div, abs_of_pos hm]
  constructor
  · rw [← Nat.cast_lt (α := ℚ), Nat.cast_mul, Nat.cast_mul, hvalue, div_lt_iff₀ (by norm_num), ← mul_assoc]
    exact (mul_lt_mul_iff_of_pos_right hden).trans (by rw [mul_comm]; norm_num)
  · rw [← Nat.cast_lt (α := ℚ), Nat.cast_mul, Nat.cast_mul, hvalue, lt_div_iff₀ (by norm_num), ← mul_assoc]
    exact (mul_lt_mul_iff_of_pos_right hden).trans (by rw [mul_comm]; norm_num)

/-- A positive rational is reduced to one between 2/3 and 3/2. -/
theorem binaryExponent_spec {x : ℚ} (hx : 0 < x) :
    2 / 3 ≤ x * 2 ^ (-binaryExponent x) ∧ x * 2 ^ (-binaryExponent x) ≤ 3 / 2 := by
  have hnum : 0 < x.num.natAbs := Int.natAbs_pos.2 (Rat.num_ne_zero.2 hx.ne')
  obtain ⟨hlow, hhigh⟩ := Binary.log2_sub_bounds hnum x.den_pos
  rw [← abs_eq_natAbs_div, abs_of_pos hx] at hlow hhigh
  unfold binaryExponent
  simp only
  generalize (x.num.natAbs.log2 : ℤ) - x.den.log2 = k at hlow hhigh ⊢
  rw [scaledRat_eq, Int.cast_one, one_mul]
  have htwo : (2 : ℚ) ≠ 0 := by norm_num
  -- the lengths alone leave the quotient between 1/2 and 2
  have hpow : (0 : ℚ) < 2 ^ (-k) := by positivity
  have hm := mul_pos hx hpow
  have hhalf : 1 / 2 ≤ x * 2 ^ (-k) := calc
    (1 / 2 : ℚ) = 2 ^ (k - 1) * 2 ^ (-k) := by rw [← zpow_add₀ htwo, show k - 1 + -k = -1 by ring]; norm_num
    _ ≤ x * 2 ^ (-k) := mul_le_mul_of_nonneg_right hlow hpow.le
  have htwice : x * 2 ^ (-k) < 2 := calc
    x * 2 ^ (-k) < 2 ^ (k + 1) * 2 ^ (-k) := mul_lt_mul_of_pos_right hhigh hpow
    _ = 2 := by rw [← zpow_add₀ htwo, show k + 1 + -k = 1 by ring, zpow_one]
  obtain ⟨habove, hbelow⟩ := three_halves_lt_iff hm
  simp only [habove, hbelow]
  split
  · rw [show -(k + 1) = -k - 1 by ring, zpow_sub_one₀ htwo, ← mul_assoc]
    constructor <;> linarith
  split
  · rw [show -(k - 1) = -k + 1 by ring, zpow_add_one₀ htwo, ← mul_assoc]
    constructor <;> linarith
  · constructor <;> linarith

/-- The exponent of a rational between two powers of two. -/
theorem binaryExponent_bounds {x : ℚ} (hx : 0 < x) {a b : ℤ} (ha : (2 : ℚ) ^ a ≤ x) (hb : x < 2 ^ b) :
    a ≤ binaryExponent x ∧ binaryExponent x ≤ b := by
  obtain ⟨hlow, hhigh⟩ := binaryExponent_spec hx
  generalize binaryExponent x = k at hlow hhigh ⊢
  have hpow : (0 : ℚ) < 2 ^ k := by positivity
  have hx' : x = x * 2 ^ (-k) * 2 ^ k := by
    rw [mul_assoc, ← zpow_add₀ (by norm_num), neg_add_cancel, zpow_zero, mul_one]
  constructor
  · have : (2 : ℚ) ^ a < 2 ^ (k + 1) := by
      rw [zpow_add_one₀ (by norm_num)]
      linarith [mul_le_mul_of_nonneg_right hhigh hpow.le]
    have := (zpow_lt_zpow_iff_right₀ (by norm_num : (1 : ℚ) < 2)).1 this
    omega
  · have : (2 : ℚ) ^ (k - 1) < 2 ^ b := by
      rw [zpow_sub_one₀ (by norm_num)]
      linarith [mul_le_mul_of_nonneg_right hlow hpow.le]
    have := (zpow_lt_zpow_iff_right₀ (by norm_num : (1 : ℚ) < 2)).1 this
    omega

/-! ## Logarithms in fixed point -/

/-- The argument of the series for a reduced rational. -/
def seriesArgument (m : ℚ) (places : Nat) : ℤ := (m.num - m.den) * (2 ^ places : Nat) / (m.num + m.den)

theorem lnFixed_eq (x : ℚ) (places : Nat) : lnFixed x places =
    2 * oddSeries (mulFixed places (seriesArgument (x * scaledRat 1 (-binaryExponent x)) places)
      (seriesArgument (x * scaledRat 1 (-binaryExponent x)) places)) places places
      (seriesArgument (x * scaledRat 1 (-binaryExponent x)) places) 1 + binaryExponent x * ln2 places := rfl

/-- It is a quotient of the distances from minus one and one, rounded down. -/
theorem seriesArgument_bounds {m : ℚ} (hm : 0 < m) (places : Nat) :
    (seriesArgument m places : ℚ) * (m + 1) ≤ (m - 1) * 2 ^ places ∧
      (m - 1) * 2 ^ places < (seriesArgument m places + 1) * (m + 1) := by
  have hnum : 0 < m.num := Rat.num_pos.2 hm
  have hden : (0 : ℚ) < m.den := by exact_mod_cast m.den_pos
  have hpos : 0 < m.num + m.den := by have := m.den_pos; omega
  have hvalue : (m.num : ℚ) = m * m.den := (Rat.mul_den_eq_num m).symm
  have hlow := Int.ediv_mul_le ((m.num - m.den) * (2 ^ places : Nat)) hpos.ne'
  have hhigh := Int.lt_ediv_add_one_mul_self ((m.num - m.den) * (2 ^ places : Nat)) hpos
  have hlow' : (seriesArgument m places : ℚ) * (m.num + m.den) ≤ (m.num - m.den) * 2 ^ places := by
    exact_mod_cast hlow
  have hhigh' : ((m.num : ℚ) - m.den) * 2 ^ places < (seriesArgument m places + 1) * (m.num + m.den) := by
    exact_mod_cast hhigh
  rw [hvalue] at hlow' hhigh'
  constructor
  · refine le_of_mul_le_mul_right ?_ hden
    linarith
  · refine lt_of_mul_lt_mul_right ?_ hden.le
    linarith

section

variable {x m : ℚ} {places : Nat}

/-- A reduced argument is at most a fifth. -/
theorem abs_seriesArgument_le (hlow : 2 / 3 ≤ m) (hhigh : m ≤ 3 / 2) (places : Nat) :
    5 * |seriesArgument m places| ≤ 2 ^ places + 5 := by
  obtain ⟨hbelow, habove⟩ := seriesArgument_bounds (show 0 < m by linarith) places
  generalize seriesArgument m places = y at hbelow habove ⊢
  have hone : (0 : ℚ) < 2 ^ places := by positivity
  have hm : 0 < m + 1 := by linarith
  have hupper : 5 * (y : ℚ) ≤ 2 ^ places := by
    refine le_of_mul_le_mul_right ?_ hm
    linarith [mul_le_mul_of_nonneg_right (show 5 * (m - 1) ≤ m + 1 by linarith) hone.le]
  have hlower : -(2 ^ places : ℚ) < 5 * (y + 1) := by
    refine lt_of_mul_lt_mul_right ?_ hm.le
    linarith [mul_le_mul_of_nonneg_right (show -(m + 1) ≤ 5 * (m - 1) by linarith) hone.le]
  have hupper' : 5 * y ≤ 2 ^ places := by exact_mod_cast hupper
  have hlower' : -(2 ^ places : ℤ) < 5 * (y + 1) := by exact_mod_cast hlower
  rcases abs_cases y with ⟨heq, -⟩ | ⟨heq, -⟩ <;> omega

/-- Its square is small enough for the series. -/
theorem square_bounds (hplaces : 64 ≤ places) {y : ℤ} (hy : 5 * |y| ≤ 2 ^ places + 5) :
    0 ≤ mulFixed places y y ∧ 16 * mulFixed places y y ≤ 2 ^ places := by
  have hone := two_pow_places hplaces
  have hpos : (0 : ℤ) < 2 ^ places := by positivity
  have hquarter : 4 * |y| ≤ 2 ^ places := by omega
  refine ⟨?_, ?_⟩
  · rw [mulFixed_eq]
    exact Int.ediv_nonneg (mul_self_nonneg y) hpos.le
  · have hsquare : 4 * |y| * (4 * |y|) ≤ 2 ^ places * 2 ^ places := mul_self_le_mul_self (by positivity) hquarter
    have habs : |y| * |y| = y * y := abs_mul_abs_self y
    refine le_of_mul_le_mul_right ?_ hpos
    linarith [(mulFixed_bounds places y y).1]

/-- A logarithm is that of the power of two, up to three times the argument of the series. -/
theorem abs_lnFixed_sub_le (hx : 0 < x) (hplaces : 64 ≤ places) :
    10 * |lnFixed x places - binaryExponent x * ln2 places| ≤ 6 * 2 ^ places + 30 := by
  obtain ⟨hlow, hhigh⟩ := binaryExponent_spec hx
  rw [lnFixed_eq, scaledRat_eq, Int.cast_one, one_mul, add_sub_cancel_right]
  have harg := abs_seriesArgument_le hlow hhigh places
  generalize seriesArgument (x * 2 ^ (-binaryExponent x)) places = y at harg ⊢
  obtain ⟨hsquare, hsmall⟩ := square_bounds hplaces harg
  rcases le_total 0 y with hy | hy
  · obtain ⟨h, h'⟩ := oddSeries_of_nonneg hsquare hsmall places 1 hy
    rw [abs_of_nonneg (by omega)]
    rw [abs_of_nonneg hy] at harg
    omega
  · obtain ⟨h, h'⟩ := oddSeries_of_nonpos hsquare hsmall places 1 hy
    rw [abs_of_nonpos (by omega)]
    rw [abs_of_nonpos hy] at harg
    omega

/-- Without a power of two a logarithm is at least twice the argument of the series. -/
theorem two_mul_abs_seriesArgument_le (hx : 0 < x) (hplaces : 64 ≤ places) (hk : binaryExponent x = 0)
    (harg : seriesArgument x places ≠ -1) : 2 * |seriesArgument x places| ≤ |lnFixed x places| := by
  obtain ⟨hlow, hhigh⟩ := binaryExponent_spec hx
  rw [lnFixed_eq, scaledRat_eq, Int.cast_one, one_mul]
  rw [hk, neg_zero, zpow_zero, mul_one] at *
  have hsize := abs_seriesArgument_le hlow hhigh places
  generalize seriesArgument x places = y at harg hsize ⊢
  obtain ⟨hsquare, hsmall⟩ := square_bounds hplaces hsize
  rw [zero_mul, add_zero]
  rcases le_or_gt 0 y with hy | hy
  · have h := le_oddSeries hsquare hsmall (show 0 < places by omega) hy
    rw [abs_of_nonneg hy, abs_of_nonneg (by omega)]
    omega
  · have h := oddSeries_le hsquare hsmall (show 0 < places by omega) (show y ≤ -2 by omega)
    rw [abs_of_neg hy, abs_of_neg (by omega)]
    omega

/-- With a power of two it is far from zero. -/
theorem le_abs_lnFixed_of_ne_zero (hx : 0 < x) (hplaces : 64 ≤ places) (hk : binaryExponent x ≠ 0) :
    2 ^ places ≤ 20 * |lnFixed x places| := by
  have hdist := abs_lnFixed_sub_le hx hplaces
  have hone := two_pow_places hplaces
  have htwo : 69 * 2 ^ places ≤ 100 * |binaryExponent x * ln2 places| := by
    have hln2 := (ln2_bounds hplaces).1
    rw [abs_mul, abs_of_nonneg (show 0 ≤ ln2 places by omega)]
    have := mul_le_mul_of_nonneg_right (Int.one_le_abs hk) (show 0 ≤ ln2 places by omega)
    omega
  have htri := abs_sub_abs_le_abs_sub (binaryExponent x * ln2 places) (lnFixed x places)
  rw [abs_sub_comm] at htri
  omega

/-- The argument of the series tells a number from one at the distance of two doubles. -/
theorem le_abs_seriesArgument (hlow : 2 / 3 ≤ x) (hhigh : x ≤ 3 / 2) (hplaces : 64 ≤ places)
    (hfar : 1 / 2 ^ 53 ≤ |x - 1|) : 2 ^ places ≤ 2 ^ 55 * |seriesArgument x places| ∧ seriesArgument x places ≠ -1 := by
  obtain ⟨hbelow, habove⟩ := seriesArgument_bounds (show 0 < x by linarith) places
  have hone := two_pow_places hplaces
  have hone' : (2 : ℚ) ^ 64 ≤ 2 ^ places := by exact_mod_cast hone
  generalize seriesArgument x places = y at hbelow habove ⊢
  have hfar' := mul_le_mul_of_nonneg_right hfar (show (0 : ℚ) ≤ 2 ^ places by positivity)
  rcases le_total 1 x with h | h
  · rw [abs_of_nonneg (by linarith)] at hfar'
    have hup : (2 : ℚ) ^ places / 2 ^ 53 < (y + 1) * (5 / 2) := by
      have hy : (0 : ℚ) < y + 1 := pos_of_mul_pos_left (lt_of_le_of_lt (by nlinarith) habove) (by linarith)
      have := mul_le_mul_of_nonneg_left (show x + 1 ≤ 5 / 2 by linarith) hy.le
      linarith
    have hscaled : (2 * 2 ^ places : ℚ) < 2 ^ 53 * (5 * (y + 1)) := by linarith
    have hscaled' : (2 * 2 ^ places : ℤ) < 2 ^ 53 * (5 * (y + 1)) := by exact_mod_cast hscaled
    rw [abs_of_nonneg (by omega)]
    omega
  · rw [abs_of_nonpos (by linarith)] at hfar'
    have hneg : (y : ℚ) ≤ 0 := nonpos_of_mul_nonpos_left (hbelow.trans (by nlinarith)) (by linarith)
    have hscaled : (2 ^ places : ℚ) ≤ 2 ^ 54 * -y := by
      have := mul_le_mul_of_nonpos_left (show x + 1 ≤ 2 by linarith) hneg
      linarith
    have hscaled' : (2 ^ places : ℤ) ≤ 2 ^ 54 * -y := by exact_mod_cast hscaled
    rw [abs_of_nonpos (by exact_mod_cast hneg)]
    omega

theorem le_abs_lnFixed (hx : 0 < x) (hplaces : 64 ≤ places) (hfar : 1 / 2 ^ 53 ≤ |x - 1|) :
    2 ^ places ≤ 2 ^ 55 * |lnFixed x places| := by
  have hnonneg := abs_nonneg (lnFixed x places)
  by_cases hk : binaryExponent x = 0
  · obtain ⟨hlow, hhigh⟩ := binaryExponent_spec hx
    rw [hk, neg_zero, zpow_zero, mul_one] at hlow hhigh
    obtain ⟨hsize, hne⟩ := le_abs_seriesArgument hlow hhigh hplaces hfar
    have := two_mul_abs_seriesArgument_le hx hplaces hk hne
    omega
  · have := le_abs_lnFixed_of_ne_zero hx hplaces hk
    omega

theorem abs_lnFixed_le (hx : 0 < x) (hplaces : 64 ≤ places) :
    10 * |lnFixed x places| ≤ (14 * |binaryExponent x| + 7) * 2 ^ places := by
  have hdist := abs_lnFixed_sub_le hx hplaces
  have hone := two_pow_places hplaces
  have htwo : 100 * |binaryExponent x * ln2 places| ≤ 139 * (|binaryExponent x| * 2 ^ places) := by
    obtain ⟨hlow, hhigh⟩ := ln2_bounds hplaces
    rw [abs_mul, abs_of_nonneg (show 0 ≤ ln2 places by omega)]
    linarith [mul_le_mul_of_nonneg_left hhigh (abs_nonneg (binaryExponent x))]
  have htri := abs_sub_abs_le_abs_sub (lnFixed x places) (binaryExponent x * ln2 places)
  have hpos : 0 ≤ |binaryExponent x| * 2 ^ places := by positivity
  rw [add_mul, mul_assoc]
  omega

/-! ## Enclosures of logarithms -/

/-- A value in fixed point lies between the bounds of its enclosure. -/
theorem abs_low_around_bounds {n : ℤ} {bits : Nat} {a b : ℚ} (hbits : bits ≤ places) (hlow : a * 2 ^ places ≤ |(n : ℚ)|)
    (hhigh : |(n : ℚ)| ≤ b * 2 ^ places) :
    a - 1 / 2 ^ bits ≤ |(around n places bits).low| ∧ |(around n places bits).low| ≤ b + 1 / 2 ^ bits := by
  have hone : (0 : ℚ) < 2 ^ places := by positivity
  have hradius : |(1 : ℚ) / 2 ^ bits| = 1 / 2 ^ bits := abs_of_pos (by positivity)
  have hvalue : |(n : ℚ) / 2 ^ places| = |(n : ℚ)| / 2 ^ places := by rw [abs_div, abs_of_pos hone]
  have ha : a ≤ |(n : ℚ) / 2 ^ places| := by rwa [hvalue, le_div_iff₀ hone]
  have hb : |(n : ℚ) / 2 ^ places| ≤ b := by rwa [hvalue, div_le_iff₀ hone]
  rw [low_around n hbits]
  have hdown := abs_sub_abs_le_abs_sub ((n : ℚ) / 2 ^ places) (1 / 2 ^ bits)
  have hup := abs_sub ((n : ℚ) / 2 ^ places) (1 / 2 ^ bits)
  rw [hradius] at hdown hup
  constructor <;> linarith

theorem radius_le {bits : Nat} (h : 96 ≤ bits) : (1 : ℚ) / 2 ^ bits ≤ 1 / 2 ^ 96 :=
  one_div_le_one_div_of_le (by positivity) (pow_le_pow_right₀ (by norm_num) h)

/-- The logarithm of a number that is as far from one as a double. -/
theorem abs_low_ln_bounds {bits : Nat} (hbits : 96 ≤ bits) (hx : 0 < x) (hfar : 1 / 2 ^ 53 ≤ |x - 1|) :
    1 / 2 ^ 56 ≤ |(ln x bits).low| ∧ |(ln x bits).low| ≤ 2 * |(binaryExponent x : ℚ)| + 1 := by
  set wide := bits + guardPlaces bits + (binaryExponent x).natAbs.log2 with hwide
  have hplaces : 64 ≤ wide := by omega
  have hfrom : (2 : ℚ) ^ wide ≤ 2 ^ 55 * |((lnFixed x wide : ℤ) : ℚ)| := by exact_mod_cast le_abs_lnFixed hx hplaces hfar
  have hto : 10 * |((lnFixed x wide : ℤ) : ℚ)| ≤ (14 * |(binaryExponent x : ℚ)| + 7) * 2 ^ wide := by
    exact_mod_cast abs_lnFixed_le hx hplaces
  obtain ⟨hdown, hup⟩ := abs_low_around_bounds (n := lnFixed x wide) (a := 1 / 2 ^ 55)
    (b := (14 * |(binaryExponent x : ℚ)| + 7) / 10) (show bits ≤ wide by omega) (by linarith) (by linarith)
  have hradius := radius_le hbits
  have hk := abs_nonneg (binaryExponent x : ℚ)
  exact ⟨le_trans (by linarith) hdown, hup.trans (by linarith)⟩

end

/-- The logarithm of a number with a power of ten is about that of the power. -/
theorem abs_low_lnScaled_bounds {m : ℚ} {e : ℤ} {bits : Nat} (hbits : 96 ≤ bits) (hlow : 1 ≤ m) (hhigh : m < 16)
    (he : 300 ≤ |e|) : 2 * |(e : ℚ)| ≤ |(lnScaled m e bits).low| ∧ |(lnScaled m e bits).low| ≤ 5 * |(e : ℚ)| := by
  have hm : 0 < m := by linarith
  set places := bits + guardPlaces bits + (binaryExponent m).natAbs.log2 + e.natAbs.log2 with hdef
  have hplaces : 64 ≤ places := by omega
  obtain ⟨hk, hk'⟩ := binaryExponent_bounds (a := 0) (b := 4) hm (by simpa) (by norm_num; exact hhigh)
  have hone : (0 : ℤ) < 2 ^ places := by positivity
  -- the logarithm of the mantissa is small against that of the power of ten
  have hln : |lnFixed m places| ≤ 7 * 2 ^ places := by
    have := abs_lnFixed_le hm hplaces
    rw [abs_of_nonneg hk] at this
    have := mul_le_mul_of_nonneg_right (show 14 * binaryExponent m + 7 ≤ 63 by omega) hone.le
    omega
  obtain ⟨hten, hten'⟩ := ln10_bounds hplaces
  have hpower : |e * ln10 places| = |e| * ln10 places := by rw [abs_mul, abs_of_nonneg (show 0 ≤ ln10 places by omega)]
  have hpower' := mul_le_mul_of_nonneg_left hten (abs_nonneg e)
  have hpower'' := mul_le_mul_of_nonneg_left hten' (abs_nonneg e)
  have hlarge := mul_le_mul_of_nonneg_right he hone.le
  have hdown := abs_sub_abs_le_abs_add (e * ln10 places) (lnFixed m places)
  have hup := abs_add_le (lnFixed m places) (e * ln10 places)
  rw [add_comm] at hdown
  have hfrom : 22 * |e| * 2 ^ places ≤ 10 * |lnFixed m places + e * ln10 places| := by linarith
  have hto : 10 * |lnFixed m places + e * ln10 places| ≤ 47 * |e| * 2 ^ places := by linarith
  have hfrom' : 22 * |(e : ℚ)| * 2 ^ places ≤ 10 * |((lnFixed m places + e * ln10 places : ℤ) : ℚ)| := by
    exact_mod_cast hfrom
  have hto' : 10 * |((lnFixed m places + e * ln10 places : ℤ) : ℚ)| ≤ 47 * |(e : ℚ)| * 2 ^ places := by
    exact_mod_cast hto
  obtain ⟨hle, hge⟩ := abs_low_around_bounds (n := lnFixed m places + e * ln10 places) (a := 22 / 10 * |(e : ℚ)|)
    (b := 47 / 10 * |(e : ℚ)|) (show bits ≤ places by omega) (by linarith) (by linarith)
  have hradius := radius_le hbits
  have he' : (300 : ℚ) ≤ |(e : ℚ)| := by exact_mod_cast he
  exact ⟨le_trans (by linarith) hle, hge.trans (by linarith)⟩

end Reckon.Enclosure
