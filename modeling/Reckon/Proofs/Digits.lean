/-
Digit strings: writing and reading are inverse. A padded text is the list of the single digits of
its number, so reading it gives the number back and writing what was read gives the digits back;
the width that `ofNat` searches for is exactly one more than the integer logarithm. A rational number
has the digits of numerator over denominator, whatever its sign.
-/
import Reckon.Digits
import Reckon.Text.Character
import Mathlib

namespace Reckon.Digits

open Reckon.Text

/-! ## Single digits -/

theorem digitChar_toNat {d : Nat} (h : d < 10) : (digitChar d).toNat = 48 + d := by
  interval_cases d <;> rfl

@[simp] theorem digitValue_digitChar {d : Nat} (h : d < 10) : digitValue (digitChar d) = d := by
  unfold digitValue; rw [digitChar_toNat h]; omega

theorem isAsciiDigit_iff {c : Char} : isAsciiDigit c = true ↔ 48 ≤ c.toNat ∧ c.toNat ≤ 57 := by
  unfold isAsciiDigit
  rw [Bool.and_eq_true, decide_eq_true_eq, decide_eq_true_eq, Char.le_def, Char.le_def,
    UInt32.le_iff_toNat_le, UInt32.le_iff_toNat_le]
  rfl

theorem isAsciiDigit_digitChar {d : Nat} (h : d < 10) : isAsciiDigit (digitChar d) = true := by
  rw [isAsciiDigit_iff, digitChar_toNat h]; omega

theorem digitValue_lt {c : Char} (h : isAsciiDigit c = true) : digitValue c < 10 := by
  rw [isAsciiDigit_iff] at h; unfold digitValue; omega

theorem digitChar_digitValue {c : Char} (h : isAsciiDigit c = true) : digitChar (digitValue c) = c := by
  apply Char.toNat_inj.1
  rw [digitChar_toNat (digitValue_lt h)]
  rw [isAsciiDigit_iff] at h
  unfold digitValue; omega

/-- Different digits are written differently. -/
theorem digitChar_inj {a b : Nat} (ha : a < 10) (hb : b < 10) : digitChar a = digitChar b ↔ a = b := by
  constructor
  · intro h
    rw [← digitValue_digitChar ha, h, digitValue_digitChar hb]
  · rintro rfl; rfl

/-! ## Reading -/

@[simp] theorem toNat_nil : toNat [] = 0 := rfl

theorem toNat_foldl (cs : List Char) (n : Nat) :
    cs.foldl (fun acc c => acc * 10 + digitValue c) n = n * 10 ^ cs.length + toNat cs := by
  induction cs generalizing n with
  | nil => simp
  | cons c cs ih =>
    rw [toNat, List.foldl_cons, List.foldl_cons, ih, ih, List.length_cons, pow_succ]
    ring

theorem toNat_cons (c : Char) (cs : List Char) :
    toNat (c :: cs) = digitValue c * 10 ^ cs.length + toNat cs := by
  rw [toNat, List.foldl_cons, toNat_foldl]; simp

theorem toNat_append (xs ys : List Char) : toNat (xs ++ ys) = toNat xs * 10 ^ ys.length + toNat ys := by
  rw [toNat, List.foldl_append, toNat_foldl]; rfl

@[simp] theorem toNat_replicate_zero (k : Nat) : toNat (List.replicate k '0') = 0 := by
  induction k with
  | zero => rfl
  | succ k ih =>
    rw [List.replicate_succ, toNat_cons, ih, show digitValue '0' = 0 from rfl, Nat.zero_mul]

theorem toNat_lt {cs : List Char} (h : ∀ c ∈ cs, isAsciiDigit c = true) : toNat cs < 10 ^ cs.length := by
  induction cs with
  | nil => simp
  | cons c cs ih =>
    have hc := digitValue_lt (h c List.mem_cons_self)
    have hcs := ih fun x hx => h x (List.mem_cons_of_mem _ hx)
    rw [toNat_cons, List.length_cons, pow_succ]
    nlinarith

/-! ## Writing with a fixed width -/

/-- A padded text lists the digits of its number, the digit of the highest power first. -/
theorem paddedOnto_eq (w n : Nat) (rest : List Char) :
    paddedOnto w n rest = (List.range w).reverse.map (fun i => digitChar (n / 10 ^ i % 10)) ++ rest := by
  fun_induction paddedOnto w n rest with
  | case1 n rest => rfl
  | case2 n rest => simp
  | case3 w n rest h0 h1 low ih₁ _ ih₂ =>
    have hw : w = low + (w - low) := by omega
    -- the lower digits see only `n % 10 ^ low`, the upper ones only `n / 10 ^ low`
    have hlow : (List.range low).map (fun i => digitChar (n % 10 ^ low / 10 ^ i % 10)) =
        (List.range low).map fun i => digitChar (n / 10 ^ i % 10) := by
      refine List.map_congr_left fun i hi => ?_
      have hi : i < low := List.mem_range.1 hi
      rw [show low = i + (low - i - 1 + 1) by omega, pow_add, Nat.mod_mul_right_div_self, pow_succ,
        Nat.mod_mul_left_mod]
    have hhigh : (List.range (w - low)).map (fun i => digitChar (n / 10 ^ low / 10 ^ i % 10)) =
        (List.range (w - low)).map fun i => digitChar (n / 10 ^ (low + i) % 10) := by
      refine List.map_congr_left fun i _ => ?_
      rw [Nat.div_div_eq_div_mul, pow_add]
    rw [ih₂, ih₁]
    conv_rhs => rw [hw, List.range_add]
    simp only [List.map_reverse, List.reverse_append, List.map_append, List.map_map, hlow, hhigh]
    rw [List.append_assoc]
    rfl

@[simp] theorem length_padded (w n : Nat) : (paddedOnto w n []).length = w := by
  rw [paddedOnto_eq]; simp

theorem padded_isDigit (w n : Nat) : ∀ c ∈ paddedOnto w n [], isAsciiDigit c = true := by
  intro c hc
  rw [paddedOnto_eq, List.append_nil, List.mem_map] at hc
  obtain ⟨i, -, rfl⟩ := hc
  exact isAsciiDigit_digitChar (Nat.mod_lt _ (by decide))

/-- The highest digit in front. -/
theorem padded_succ (w n : Nat) :
    paddedOnto (w + 1) n [] = digitChar (n / 10 ^ w % 10) :: paddedOnto w n [] := by
  rw [paddedOnto_eq, paddedOnto_eq, List.range_succ]; simp

theorem padded_split (k w n : Nat) :
    paddedOnto (k + w) n [] = paddedOnto k (n / 10 ^ w) [] ++ paddedOnto w n [] := by
  induction k with
  | zero => rw [Nat.zero_add]; simp [paddedOnto_eq 0]
  | succ k ih =>
    rw [show k + 1 + w = (k + w) + 1 by omega, padded_succ, padded_succ, ih, Nat.div_div_eq_div_mul,
      ← pow_add, Nat.add_comm w k, List.cons_append]

/-- The lowest digit behind. -/
theorem padded_succ_eq_append (w n : Nat) :
    paddedOnto (w + 1) n [] = paddedOnto w (n / 10) [] ++ [digitChar (n % 10)] := by
  rw [padded_split, pow_one, padded_succ 0, paddedOnto_eq 0, pow_zero, Nat.div_one]
  rfl

/-- Reading a padded text: the number, as far as the width goes. -/
@[simp] theorem toNat_padded (w n : Nat) : toNat (paddedOnto w n []) = n % 10 ^ w := by
  induction w with
  | zero => simp [paddedOnto_eq, Nat.mod_one]
  | succ w ih =>
    rw [padded_succ, toNat_cons, ih, length_padded, digitValue_digitChar (Nat.mod_lt _ (by decide)), Nat.mod_pow_succ]
    ring

theorem padded_toNat_add (ds : List Char) (h : ∀ c ∈ ds, isAsciiDigit c = true) (m : Nat) :
    paddedOnto ds.length (m * 10 ^ ds.length + toNat ds) [] = ds := by
  induction ds generalizing m with
  | nil => rw [List.length_nil, paddedOnto_eq]; rfl
  | cons c cs ih =>
    have hc := h c List.mem_cons_self
    have hcs : ∀ x ∈ cs, isAsciiDigit x = true := fun x hx => h x (List.mem_cons_of_mem _ hx)
    have hlt := toNat_lt hcs
    have hdigit : (m * 10 + digitValue c) % 10 = digitValue c := by have := digitValue_lt hc; omega
    have key : m * 10 ^ (cs.length + 1) + (digitValue c * 10 ^ cs.length + toNat cs) =
        (m * 10 + digitValue c) * 10 ^ cs.length + toNat cs := by rw [pow_succ]; ring
    rw [List.length_cons, toNat_cons, key, padded_succ, ih hcs, Nat.add_comm, Nat.add_mul_div_right _ _ (by positivity),
      Nat.div_eq_of_lt hlt, Nat.zero_add, hdigit, digitChar_digitValue hc]

/-! ## Writing without leading zeros -/

theorem widthFrom_spec (k n : Nat) :
    k ≤ widthFrom k n ∧ n < 10 ^ widthFrom k n ∧ ∀ w, k ≤ w → n < 10 ^ w → widthFrom k n ≤ w := by
  fun_induction widthFrom k n with
  | case1 k h => exact ⟨le_refl _, h, fun w hw _ => hw⟩
  | case2 k h ih =>
    obtain ⟨h1, h2, h3⟩ := ih
    refine ⟨by omega, h2, fun w hw hn => h3 w ?_ hn⟩
    rcases eq_or_lt_of_le hw with rfl | hw
    · exact absurd hn h
    · exact hw

/-- Powers of ten and two compare as their exponents do, by any fraction below the logarithm. -/
theorem ten_pow_le_two_pow {a b k l : Nat} (hb : b ≠ 0) (hab : 10 ^ a ≤ 2 ^ b) (h : k * b ≤ a * l) :
    10 ^ k ≤ 2 ^ l := by
  refine (Nat.pow_le_pow_iff_left hb).1 ?_
  calc (10 ^ k) ^ b = 10 ^ (k * b) := (pow_mul _ _ _).symm
    _ ≤ 10 ^ (a * l) := Nat.pow_le_pow_right (by decide) h
    _ = (10 ^ a) ^ l := pow_mul _ _ _
    _ ≤ (2 ^ b) ^ l := Nat.pow_le_pow_left hab l
    _ = (2 ^ l) ^ b := by rw [← pow_mul, ← pow_mul, Nat.mul_comm]

/-- The estimate that `width` starts from is at most the logarithm: the convergent
21306 / 70777 lies between the two. -/
theorem pow_estimate_le (l : Nat) : 10 ^ (l * 1292913986 / 2 ^ (32 : Nat)) ≤ 2 ^ l := by
  refine ten_pow_le_two_pow (a := 21306) (b := 70777) (by decide) (by decide +kernel) ?_
  rw [show (2 : Nat) ^ (32 : Nat) = 4294967296 from rfl]
  omega

/-- The width is one more than the integer logarithm. -/
theorem width_eq (n : Nat) : width n = Nat.log 10 n + 1 := by
  obtain ⟨h1, h2, h3⟩ := widthFrom_spec (n.log2 * 1292913986 / 2 ^ (32 : Nat) + 1) n
  rw [← width] at h1 h2 h3
  apply le_antisymm
  · refine h3 _ (Nat.succ_le_succ ?_) (Nat.lt_pow_succ_log_self (by decide) n)
    rcases Nat.eq_zero_or_pos n with rfl | hn
    · decide +kernel
    exact Nat.le_log_of_pow_le (by decide) (le_trans (pow_estimate_le _) (Nat.log2_self_le (by omega)))
  · exact Nat.log_lt_of_lt_pow' (by omega) h2

theorem width_pos (n : Nat) : 0 < width n := by rw [width_eq]; omega

theorem lt_pow_width (n : Nat) : n < 10 ^ width n := by
  rw [width_eq]; exact Nat.lt_pow_succ_log_self (by decide) n

theorem width_mul_pow {n : Nat} (h : 0 < n) (k : Nat) : width (n * 10 ^ k) = width n + k := by
  induction k with
  | zero => simp
  | succ k ih =>
    rw [width_eq, width_eq] at ih ⊢
    rw [pow_succ, ← Nat.mul_assoc, Nat.log_mul_base (by decide) (by positivity)]
    omega

theorem width_le {n k : Nat} (hk : 0 < k) (h : n < 10 ^ k) : width n ≤ k := by
  rw [width_eq]; exact Nat.log_lt_of_lt_pow' hk.ne' h

theorem width_pow_le (x k : Nat) : width (x ^ k) ≤ k * width x + 1 := by
  refine width_le (Nat.succ_pos _) ?_
  calc x ^ k ≤ (10 ^ width x) ^ k := Nat.pow_le_pow_left (lt_pow_width x).le k
    _ = 10 ^ (k * width x) := by rw [← pow_mul, Nat.mul_comm]
    _ < 10 ^ (k * width x + 1) := Nat.pow_lt_pow_right (by decide) (Nat.lt_succ_self _)

theorem width_mul_le (x y : Nat) : width (x * y) ≤ width x + width y := by
  refine width_le (Nat.add_pos_left (width_pos x) _) ?_
  rw [pow_add]
  exact Nat.mul_lt_mul_of_lt_of_lt (lt_pow_width x) (lt_pow_width y)

theorem width_eq_one_iff (n : Nat) : width n = 1 ↔ n < 10 := by
  constructor
  · intro h
    have := lt_pow_width n
    rwa [h, pow_one] at this
  · intro h
    have h1 := width_le Nat.one_pos (show n < 10 ^ 1 by rwa [pow_one])
    have h2 := width_pos n
    omega

@[simp] theorem length_ofNat (n : Nat) : (ofNat n).length = width n := length_padded _ _

theorem ofNat_isDigit (n : Nat) : ∀ c ∈ ofNat n, isAsciiDigit c = true := padded_isDigit _ _

/-- Reading what was written. -/
@[simp] theorem toNat_ofNat (n : Nat) : toNat (ofNat n) = n := by
  rw [ofNat, toNat_padded, Nat.mod_eq_of_lt (lt_pow_width n)]

theorem ofNat_ne_nil (n : Nat) : ofNat n ≠ [] := by
  intro h
  have := length_ofNat n
  rw [h] at this
  exact absurd this.symm (width_pos n).ne'

theorem ofNat_of_lt {n : Nat} (h : n < 10) : ofNat n = [digitChar n] := by
  have hw : width n = 0 + 1 := by rw [width_eq, Nat.log_of_lt h]
  rw [ofNat, hw, padded_succ, paddedOnto_eq]
  simp [Nat.mod_eq_of_lt h]

theorem ofNat_of_le {n : Nat} (h : 10 ≤ n) : ofNat n = ofNat (n / 10) ++ [digitChar (n % 10)] := by
  have hw : width n = width (n / 10) + 1 := by
    rw [width_eq, width_eq, Nat.log_of_one_lt_of_le (by decide) h]
  rw [ofNat, hw, padded_succ_eq_append, ofNat]

/-- Only zero is written with a leading zero. -/
theorem eq_nil_of_ofNat_eq {n : Nat} {cs : List Char} (h : ofNat n = '0' :: cs) : cs = [] := by
  have hvalue : n = toNat cs := by
    rw [← toNat_ofNat n, h, toNat_cons, show digitValue '0' = 0 from rfl, Nat.zero_mul, Nat.zero_add]
  have hlt : n < 10 ^ cs.length := by
    rw [hvalue]
    exact toNat_lt fun c hc => ofNat_isDigit n c (h ▸ List.mem_cons_of_mem _ hc)
  have hwidth : width n = cs.length + 1 := by rw [← length_ofNat, h, List.length_cons]
  by_contra hne
  have := width_le (List.length_pos_iff.2 hne) hlt
  omega

/-- A factor of a power of ten is written as zeros. -/
theorem ofNat_mul_pow {n : Nat} (h : 0 < n) (k : Nat) : ofNat (n * 10 ^ k) = ofNat n ++ List.replicate k '0' := by
  have hzeros := padded_toNat_add (List.replicate k '0') (fun c hc => by rw [List.eq_of_mem_replicate hc]; rfl) n
  rw [List.length_replicate, toNat_replicate_zero, Nat.add_zero] at hzeros
  rw [ofNat, width_mul_pow h, padded_split, Nat.mul_div_cancel _ (by positivity), hzeros]
  rfl

/-- The digits are those that the library writes. -/
theorem ofNat_eq_toDigits (n : Nat) : ofNat n = Nat.toDigits 10 n := by
  have hchar : ∀ d, d < 10 → digitChar d = Nat.digitChar d := fun d h => by interval_cases d <;> rfl
  induction n using Nat.strong_induction_on with
  | _ n ih =>
    rcases Nat.lt_or_ge n 10 with h | h
    · rw [ofNat_of_lt h, Nat.toDigits_of_lt_base h, hchar n h]
    · rw [ofNat_of_le h, Nat.toDigits_of_base_le (by decide) h, ih _ (by omega), hchar _ (Nat.mod_lt _ (by decide))]

/-! ## Trailing zeros -/

theorem trailingZeros_spec (limit n : Nat) :
    trailingZeros limit n ≤ limit ∧ 10 ^ trailingZeros limit n ∣ n ∧
      (trailingZeros limit n < limit → ¬ 10 ^ (trailingZeros limit n + 1) ∣ n) := by
  induction limit generalizing n with
  | zero => simp [trailingZeros]
  | succ k ih =>
    unfold trailingZeros
    split
    · rename_i h
      obtain ⟨m, rfl⟩ := Nat.dvd_of_mod_eq_zero h
      rw [Nat.mul_div_cancel_left m (by decide), Nat.mul_comm 10 m]
      obtain ⟨h1, h2, h3⟩ := ih m
      refine ⟨by omega, ?_, fun hlt hdvd => h3 (by omega) ?_⟩
      · exact Nat.mul_dvd_mul_right h2 10
      · exact Nat.dvd_of_mul_dvd_mul_right (show 0 < 10 by decide) hdvd
    · rename_i h
      refine ⟨by omega, by simp, fun _ hdvd => h ?_⟩
      exact Nat.mod_eq_zero_of_dvd (by simpa using hdvd)

end Reckon.Digits

/-! ## Quotients without their sign -/

namespace Reckon

theorem abs_intDiv (num den : ℤ) : |(num / den : ℚ)| = (num.natAbs : ℚ) / den.natAbs := by
  rw [abs_div, Nat.cast_natAbs, Nat.cast_natAbs, Int.cast_abs, Int.cast_abs]

theorem abs_eq_natAbs_div (q : ℚ) : |q| = (q.num.natAbs : ℚ) / q.den := by
  conv_lhs => rw [← Rat.num_div_den q, ← Int.cast_natCast (n := q.den), abs_intDiv]
  rfl

end Reckon
