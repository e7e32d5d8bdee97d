/-
What the reader makes of a written decimal. Every layout is a literal, so reading it back gives a
decimal of the same value; only its digits can differ from the stored ones, by the zeros that a
layout pads with. The one value that does not come back is a single digit at the least exponent:
the point that the display form insists on moves it out of range.
-/
import Reckon.Notation.Writer
import Reckon.Proofs.Decimal.Value
import Reckon.Proofs.Notation.Literal

namespace Reckon.Notation

open Reckon.Text Reckon.Decimal

/-! ## Literals without a sign -/

/-- A power of ten as it is written for an exponent. -/
def Power.ofInt (n : Int) : Power := ⟨false, if n < 0 then some true else none, Digits.ofNat n.natAbs⟩

/-- A literal made of digits, digits behind a point and an exponent. -/
def Literal.plain (whole : List Char) (fraction : Option (List Char)) (power : Option Int) : Literal :=
  ⟨none, whole, fraction.map (⟨·, none⟩), power.map Power.ofInt, false⟩

theorem ofInt_eq (n : Int) :
    Digits.ofInt n = String.ofList (signChars (if n < 0 then some true else none) ++ Digits.ofNat n.natAbs) := by
  unfold Digits.ofInt
  by_cases h : n < 0
  · rw [if_pos h, if_pos h, signChars, List.singleton_append]
  · rw [if_neg h, if_neg h, signChars, List.nil_append]

theorem Power.text_ofInt (n : Int) : (Power.ofInt n).text = 'e' :: (Digits.ofInt n).toList := by
  rw [ofInt_eq, String.toList_ofList]
  rfl

theorem Power.value_ofInt (n : Int) : (Power.ofInt n).value = n := by
  unfold Power.value Power.ofInt signed
  rw [Digits.toNat_ofNat]
  by_cases h : n < 0
  · rw [if_pos h, beq_self_eq_true, if_pos rfl]
    omega
  · rw [if_neg h, if_neg (by simp)]
    omega

/-- Exponents of decimals have few digits. -/
theorem Power.wellFormed_ofInt {n : Int} (h : n.natAbs < 10 ^ 19) : (Power.ofInt n).WellFormed := by
  refine ⟨isDigits_ofNat _, Digits.ofNat_ne_nil _, ?_⟩
  have := Digits.width_le (by decide) h
  show (Digits.ofNat n.natAbs).length ≤ 4300
  rw [Digits.length_ofNat]
  omega

theorem Literal.wellFormed_plain {whole : List Char} {fraction : Option (List Char)} {power : Option Int}
    (hw : IsDigits whole) (hne : whole ≠ []) (hf : ∀ ds ∈ fraction, IsDigits ds)
    (hp : ∀ n ∈ power, n.natAbs < 10 ^ 19) : (Literal.plain whole fraction power).WellFormed := by
  refine ⟨hw, ?_, ?_, .inl hne⟩
  · rintro f hmem
    obtain ⟨ds, hds, rfl⟩ := Option.map_eq_some_iff.1 hmem
    exact ⟨hf ds hds, fun _ h => nomatch h⟩
  · rintro p hmem
    obtain ⟨n, hn, rfl⟩ := Option.map_eq_some_iff.1 hmem
    exact Power.wellFormed_ofInt (hp n hn)

theorem Literal.text_plain (whole : List Char) (fraction : Option (List Char)) (power : Option Int) :
    (Literal.plain whole fraction power).text = whole ++ ((fraction.map fun ds => '.' :: ds).getD [] ++
      (power.map fun n => (Power.ofInt n).text).getD []) := by
  unfold Literal.text Literal.unmarked Literal.body Literal.plain
  cases fraction <;> cases power <;> simp [signChars, Fraction.text]

/-! ## Layouts -/

/-- The coefficient and the exponent that the text of `c` · 10 ^ `e` spells: padding zeros are
digits, and so is the zero behind a forced point. -/
def spelled (forcePoint : Bool) (c : Nat) (e : Int) : Nat × Int :=
  if 0 ≤ e ∧ e ≤ maxPadding then
    if forcePoint then (c * 10 ^ (e.toNat + 1), -1) else (c * 10 ^ e.toNat, 0)
  else if forcePoint ∧ c < 10 ∧ (0 ≤ e ∨ e < -(maxPadding + 1 : Int)) then (c * 10, e - 1)
  else (c, e)

/-- The text is a literal without a sign, and its pieces spell the given number. -/
structure Spells (text : String) (power : Int) (coefficient : Nat) (exponent : Int) (l : Literal) : Prop where
  text_eq : text = String.ofList l.text
  plain : ∃ whole fraction shown, l = Literal.plain whole fraction shown ∧ IsDigits whole ∧ whole ≠ [] ∧
    (∀ ds ∈ fraction, IsDigits ds) ∧ ∀ n ∈ shown, n = power
  coefficient_eq : Digits.toNat (l.whole ++ l.fraction) = coefficient
  exponent_eq : l.exponent - l.fraction.length = exponent

section

variable {ds : List Char}

/-- Digits with a power of ten: the point stands behind the first one. -/
theorem spells_scientific (hd : IsDigits ds) (hne : ds ≠ []) (power : Int) (forcePoint : Bool) :
    ∃ l, Spells (scientific ds power forcePoint) power
      (if forcePoint ∧ ds.length = 1 then Digits.toNat ds * 10 else Digits.toNat ds)
      (if forcePoint ∧ ds.length = 1 then power - 1 else power - (ds.length - 1 : Nat)) l := by
  -- a single digit has no point of its own, so a forced one adds a zero
  rcases ds with _ | ⟨d, _ | ⟨d', rest⟩⟩
  · exact absurd rfl hne
  · cases forcePoint
    · refine ⟨Literal.plain [d] none (some power), ?_, ⟨_, _, _, rfl, hd, nofun, nofun, ?_⟩, ?_, ?_⟩
      · rw [Literal.text_plain]
        apply String.toList_injective
        simp [scientific, Power.text_ofInt]
      · exact fun n hn => (Option.some.inj hn).symm
      · simp [Literal.plain, Literal.fraction]
      · simp [Literal.plain, Literal.fraction, Literal.exponent, Power.value_ofInt]
    · refine ⟨Literal.plain [d] (some ['0']) (some power), ?_, ⟨_, _, _, rfl, hd, nofun, ?_, ?_⟩, ?_, ?_⟩
      · rw [Literal.text_plain]
        apply String.toList_injective
        simp [scientific, Power.text_ofInt]
      · rintro _ hds
        obtain rfl := Option.some.inj hds
        exact isDigits_replicate_zero 1
      · exact fun n hn => (Option.some.inj hn).symm
      · simp [Literal.plain, Literal.fraction, Digits.toNat_cons, Digits.digitValue]
      · simp [Literal.plain, Literal.fraction, Literal.exponent, Power.value_ofInt]
  · refine ⟨Literal.plain [d] (some (d' :: rest)) (some power), ?_, ⟨_, _, _, rfl, ?_, nofun, ?_, ?_⟩, ?_, ?_⟩
    · rw [Literal.text_plain]
      apply String.toList_injective
      simp [scientific, Power.text_ofInt]
    · exact fun x hx => hd x (by rw [List.mem_singleton.1 hx]; exact List.mem_cons_self)
    · rintro _ hds
      obtain rfl := Option.some.inj hds
      exact fun x hx => hd x (List.mem_cons_of_mem _ hx)
    · exact fun n hn => (Option.some.inj hn).symm
    · simp [Literal.plain, Literal.fraction]
    · simp [Literal.plain, Literal.fraction, Literal.exponent, Power.value_ofInt]

theorem spells_padded (hd : IsDigits ds) (hne : ds ≠ []) (zeros : Nat) (power : Int) :
    ∃ l, Spells (String.ofList (ds ++ List.replicate zeros '0')) power (Digits.toNat ds * 10 ^ zeros) 0 l := by
  refine ⟨Literal.plain (ds ++ List.replicate zeros '0') none none, ?_,
    ⟨_, _, _, rfl, hd.append (isDigits_replicate_zero _), ?_, nofun, nofun⟩, ?_, ?_⟩
  · rw [Literal.text_plain]
    simp
  · exact fun hnil => hne (List.append_eq_nil_iff.1 hnil).1
  · simp [Literal.plain, Literal.fraction, Digits.toNat_append]
  · simp [Literal.plain, Literal.fraction, Literal.exponent]

theorem spells_padded_point (hd : IsDigits ds) (hne : ds ≠ []) (zeros : Nat) (power : Int) :
    ∃ l, Spells (String.ofList (ds ++ List.replicate zeros '0') ++ ".0") power
      (Digits.toNat ds * 10 ^ (zeros + 1)) (-1) l := by
  have hzero : Digits.toNat ['0'] = 0 := Digits.toNat_replicate_zero 1
  refine ⟨Literal.plain (ds ++ List.replicate zeros '0') (some ['0']) none, ?_,
    ⟨_, _, _, rfl, hd.append (isDigits_replicate_zero _), ?_, ?_, nofun⟩, ?_, ?_⟩
  · rw [Literal.text_plain]
    apply String.toList_injective
    simp
  · exact fun hnil => hne (List.append_eq_nil_iff.1 hnil).1
  · rintro _ hds
    obtain rfl := Option.some.inj hds
    exact isDigits_replicate_zero 1
  · simp only [Literal.plain, Literal.fraction, Option.map_some, Option.getD_some]
    rw [Digits.toNat_append, Digits.toNat_append, Digits.toNat_replicate_zero, hzero, List.length_replicate,
      List.length_singleton, pow_succ]
    ring
  · simp [Literal.plain, Literal.fraction, Literal.exponent]

theorem spells_leading (hd : IsDigits ds) (zeros : Nat) (power : Int) :
    ∃ l, Spells ("0." ++ String.ofList (List.replicate zeros '0' ++ ds)) power (Digits.toNat ds)
      (-(zeros + ds.length : Nat)) l := by
  have hzero : Digits.toNat ['0'] = 0 := Digits.toNat_replicate_zero 1
  refine ⟨Literal.plain ['0'] (some (List.replicate zeros '0' ++ ds)) none, ?_,
    ⟨_, _, _, rfl, isDigits_replicate_zero 1, nofun, ?_, nofun⟩, ?_, ?_⟩
  · rw [Literal.text_plain]
    apply String.toList_injective
    simp
  · rintro _ hds
    obtain rfl := Option.some.inj hds
    exact (isDigits_replicate_zero _).append hd
  · simp only [Literal.plain, Literal.fraction, Option.map_some, Option.getD_some]
    rw [Digits.toNat_append, Digits.toNat_append, Digits.toNat_replicate_zero, hzero, Nat.zero_mul, Nat.zero_mul,
      Nat.zero_add, Nat.zero_add]
  · simp [Literal.plain, Literal.fraction, Literal.exponent]

theorem spells_split {front back : List Char} (hf : IsDigits front) (hne : front ≠ []) (hb : IsDigits back)
    (power : Int) :
    ∃ l, Spells (String.ofList (front ++ '.' :: back)) power (Digits.toNat (front ++ back)) (-(back.length : Nat)) l := by
  refine ⟨Literal.plain front (some back) none, ?_, ⟨_, _, _, rfl, hf, hne, ?_, nofun⟩, ?_, ?_⟩
  · rw [Literal.text_plain]
    simp
  · rintro _ hds
    obtain rfl := Option.some.inj hds
    exact hb
  · simp [Literal.plain, Literal.fraction]
  · simp [Literal.plain, Literal.fraction, Literal.exponent]

/-- With a power the digits are those stored, unless a forced point adds one. -/
theorem spells_power (hd : IsDigits ds) (hne : ds ≠ []) (hone : ds.length = 1 ↔ Digits.toNat ds < 10) {e : Int}
    (forcePoint : Bool) (hbig : 0 ≤ e → maxPadding < e.natAbs) (hfar : e < 0 → maxPadding < e.natAbs - ds.length) :
    ∃ l, Spells (scientific ds (e + (ds.length - 1 : Nat)) forcePoint) (e + (ds.length - 1 : Nat))
      (spelled forcePoint (Digits.toNat ds) e).1 (spelled forcePoint (Digits.toNat ds) e).2 l := by
  have hpos := List.length_pos_iff.2 hne
  have hl := spells_scientific hd hne (e + (ds.length - 1 : Nat)) forcePoint
  unfold spelled
  rw [if_neg (by omega)]
  by_cases hf : forcePoint = true ∧ ds.length = 1
  · rw [if_pos hf, if_pos hf] at hl
    rw [if_pos ⟨hf.1, hone.1 hf.2, by omega⟩]
    simpa only [hf.2, Nat.sub_self, Nat.cast_zero, add_zero] using hl
  · rw [if_neg hf, if_neg hf, add_sub_cancel_right] at hl
    rw [if_neg fun h => hf ⟨h.1, hone.2 h.2.1⟩]
    exact hl

/-- Every layout spells its number. -/
theorem spells_magnitudeText (hd : IsDigits ds) (hne : ds ≠ []) (hone : ds.length = 1 ↔ Digits.toNat ds < 10)
    (e : Int) (forcePoint : Bool) :
    ∃ l, Spells (magnitudeText ds e forcePoint) (e + (ds.length - 1 : Nat))
      (spelled forcePoint (Digits.toNat ds) e).1 (spelled forcePoint (Digits.toNat ds) e).2 l := by
  have hmax : maxPadding = 50 := rfl
  have hpower := @spells_power _ hd hne hone e forcePoint
  rw [hmax] at hpower
  have hsame : e < 0 → (ds.length ≤ e.natAbs → e.natAbs - ds.length ≤ 50) →
      spelled forcePoint (Digits.toNat ds) e = (Digits.toNat ds, e) := by
    intro he hfew
    unfold spelled
    rw [hmax, if_neg (by omega), if_neg (by push_cast; omega)]
  have hpadded : 0 ≤ e → e ≤ 50 → spelled forcePoint (Digits.toNat ds) e =
      if forcePoint then (Digits.toNat ds * 10 ^ (e.toNat + 1), -1) else (Digits.toNat ds * 10 ^ e.toNat, 0) :=
    fun h1 h2 => if_pos ⟨h1, h2⟩
  unfold magnitudeText
  simp only [hmax]
  by_cases he : 0 ≤ e
  · rw [if_pos he]
    by_cases hbig : 50 < e.natAbs
    · rw [if_pos hbig]
      exact hpower (fun _ => hbig) (by omega)
    · rw [if_neg hbig, hpadded he (by omega), show e.natAbs = e.toNat by omega]
      cases forcePoint
      · simp only [Bool.false_eq_true, if_false, String.append_empty]
        exact spells_padded hd hne e.toNat _
      · simp only [if_true]
        exact spells_padded_point hd hne e.toNat _
  · rw [if_neg he]
    by_cases hlead : ds.length ≤ e.natAbs
    · rw [if_pos hlead]
      by_cases hbig : 50 < e.natAbs - ds.length
      · rw [if_pos hbig]
        exact hpower (by omega) (fun _ => hbig)
      · rw [if_neg hbig, hsame (by omega) (by omega)]
        have hl := spells_leading hd (e.natAbs - ds.length) (e + (ds.length - 1 : Nat))
        rwa [show -((e.natAbs - ds.length + ds.length : Nat) : Int) = e by omega] at hl
    · rw [if_neg hlead, hsame (by omega) (by omega)]
      have hfront : ds.take (ds.length - e.natAbs) ≠ [] := fun h => by
        have := congrArg List.length h
        rw [List.length_take, List.length_nil] at this
        omega
      have hfrontDigits : IsDigits (ds.take (ds.length - e.natAbs)) := fun x hx => hd x (List.mem_of_mem_take hx)
      have hback : IsDigits (ds.drop (ds.length - e.natAbs)) := fun x hx => hd x (List.mem_of_mem_drop hx)
      have hl := spells_split hfrontDigits hfront hback (e + (ds.length - 1 : Nat))
      rwa [List.take_append_drop, List.length_drop,
        show -((ds.length - (ds.length - e.natAbs) : Nat) : Int) = e by omega] at hl

end

/-! ## What is read back -/

section

variable {c : Nat} {e : Int} {forcePoint : Bool}

theorem spelled_value : ((spelled forcePoint c e).1 : ℚ) * tenPow (spelled forcePoint c e).2 = c * tenPow e := by
  have hten : ∀ (k : Nat) (f : Int), ((c * 10 ^ k : Nat) : ℚ) * tenPow f = c * tenPow (f + k) := by
    intro k f
    rw [tenPow_add, tenPow_natCast]
    push_cast
    ring
  unfold spelled
  split
  · rename_i h
    split
    · rw [hten, show (-1 : Int) + (e.toNat + 1 : Nat) = e by omega]
    · rw [hten, show (0 : Int) + (e.toNat : Nat) = e by omega]
  · split
    · have := hten 1 (e - 1)
      rw [pow_one, show e - 1 + (1 : Nat) = e by omega] at this
      exact this
    · rfl

/-- A single digit at the least exponent leaves no room for a forced point. -/
def Tight (d : Decimal) : Prop := d.exponent = minExponent ∧ 0 < d.coefficient ∧ d.coefficient < 10

theorem adjusted_spelled (hc : 0 < c) (negative : Bool) :
    adjusted ⟨negative, (spelled forcePoint c e).1, (spelled forcePoint c e).2⟩ = adjusted ⟨negative, c, e⟩ := by
  have hone := Digits.width_pos c
  unfold adjusted digitCount spelled
  split
  · rename_i h
    split
    · rw [Digits.width_mul_pow hc]
      simp only
      omega
    · rw [Digits.width_mul_pow hc]
      simp only
      omega
  · split
    · have := Digits.width_mul_pow hc 1
      rw [pow_one] at this
      simp only [this]
      omega
    · rfl

theorem inRange_spelled_iff (hc : 0 < c) {negative : Bool} (h : inRange ⟨negative, c, e⟩ = true) (sign : Bool) :
    inRange ⟨sign, (spelled forcePoint c e).1, (spelled forcePoint c e).2⟩ = true ↔
      ¬ (forcePoint = true ∧ Tight ⟨negative, c, e⟩) := by
  have hadj := @adjusted_spelled c e forcePoint hc negative
  have hmin : minExponent = -1999999999999999997 := rfl
  have hmax : maxPadding = 50 := rfl
  rw [inRange_iff] at h ⊢
  change minExponent ≤ (spelled forcePoint c e).2 ∧
    adjusted ⟨negative, (spelled forcePoint c e).1, (spelled forcePoint c e).2⟩ ≤ maxExponent ↔ _
  rw [hadj, and_iff_left h.2]
  have hle : minExponent ≤ e := h.1
  unfold Tight spelled
  simp only [hmax, hmin] at *
  split
  · rename_i hpad
    have hnot : ¬ (forcePoint = true ∧ e = -1999999999999999997 ∧ 0 < c ∧ c < 10) := fun ht => by
      have := ht.2.1
      omega
    split
    · exact iff_of_true (show (-1999999999999999997 : Int) ≤ -1 by decide) hnot
    · exact iff_of_true (show (-1999999999999999997 : Int) ≤ 0 by decide) hnot
  · rename_i hpad
    split
    -- the zero behind a forced point lowers the exponent by one
    · rename_i hpoint
      simp only
      constructor
      · rintro hlt ⟨-, heq, -⟩
        omega
      · intro hnot
        by_contra hlt
        exact hnot ⟨hpoint.1, by omega, hc, hpoint.2.1⟩
    · rename_i hpoint
      refine iff_of_true hle fun ht => hpoint ⟨ht.1, ht.2.2.2, .inr ?_⟩
      have := ht.2.1
      push_cast
      omega

end

/-- The decimal that is read back from the text of another one, with the sign that stands there. -/
def reread (forcePoint negative : Bool) (d : Decimal) : Decimal :=
  if d.strip.isZero then ⟨negative, 0, if forcePoint then -1 else 0⟩
  else ⟨negative, (spelled forcePoint d.strip.coefficient d.strip.exponent).1,
    (spelled forcePoint d.strip.coefficient d.strip.exponent).2⟩

/-- The text of a decimal without its sign. -/
def unsignedText (d : Decimal) (forcePoint : Bool) : String :=
  if d.strip.isZero then if forcePoint then "0.0" else "0"
  else magnitudeText d.strip.digits d.strip.exponent forcePoint

theorem isZero_strip (d : Decimal) : d.strip.isZero = d.isZero := by
  rw [Bool.eq_iff_iff, isZero_iff, isZero_iff, ← toRat_eq_zero_iff, ← toRat_eq_zero_iff, toRat_strip]

theorem positional_eq (d : Decimal) (forcePoint : Bool) :
    positional d forcePoint = signText (d.negative && !d.isZero) ++ unsignedText d forcePoint := by
  unfold positional unsignedText
  simp only [← isZero_strip d]
  split
  · rename_i h
    rw [h, Bool.not_true, Bool.and_false]
    exact (String.empty_append).symm
  · rename_i h
    rw [Bool.not_eq_true] at h
    rw [h, strip_negative, Bool.not_false, Bool.and_true]

section

variable (forcePoint negative : Bool) (d : Decimal)

@[simp] theorem reread_negative : (reread forcePoint negative d).negative = negative := by
  unfold reread
  split <;> rfl

theorem toRat_reread : (reread forcePoint negative d).toRat = if negative then -|d.toRat| else |d.toRat| := by
  have habs : |(reread forcePoint negative d).toRat| = |d.toRat| := by
    rw [← toRat_strip d, abs_toRat, abs_toRat]
    unfold reread
    split
    · rename_i h
      rw [(isZero_iff _).1 h]
      simp
    · exact spelled_value
  rw [← habs, toRat_eq_sign, reread_negative, abs_mul, abs_of_nonneg (mul_nonneg (Nat.cast_nonneg _) (tenPow_pos _).le)]
  cases negative <;> simp

theorem isZero_reread : (reread forcePoint negative d).isZero = d.isZero := by
  rw [Bool.eq_iff_iff, isZero_iff, isZero_iff, ← toRat_eq_zero_iff, ← toRat_eq_zero_iff, toRat_reread]
  cases negative <;> simp

/-- What is read back is in range, unless a forced point moved it out. -/
theorem inRange_reread_iff {d : Decimal} (h : d.inRange = true) :
    (reread forcePoint negative d).inRange = true ↔ ¬ (forcePoint = true ∧ Tight d) := by
  have hstrip := inRange_strip h
  unfold reread
  by_cases hz : d.coefficient = 0
  · have hzero : d.strip.isZero = true := by rw [isZero_strip, isZero_iff, hz]
    rw [if_pos hzero]
    refine iff_of_true ?_ fun hf => absurd hf.2.2.1 (by omega)
    cases negative <;> cases forcePoint <;> with_unfolding_all decide
  · obtain ⟨hne, hle, -⟩ := adjusted_strip hz
    have hpos := Nat.pos_of_ne_zero hne
    have hspelled := @inRange_spelled_iff d.strip.coefficient d.strip.exponent forcePoint hpos d.strip.negative hstrip
    rw [if_neg (by rwa [isZero_iff]), hspelled negative]
    rw [inRange_iff] at h
    -- a digit at the least exponent is no trailing zero
    have htight : Tight ⟨d.strip.negative, d.strip.coefficient, d.strip.exponent⟩ ↔ Tight d := by
      obtain ⟨k, hdvd, heq, -, -⟩ := strip_spec hz
      rcases Nat.eq_zero_or_pos k with rfl | hk
      · rw [heq, dropZeros_zero]
      · refine iff_of_false (fun ht => ?_) (fun ht => ?_)
        · have := ht.1
          rw [heq] at this
          simp only [dropZeros] at this
          omega
        · have := Nat.le_of_dvd ht.2.1 ((dvd_pow_self 10 hk.ne').trans hdvd)
          have := ht.2.2
          omega
    rw [htight]

end

/-! ## Reading a written decimal -/

/-- A real that stores a decimal, as an approximation or exactly. -/
def ofStored (approximate : Bool) (d : Decimal) : Outcome Real :=
  if !d.inRange then .error .decimalRange else .ok (if approximate then .irrational d else .big d)

theorem ofStored_of_inRange (approximate : Bool) {d : Decimal} (h : d.inRange = true) :
    ofStored approximate d = .ok (if approximate then .irrational d else .big d) := by
  rw [ofStored, h]
  rfl

theorem ofStored_of_not_inRange (approximate : Bool) {d : Decimal} (h : d.inRange = false) :
    ofStored approximate d = .error .decimalRange := by
  rw [ofStored, h]
  rfl

theorem ofStored_neg (approximate : Bool) (d : Decimal) : ofStored approximate d.neg = (ofStored approximate d).map Real.neg := by
  have hrange : d.neg.inRange = d.inRange := rfl
  unfold ofStored
  rw [hrange]
  cases d.inRange <;> cases approximate <;> rfl

theorem realOfParts_none (s : String) (negative : Bool) (whole fraction : List Char) (e : Int) (approximate : Bool) :
    realOfParts s negative whole fraction none e approximate =
      ofStored approximate ⟨negative, Digits.toNat (whole ++ fraction), e - fraction.length⟩ := rfl

/-- The literal of a decimal: whatever sign and mark it gets, it denotes the decimal that is read
back. -/
theorem exists_literal {d : Decimal} (h : d.inRange = true) (forcePoint : Bool) : ∃ l : Literal,
    l.WellFormed ∧ l.sign = none ∧ l.approximate = false ∧ l.cycle? = none ∧
      unsignedText d forcePoint = String.ofList l.text ∧
      ∀ negative, (⟨negative, Digits.toNat (l.whole ++ l.fraction), l.exponent - l.fraction.length⟩ : Decimal) =
        reread forcePoint negative d := by
  unfold unsignedText reread
  by_cases hz : d.strip.isZero = true
  · simp only [if_pos hz]
    cases forcePoint
    · exact ⟨Literal.plain ['0'] none none, Literal.wellFormed_plain (isDigits_replicate_zero 1) nofun nofun nofun,
        rfl, rfl, rfl, rfl, fun _ => rfl⟩
    · exact ⟨Literal.plain ['0'] (some ['0']) none, Literal.wellFormed_plain (isDigits_replicate_zero 1) nofun
        (fun ds hds => Option.some.inj hds ▸ isDigits_replicate_zero 1) nofun, rfl, rfl, rfl, rfl, fun _ => rfl⟩
  · have hstrip := inRange_strip h
    rw [inRange_iff] at hstrip
    simp only [if_neg hz]
    have hlen := Digits.length_ofNat d.strip.coefficient
    have hone : (Digits.ofNat d.strip.coefficient).length = 1 ↔ Digits.toNat (Digits.ofNat d.strip.coefficient) < 10 := by
      rw [Digits.length_ofNat, Digits.toNat_ofNat]
      exact Digits.width_eq_one_iff _
    obtain ⟨l, htext, ⟨whole, fraction, shown, rfl, hw, hne, hf, hp⟩, hc, he⟩ :=
      spells_magnitudeText (isDigits_ofNat _) (Digits.ofNat_ne_nil _) hone d.strip.exponent forcePoint
    rw [Digits.toNat_ofNat] at hc he
    refine ⟨Literal.plain whole fraction shown, Literal.wellFormed_plain hw hne hf fun n hn => ?_, rfl, rfl, ?_,
      htext, fun negative => by rw [hc, he]⟩
    · rw [hp n hn, hlen]
      have hadj : d.strip.adjusted = d.strip.exponent + (Digits.width d.strip.coefficient - 1 : Nat) := rfl
      rw [← hadj]
      have hle : d.strip.exponent ≤ d.strip.adjusted := by omega
      have hmin : minExponent = -1999999999999999997 := rfl
      have hmax : maxExponent = 999999999999999999 := rfl
      omega
    · cases fraction <;> rfl

end Reckon.Notation
