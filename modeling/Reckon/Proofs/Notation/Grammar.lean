/-
The grammar of real literals, stated without the reader: a special word behind a sign, or digits with a point, a
cycle, a power of ten and a mark, most of which may be missing. The reader takes exactly these texts. It gives back
the decimal that the digits spell or the number stored for the rational that they approach, and every other text is
malformed.
-/
import Reckon.Proofs.Expansion.Denotation
import Reckon.Proofs.Notation.Failures
import Reckon.Proofs.Notation.Recurring
import Reckon.Proofs.Real.Stored

namespace Reckon.Notation

open Reckon.Digits Reckon.Text Reckon.Expansion

/-! ## The grammar -/

/-- [+-] I? [. F? [(C)]] [(e|E) [+-] digits] [...] with a digit in front of the power, and a cycle or a mark but not
both. -/
structure Literal.IsGrammatical (l : Literal) : Prop where
  whole : IsDigits l.whole
  point : ∀ f ∈ l.point, f.WellFormed
  power : ∀ p ∈ l.power, IsDigits p.digits ∧ p.digits ≠ []
  nonempty : l.whole ≠ [] ∨ l.fraction ≠ []
  exact : l.cycle? = none ∨ l.approximate = false

/-- The decimal that a literal without a cycle spells. -/
def Literal.decimal (l : Literal) : Decimal :=
  ⟨l.negative, toNat (l.whole ++ l.fraction), l.exponent - l.fraction.length⟩

/-- The text is a special word behind a sign or a literal of the grammar. -/
inductive IsRealText (cs : List Char) : Prop
  | special {x : Real} (h : IsSpecial cs x)
  | literal {l : Literal} (hl : l.IsGrammatical) (h : cs = l.text)

/-- If a power of ten stands behind the digits of the text, its digits are read and it may follow a cycle. -/
def PowerWithin (cs : List Char) : Prop :=
  ∀ (l : Literal) (p : Power) (rest : List Char), l.WellFormed → l.power = none → IsDigits p.digits → EndsDigits rest →
    cs = l.unmarked ++ (p.text ++ rest) → p.digits.length ≤ Failure.digitLimit ∧ p.value.natAbs ≤ maxCycleExponent

theorem natAbs_signed (negative : Bool) (n : Nat) : (signed negative n).natAbs = n := by
  cases negative
  · exact Int.natAbs_natCast n
  · exact (Int.natAbs_neg n).trans (Int.natAbs_natCast n)

/-- With few digits a power is within the limits. -/
theorem powerWithin_of_countP_le {cs : List Char} (h : cs.countP isAsciiDigit ≤ 4) : PowerWithin cs := by
  rintro l p rest - - hdigits - rfl
  have hlen : p.digits.length ≤ 4 := by
    rw [← List.countP_eq_length.2 hdigits]
    refine le_trans ?_ h
    simp only [Power.text, List.countP_append, List.countP_cons]
    omega
  have hvalue : p.value.natAbs < 10 ^ p.digits.length := by
    rw [Power.value, natAbs_signed]
    exact toNat_lt hdigits
  exact ⟨hlen.trans (by decide), hvalue.le.trans (Nat.pow_le_pow_right (by decide) hlen)⟩

theorem HasLongPower.not_powerWithin {cs : List Char} (h : HasLongPower cs) : ¬ PowerWithin cs := by
  obtain ⟨l, p, rest, hl, hpower, hlong, hrest, hcs⟩ := h
  intro hwithin
  have hsplit := splitMark_spec cs
  rw [hcs, List.append_assoc, List.append_assoc] at hsplit
  exact absurd (hwithin l p _ hl hpower hlong.1 (hrest.append (endsDigits_mark _)) hsplit).1 (not_le.2 hlong.2)

namespace Literal

variable {l : Literal}

/-- The reader takes the literals of the grammar whose powers are within the limits. -/
theorem IsGrammatical.wellFormed (h : l.IsGrammatical) (hwithin : PowerWithin l.text) :
    l.WellFormed ∧ l.exponent.natAbs ≤ maxCycleExponent := by
  have hnone : ∀ p ∈ (none : Option Power), p.WellFormed := fun _ h => absurd h (Option.not_mem_none _)
  rcases hp : l.power with _ | p
  · refine ⟨⟨h.whole, h.point, ?_, h.nonempty⟩, by rw [exponent, hp]; exact Nat.zero_le _⟩
    rw [hp]
    exact hnone
  · obtain ⟨hdigits, hne⟩ := h.power p hp
    have htext : l.text =
        unmarked { l with power := none } ++ (p.text ++ if l.approximate then approximationMark else []) := by
      simp [text, unmarked, body, hp]
    obtain ⟨hlimit, hvalue⟩ := hwithin { l with power := none } p _ ⟨h.whole, h.point, hnone, h.nonempty⟩ rfl hdigits
      (endsDigits_mark _) htext
    refine ⟨⟨h.whole, h.point, ?_, h.nonempty⟩, by rw [exponent, hp]; exact hvalue⟩
    rw [hp]
    rintro _ ⟨⟩
    exact ⟨hdigits, hne, hlimit⟩

theorem WellFormed.isGrammatical (h : l.WellFormed) (hexact : l.cycle? = none ∨ l.approximate = false) :
    l.IsGrammatical :=
  ⟨h.whole, h.point, fun p hp => ⟨(h.power p hp).digits, (h.power p hp).nonempty⟩, h.nonempty, hexact⟩

end Literal

/-! ## Reading a literal of the grammar -/

/-- A text outside the grammar is malformed. -/
theorem exists_malformed {text : String} (hwithin : PowerWithin (trim text.toList)) (h : ¬ IsRealText (trim text.toList)) :
    ∃ e, readReal text = .error (.malformed e) := by
  rcases readReal_spec text with ⟨x, hx⟩ | hmalformed | ⟨hlong, -⟩ | ⟨l, hl, hcs, hread⟩
  · exact absurd (.special hx) h
  · exact hmalformed
  · exact absurd hwithin hlong.not_powerWithin
  · rcases l.exact_or_malformed with hexact | hmalformed
    · exact absurd (.literal (hl.isGrammatical hexact) hcs) h
    · rwa [hread]

namespace Literal

variable {l : Literal} {cycle : List Char}

theorem WellFormed.readReal_eq_ofStored (h : l.WellFormed) (hcycle : l.cycle? = none) {text : String}
    (htext : trim text.toList = l.text) :
    readReal text = ofStored l.approximate l.decimal := by
  rw [readReal_of_trim h htext, hcycle, realOfParts_none, decimal]

theorem WellFormed.readReal_eq_ofRat (h : l.WellFormed) (hcycle : l.cycle? = some cycle) (hexact : l.approximate = false)
    (hexponent : l.exponent.natAbs ≤ maxCycleExponent) {text : String} (htext : trim text.toList = l.text) :
    readReal text = Real.ofRat (value l.negative (toNat l.whole) l.fraction cycle * 10 ^ l.exponent) := by
  rw [readReal_of_trim h htext, hcycle, hexact, realOfParts_cycle _ _ _ _ _ hexponent]

theorem WellFormed.isDigits_fraction (h : l.WellFormed) : IsDigits l.fraction := by
  rcases hp : l.point with _ | f
  · rw [fraction, hp]
    exact fun _ hc => absurd hc List.not_mem_nil
  · rw [fraction, hp]
    exact (h.point f hp).digits

theorem WellFormed.digits_of_cycle (h : l.WellFormed) (hcycle : l.cycle? = some cycle) :
    IsDigits l.fraction ∧ IsDigits cycle ∧ cycle ≠ [] := by
  obtain ⟨f, hf, hfc⟩ := Option.bind_eq_some_iff.1 hcycle
  exact ⟨h.isDigits_fraction, (h.point f hf).cycle cycle hfc⟩

/-! ### Range -/

/-- A power of ten moves the bound of a size by its exponent at most. -/
theorem abs_mul_zpow_le {q : ℚ} {a : Nat} (h : |q| ≤ 10 ^ a) (e : ℤ) : |q * 10 ^ e| ≤ 10 ^ (a + e.natAbs) := by
  have hpow : (10 : ℚ) ^ e ≤ 10 ^ e.natAbs := by
    rw [← zpow_natCast]
    exact zpow_le_zpow_right₀ (by norm_num) (Int.le_natAbs)
  rw [abs_mul, abs_of_pos (show (0 : ℚ) < 10 ^ e by positivity), pow_add]
  exact mul_le_mul h hpow (by positivity) (by positivity)

theorem exists_units_mul_zpow {q : ℚ} {b : Nat} {n : ℤ} (h : q * 10 ^ b = n) (e : ℤ) :
    ∃ m : ℤ, q * 10 ^ e * 10 ^ (b + e.natAbs) = m := by
  refine ⟨n * 10 ^ (e + e.natAbs).toNat, ?_⟩
  have hcast : ((e + e.natAbs).toNat : ℤ) = e + e.natAbs := Int.toNat_of_nonneg (by omega)
  have hpow : (10 : ℚ) ^ (e + e.natAbs).toNat = 10 ^ e * 10 ^ e.natAbs := by
    rw [← zpow_natCast, hcast, zpow_add₀ (by norm_num), zpow_natCast]
  rw [Int.cast_mul, ← h, Int.cast_pow, Int.cast_ofNat, hpow, pow_add]
  ring

theorem terminates_of_mul_zpow {q : ℚ} {e : ℤ} (h : Terminates (q * 10 ^ e)) : Terminates q := by
  obtain ⟨k, n, hn⟩ := h
  obtain ⟨m, hm⟩ := exists_units_mul_zpow hn (-e)
  refine ⟨k + (-e).natAbs, m, ?_⟩
  rw [← hm, zpow_neg, mul_assoc q, mul_inv_cancel₀ (zpow_ne_zero e (by norm_num)), mul_one]

theorem length_digits_le (l : Literal) : l.whole.length + l.fraction.length ≤ l.text.length := by
  have hpoint : l.fraction.length ≤ ((l.point.map Fraction.text).getD []).length := by
    rcases hp : l.point with _ | f
    · rw [fraction, hp]
      exact le_rfl
    · rw [fraction, hp]
      simp only [Option.map_some, Option.getD_some, Fraction.text, List.length_cons, List.length_append]
      omega
  simp only [text, unmarked, body, List.length_append]
  omega

/-- Decimals of texts that exponents can count are in range. -/
theorem WellFormed.inRange (h : l.WellFormed) (hexponent : l.exponent.natAbs ≤ maxCycleExponent)
    (hlength : l.text.length + maxCycleExponent < 10 ^ 18) : l.decimal.inRange = true := by
  have hdigits := l.length_digits_le
  have hsize : |(toNat (l.whole ++ l.fraction) : ℚ) * Decimal.tenPow (-(l.fraction.length : ℤ))| ≤ 10 ^ l.whole.length := by
    have hlt := toNat_lt (h.whole.append h.isDigits_fraction)
    rw [List.length_append, pow_add] at hlt
    rw [Decimal.tenPow_neg_natCast, abs_of_nonneg (by positivity), mul_inv_le_iff₀ (by positivity)]
    exact_mod_cast hlt.le
  refine Decimal.inRange_of_le (a := l.whole.length + l.exponent.natAbs) (b := l.fraction.length + l.exponent.natAbs)
    ?_ (by simp only [decimal, Nat.cast_add]; omega) (by simp only [decimal, Nat.cast_add]; omega) (by omega) (by omega)
  have htoRat : (toNat (l.whole ++ l.fraction) : ℚ) * Decimal.tenPow (l.exponent - l.fraction.length) =
      toNat (l.whole ++ l.fraction) * Decimal.tenPow (-(l.fraction.length : ℤ)) * 10 ^ l.exponent := by
    rw [sub_eq_neg_add, Decimal.tenPow_add, ← mul_assoc]
    rfl
  rw [Decimal.abs_toRat, decimal, htoRat]
  exact (le_abs_self _).trans (abs_mul_zpow_le hsize _)

/-- Repeating values of texts that exponents can count are stored. -/
theorem WellFormed.exists_ofRat_eq_ok (h : l.WellFormed) (hcycle : l.cycle? = some cycle)
    (hexponent : l.exponent.natAbs ≤ maxCycleExponent) (hlength : l.text.length + maxCycleExponent < 10 ^ 18) :
    ∃ x, Real.ofRat (value l.negative (toNat l.whole) l.fraction cycle * 10 ^ l.exponent) = .ok x := by
  obtain ⟨hfraction, hdigits, hne⟩ := h.digits_of_cycle hcycle
  have hlen := l.length_digits_le
  refine Real.exists_ofRat_eq_ok (a := l.whole.length + l.exponent.natAbs) (b := l.fraction.length + l.exponent.natAbs)
    (abs_mul_zpow_le (abs_value_le hne h.whole hfraction hdigits _) _) ?_ (by omega) (by omega)
  intro hterm
  obtain ⟨n, hn⟩ := exists_units_of_terminates hne _ _ (terminates_of_mul_zpow hterm)
  exact exists_units_mul_zpow hn _

end Literal

/-! ## The language of the reader -/

/-- With a power of ten within the limits the reader takes exactly the texts of the grammar, and all others are
malformed. A special word is its value. Without a cycle a literal is the decimal of its digits with the written sign,
an approximation exactly if it is marked, and with one it is the number stored for the rational that its digits
approach, times the power of ten. Beyond that a text is only refused if it is longer than exponents can count, since
its decimal is out of range. -/
theorem readReal_grammar {text : String} (hwithin : PowerWithin (trim text.toList)) :
    (¬ IsRealText (trim text.toList) → ∃ e, readReal text = .error (.malformed e)) ∧
    (∀ x, IsSpecial (trim text.toList) x → readReal text = .ok x) ∧
    (∀ l : Literal, l.IsGrammatical → trim text.toList = l.text → l.cycle? = none →
      (l.decimal.inRange = true → readReal text = .ok (if l.approximate then .irrational l.decimal else .big l.decimal)) ∧
      (l.decimal.inRange = false → readReal text = .error .decimalRange)) ∧
    (∀ (l : Literal) (cycle : List Char), l.IsGrammatical → trim text.toList = l.text → l.cycle? = some cycle →
      ∃ q : ℚ, (∀ x, Denotes l.negative l.whole l.fraction cycle x ↔ x = q) ∧
        readReal text = Real.ofRat (q * 10 ^ l.exponent)) ∧
    ((trim text.toList).length + maxCycleExponent < 10 ^ 18 →
      ((∃ x, readReal text = .ok x) ↔ IsRealText (trim text.toList)) ∧
      ∀ l : Literal, l.IsGrammatical → trim text.toList = l.text → l.decimal.inRange = true) := by
  have hread : ∀ {l : Literal}, l.IsGrammatical → trim text.toList = l.text →
      l.WellFormed ∧ l.exponent.natAbs ≤ maxCycleExponent := fun hl htext => hl.wellFormed (htext ▸ hwithin)
  have hexact : ∀ {l : Literal} {cycle : List Char}, l.IsGrammatical → l.cycle? = some cycle → l.approximate = false :=
    fun hl hcycle => hl.exact.resolve_left (by rw [hcycle]; exact Option.some_ne_none _)
  refine ⟨exists_malformed hwithin, fun x => readReal_of_isSpecial, fun l hl htext hcycle => ?_,
    fun l cycle hl htext hcycle => ?_, fun hlength => ⟨⟨?_, ?_⟩, fun l hl htext => ?_⟩⟩
  · rw [(hread hl htext).1.readReal_eq_ofStored hcycle htext]
    exact ⟨ofStored_of_inRange _, ofStored_of_not_inRange _⟩
  · obtain ⟨hwf, hexponent⟩ := hread hl htext
    obtain ⟨hfraction, hdigits, hne⟩ := hwf.digits_of_cycle hcycle
    exact ⟨_, fun x => denotes_iff hne hfraction hdigits, hwf.readReal_eq_ofRat hcycle (hexact hl hcycle) hexponent htext⟩
  · rintro ⟨x, hx⟩
    by_contra hnot
    obtain ⟨e, he⟩ := exists_malformed hwithin hnot
    rw [hx] at he
    cases he
  · rintro (hspecial | ⟨hl, htext⟩)
    · exact ⟨_, readReal_of_isSpecial hspecial⟩
    · rename_i l
      obtain ⟨hwf, hexponent⟩ := hread hl htext
      rcases hcycle : l.cycle? with _ | cycle
      · rw [hwf.readReal_eq_ofStored hcycle htext, ofStored_of_inRange _ (hwf.inRange hexponent (htext ▸ hlength))]
        exact ⟨_, rfl⟩
      · rw [hwf.readReal_eq_ofRat hcycle (hexact hl hcycle) hexponent htext]
        exact hwf.exists_ofRat_eq_ok hcycle hexponent (htext ▸ hlength)
  · obtain ⟨hwf, hexponent⟩ := hread hl htext
    exact hwf.inRange hexponent (htext ▸ hlength)

/-- Ten thirds, and a text that goes on behind its power of ten. -/
theorem readReal_grammar_ten_thirds :
    PowerWithin ['.', '0', '(', '3', ')', 'e', '2'] ∧ readReal ".0(3)e2" = .ok (.recurring ⟨false, 33333, -4⟩) ∧
    (∃ q : ℚ, (∀ x, Denotes false [] ['0'] ['3'] x ↔ x = q) ∧ readReal ".0(3)e2" = Real.ofRat (q * 10 ^ (2 : ℤ))) ∧
    PowerWithin ['1', 'e', '2', '.', '0'] ∧ ¬ IsRealText ['1', 'e', '2', '.', '0'] ∧
    ∃ e, readReal "1e2.0" = .error (.malformed e) := by
  have hthirds : PowerWithin ['.', '0', '(', '3', ')', 'e', '2'] := powerWithin_of_countP_le (by decide)
  have htrailing : PowerWithin ['1', 'e', '2', '.', '0'] := powerWithin_of_countP_le (by decide)
  have hgrammatical : Literal.IsGrammatical ⟨none, [], some ⟨['0'], some ['3']⟩, some ⟨false, none, ['2']⟩, false⟩ := by
    refine ⟨nofun, ?_, ?_, .inr (List.cons_ne_nil _ _), .inr rfl⟩
    · rintro _ ⟨⟩
      refine ⟨isDigits_of_all rfl, ?_⟩
      rintro _ ⟨⟩
      exact ⟨isDigits_of_all rfl, List.cons_ne_nil _ _⟩
    · rintro _ ⟨⟩
      exact ⟨isDigits_of_all rfl, List.cons_ne_nil _ _⟩
  have hrefused : ¬ IsRealText ['1', 'e', '2', '.', '0'] := by
    intro h
    obtain ⟨x, hx⟩ := ((@readReal_grammar "1e2.0" htrailing).2.2.2.2 (by decide)).1.2 h
    have herror : ∃ e, readReal "1e2.0" = .error e := ⟨_, by with_unfolding_all rfl⟩
    obtain ⟨e, he⟩ := herror
    rw [hx] at he
    cases he
  exact ⟨hthirds, by decide +kernel, (@readReal_grammar ".0(3)e2" hthirds).2.2.2.1 _ _ hgrammatical rfl rfl,
    htrailing, hrefused, (@readReal_grammar "1e2.0" htrailing).1 hrefused⟩

end Reckon.Notation
