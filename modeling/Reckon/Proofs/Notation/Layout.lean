/-
When two stored forms of one number are written alike. Only zeros behind the point are dropped before
a decimal is written; zeros that a whole number stores before the point stay digits. They do not show
where the rest is padded with zeros, and they do show behind the first digit of a power of ten. So
the canonical texts of equal decimals agree as long as both are padded or both store as many zeros,
and lists of such decimals have one digest.
-/
import Reckon.Archive.Store
import Reckon.Proofs.Notation.Positional
import Reckon.Proofs.Real.Equality

namespace Reckon.Notation

open Reckon.Decimal

/-! ## Stored forms of one number -/

section

variable {a b : Decimal}

/-- Of two forms of one number the one with the lower exponent has more zeros. -/
theorem exists_zeros (h : a.toRat = b.toRat) (hne : a.toRat ≠ 0) (hle : a.exponent ≤ b.exponent) :
    a.negative = b.negative ∧ ∃ k : Nat, b.exponent = a.exponent + k ∧ a.coefficient = b.coefficient * 10 ^ k := by
  have hsign : a.negative = b.negative := by
    rw [← decide_lt_zero_eq a.toRat_eq_sign_mul_abs (abs_pos.2 hne),
      ← decide_lt_zero_eq b.toRat_eq_sign_mul_abs (abs_pos.2 (h ▸ hne)), h]
  obtain ⟨k, hk⟩ := Int.le.dest hle
  have habs : |a.toRat| = |b.toRat| := by rw [h]
  rw [abs_toRat, abs_toRat, ← hk, tenPow_add, tenPow_natCast, mul_comm (tenPow _), ← mul_assoc] at habs
  refine ⟨hsign, k, hk.symm, ?_⟩
  exact_mod_cast mul_right_cancel₀ (tenPow_ne_zero _) habs

/-- Two stripped forms of one number differ only by zeros before the point. -/
theorem strip_zeros (h : a.toRat = b.toRat) (hne : a.toRat ≠ 0) (hle : a.strip.exponent ≤ b.strip.exponent) :
    a.strip.negative = b.strip.negative ∧ ∃ k : Nat, b.strip.exponent = a.strip.exponent + k ∧
      a.strip.coefficient = b.strip.coefficient * 10 ^ k ∧ (0 < k → 0 ≤ a.strip.exponent) := by
  rw [← toRat_strip a, ← toRat_strip b] at h
  obtain ⟨hsign, k, hexp, hcoef⟩ := exists_zeros h (by rwa [toRat_strip]) hle
  refine ⟨hsign, k, hexp, hcoef, fun hk => ?_⟩
  by_contra hneg
  refine strip_not_ten_dvd (d := a) (by omega) ?_
  rw [hcoef]
  exact (dvd_pow_self 10 hk.ne').mul_left _

end

/-! ## Layouts of one number -/

section

variable {c k : Nat} {e : ℤ}

theorem magnitudeText_near {ds : List Char} (he : 0 ≤ e) (hfew : e ≤ maxPadding) :
    magnitudeText ds e false = String.ofList (ds ++ List.replicate e.natAbs '0') := by
  unfold magnitudeText
  simp only
  rw [if_pos he, if_neg (by omega), if_neg Bool.false_ne_true, String.append_empty]

theorem magnitudeText_far {ds : List Char} (hfar : maxPadding < e) :
    magnitudeText ds e false = scientific ds (e + (ds.length - 1 : Nat)) false := by
  unfold magnitudeText
  simp only
  rw [if_pos (by omega), if_pos (by omega)]

/-- Stored zeros and padding are written alike. -/
theorem magnitudeText_padded (hc : 0 < c) (he : 0 ≤ e) (hfew : e + k ≤ maxPadding) :
    magnitudeText (Digits.ofNat (c * 10 ^ k)) e false = magnitudeText (Digits.ofNat c) (e + k) false := by
  rw [magnitudeText_near he (by omega), magnitudeText_near (by omega) hfew, Digits.ofNat_mul_pow hc, List.append_assoc,
    List.replicate_append_replicate, show k + e.natAbs = (e + k).natAbs by omega]

/-- A padded number has no power. -/
theorem e_notMem_padded {ds : List Char} (hd : IsDigits ds) (he : 0 ≤ e) (hfew : e ≤ maxPadding) :
    'e' ∉ (magnitudeText ds e false).toList := by
  rw [magnitudeText_near he hfew, String.toList_ofList]
  intro hmem
  exact absurd (hd.append (isDigits_replicate_zero _) 'e' hmem) (by decide)

theorem e_mem_scientific (ds : List Char) (power : ℤ) : 'e' ∈ (scientific ds power false).toList := by
  simp [scientific]

/-- With one power more digits are a longer text. -/
theorem length_scientific_lt {ds ds' : List Char} (hne : ds ≠ []) (hlt : ds.length < ds'.length) (power : ℤ) :
    (scientific ds power false).length < (scientific ds' power false).length := by
  rcases ds' with _ | ⟨d', _ | ⟨d₁', rest'⟩⟩
  · exact absurd hlt (Nat.not_lt_zero _)
  · exact absurd (List.length_eq_zero_iff.1 (Nat.lt_one_iff.1 hlt)) hne
  rcases ds with _ | ⟨d, _ | ⟨d₁, rest⟩⟩
  · exact absurd rfl hne
  · simp [scientific]
  · simpa [scientific] using hlt

/-- Stored zeros show where a power is written. -/
theorem magnitudeText_ne (hc : 0 < c) (hk : 0 < k) (he : 0 ≤ e) (hfar : maxPadding < e + k) :
    magnitudeText (Digits.ofNat (c * 10 ^ k)) e false ≠ magnitudeText (Digits.ofNat c) (e + k) false := by
  intro htext
  rw [magnitudeText_far hfar] at htext
  rcases le_or_gt e maxPadding with hfew | hmany
  · refine e_notMem_padded (isDigits_ofNat _) he hfew (htext ▸ e_mem_scientific _ _)
  · rw [magnitudeText_far hmany] at htext
    have hlen : (Digits.ofNat (c * 10 ^ k)).length = (Digits.ofNat c).length + k := by
      rw [Digits.ofNat_mul_pow hc, List.length_append, List.length_replicate]
    have hpos := List.length_pos_iff.2 (Digits.ofNat_ne_nil c)
    rw [show e + ((Digits.ofNat (c * 10 ^ k)).length - 1 : Nat) = e + k + ((Digits.ofNat c).length - 1 : Nat) by omega] at htext
    have := length_scientific_lt (Digits.ofNat_ne_nil c) (show _ < (Digits.ofNat (c * 10 ^ k)).length by omega)
      (e + k + ((Digits.ofNat c).length - 1 : Nat))
    rw [htext] at this
    omega

end

/-! ## Canonical texts -/

/-- Two decimals store as many zeros before the point, or both are padded with the rest of them. -/
def SameLayout (a b : Decimal) : Prop :=
  a.strip.exponent = b.strip.exponent ∨ a.strip.exponent ≤ maxPadding ∧ b.strip.exponent ≤ maxPadding

instance (a b : Decimal) : Decidable (SameLayout a b) := inferInstanceAs (Decidable (_ ∨ _))

theorem SameLayout.symm {a b : Decimal} (h : SameLayout a b) : SameLayout b a := h.imp Eq.symm And.symm

section

variable {a b : Decimal}

theorem positional_eq_iff_of_le (h : a.toRat = b.toRat) (hle : a.strip.exponent ≤ b.strip.exponent) :
    positional a false = positional b false ↔ SameLayout a b := by
  rw [positional_eq, positional_eq, unsignedText, unsignedText, isZero_strip, isZero_strip]
  by_cases hzero : a.toRat = 0
  · have ha := (toRat_eq_zero_iff a).1 hzero
    have hb := (toRat_eq_zero_iff b).1 (h ▸ hzero)
    have hstrip : a.strip.exponent = b.strip.exponent := by
      rw [strip_of_zero ha, strip_of_zero hb]
      rfl
    rw [(isZero_iff a).2 ha, (isZero_iff b).2 hb, if_pos rfl, if_pos rfl, Bool.not_true, Bool.and_false, Bool.and_false]
    exact iff_of_true rfl (.inl hstrip)
  · obtain ⟨hsign, k, hexp, hcoef, hwhole⟩ := strip_zeros h hzero hle
    rw [strip_negative, strip_negative] at hsign
    have ha : a.isZero = false := by rwa [Bool.eq_false_iff, Ne, isZero_iff, ← toRat_eq_zero_iff]
    have hb : b.isZero = false := by rwa [Bool.eq_false_iff, Ne, isZero_iff, ← toRat_eq_zero_iff, ← h]
    have hpos : 0 < b.strip.coefficient := Nat.pos_of_ne_zero fun h0 => by
      rw [← isZero_strip, (isZero_iff _).2 h0] at hb
      cases hb
    rw [ha, hb, hsign, if_neg Bool.false_ne_true, if_neg Bool.false_ne_true, String.append_right_inj]
    unfold digits SameLayout
    rw [hcoef, hexp]
    -- zeros that one of them has before the point are all written, or a power stands for them
    rcases Nat.eq_zero_or_pos k with rfl | hk
    · simp
    · rcases le_or_gt (a.strip.exponent + k) maxPadding with hnear | hfar
      · exact iff_of_true (magnitudeText_padded hpos (hwhole hk) hnear) (.inr ⟨by omega, hnear⟩)
      · refine iff_of_false (magnitudeText_ne hpos hk (hwhole hk) hfar) ?_
        omega

/-- Equal decimals have the same text exactly if they have the same layout. -/
theorem positional_eq_iff (h : a.toRat = b.toRat) : positional a false = positional b false ↔ SameLayout a b := by
  rcases le_total a.strip.exponent b.strip.exponent with hle | hle
  · exact positional_eq_iff_of_le h hle
  · rw [eq_comm, positional_eq_iff_of_le h.symm hle]
    exact ⟨SameLayout.symm, SameLayout.symm⟩

end

/-! ## Equal numbers -/

/-- An exact decimal as a number. -/
def exact (d : Decimal) : Number := .ofReal (.big d)

theorem equals_exact_iff {a b : Decimal} : (exact a).equals (exact b) = .ok true ↔ a.toRat = b.toRat := by
  have heq : (exact a).equals (exact b) = .ok (a.toRat == b.toRat) := Real.equals_ofReal_of_exactRat? rfl rfl
  rw [heq, ← beq_iff_eq (a := a.toRat)]
  exact ⟨Except.ok.inj, congrArg Except.ok⟩

/-- The digest of exact decimals is one of their texts. -/
theorem digest_exact (ds : List Decimal) : Archive.digest (.list (ds.map fun d => .number (exact d))) =
    .ok (Digest.hex ((ds.map fun d => positional d false).flatMap fun t => (t ++ "\n").toUTF8.toList)) := by
  have htexts : (ds.map fun d => Archive.Entry.number (exact d)).mapM Archive.canonicalEntry =
      .ok (ds.map fun d => positional d false) := by
    induction ds with
    | nil => rfl
    | cons d ds ih =>
      rw [List.map_cons, List.mapM_cons, ih]
      rfl
  show (do
    let texts ← (ds.map fun d => Archive.Entry.number (exact d)).mapM Archive.canonicalEntry
    Except.ok (Digest.hex (texts.flatMap fun t => (t ++ "\n").toUTF8.toList))) = _
  rw [htexts]
  rfl

/-- Exact decimals that are equal one by one have the same canonical texts exactly where they have the
same layout, and one digest if all of them do. -/
theorem canonical_eq_iff_sameLayout {as bs : List Decimal}
    (h : List.Forall₂ (fun a b => (exact a).equals (exact b) = .ok true) as bs) :
    List.Forall₂ (fun a b => canonical (exact a) = canonical (exact b) ↔ SameLayout a b) as bs ∧
    (List.Forall₂ SameLayout as bs →
      ∃ hash, Archive.digest (.list (as.map fun d => .number (exact d))) = .ok hash ∧
        Archive.digest (.list (bs.map fun d => .number (exact d))) = .ok hash) := by
  have htext : ∀ a b, (exact a).equals (exact b) = .ok true →
      (canonical (exact a) = canonical (exact b) ↔ SameLayout a b) := by
    intro a b hab
    rw [← positional_eq_iff (equals_exact_iff.1 hab)]
    exact ⟨Except.ok.inj, congrArg Except.ok⟩
  refine ⟨h.imp htext, fun hlayout => ?_⟩
  have htexts : as.map (fun d => positional d false) = bs.map fun d => positional d false := by
    induction h with
    | nil => rfl
    | cons hab _ ih =>
      obtain ⟨hl, hlayout⟩ := List.forall₂_cons.1 hlayout
      rw [List.map_cons, List.map_cons, ih hlayout, (positional_eq_iff (equals_exact_iff.1 hab)).2 hl]
  exact ⟨_, digest_exact as, by rw [digest_exact, htexts]⟩

/-- Two and a half with and without a zero behind it, a hundred with and without its zeros. -/
theorem canonical_eq_iff_sameLayout_hundred :
    List.Forall₂ (fun a b => (exact a).equals (exact b) = .ok true) [⟨false, 250, -2⟩, ⟨false, 1, 2⟩]
      [⟨false, 25, -1⟩, ⟨false, 100, 0⟩] ∧
    canonical (exact ⟨false, 1, 2⟩) = canonical (exact ⟨false, 100, 0⟩) ∧
    ∃ hash, Archive.digest (.list ([⟨false, 250, -2⟩, ⟨false, 1, 2⟩].map fun d => .number (exact d))) = .ok hash ∧
      Archive.digest (.list ([⟨false, 25, -1⟩, ⟨false, 100, 0⟩].map fun d => .number (exact d))) = .ok hash := by
  have hhalf : (exact ⟨false, 250, -2⟩).equals (exact ⟨false, 25, -1⟩) = .ok true := by with_unfolding_all decide
  have hhundred : (exact ⟨false, 1, 2⟩).equals (exact ⟨false, 100, 0⟩) = .ok true := by with_unfolding_all decide
  have hlayout : SameLayout ⟨false, 1, 2⟩ ⟨false, 100, 0⟩ := .inr (by decide)
  have hequal : List.Forall₂ (fun a b => (exact a).equals (exact b) = .ok true) [⟨false, 250, -2⟩, ⟨false, 1, 2⟩]
      [⟨false, 25, -1⟩, ⟨false, 100, 0⟩] := .cons hhalf (.cons hhundred .nil)
  obtain ⟨htexts, hdigest⟩ := canonical_eq_iff_sameLayout hequal
  have htext := (List.forall₂_cons.1 (List.forall₂_cons.1 htexts).2).1
  exact ⟨hequal, htext.2 hlayout, hdigest (.cons (.inl (by decide +kernel)) (.cons hlayout .nil))⟩

/-- Ten to the fifty-second stored with a zero more: the texts differ, and the digests with them. -/
theorem canonical_differs : (exact ⟨false, 10, 51⟩).equals (exact ⟨false, 1, 52⟩) = .ok true ∧
    canonical (exact ⟨false, 10, 51⟩) = .ok "1.0e52" ∧ canonical (exact ⟨false, 1, 52⟩) = .ok "1e52" ∧
    Archive.digest (.list [.number (exact ⟨false, 10, 51⟩)]) ≠ Archive.digest (.list [.number (exact ⟨false, 1, 52⟩)]) := by
  refine ⟨?_, ?_, ?_, ?_⟩ <;> decide +kernel

end Reckon.Notation
