/-
Taking numbers apart and putting them together. A number without NaN comes back equal and of its
kind, where a native number comes back as an exact decimal: the zeros that its digits lose move into
the exponent, and a repeating value loses none. The other way round, parts in normal form come back
as they are, as long as a decimal can hold their digits and exponent.
-/
import Reckon.Parts
import Reckon.Proofs.Binary.Range
import Reckon.Proofs.Notation.Literal
import Reckon.Proofs.Number.Equality

namespace Reckon

open Reckon.Digits Reckon.Notation

/-! ## Decimals without trailing zeros -/

namespace Decimal

theorem normalize_eq_self {d : Decimal} (h : ¬ 10 ∣ d.coefficient) : d.normalize = d := by
  have hne : d.coefficient ≠ 0 := fun h0 => h (h0 ▸ dvd_zero 10)
  obtain ⟨k, hdvd, heq, -⟩ := normalize_spec hne
  rcases Nat.eq_zero_or_pos k with rfl | hk
  · rw [heq, dropZeros_zero]
  · exact absurd ((dvd_pow_self 10 hk.ne').trans hdvd) h

theorem normalize_negative (d : Decimal) : d.normalize.negative = d.negative := by
  unfold normalize
  split <;> rfl

theorem inRange_normalize {d : Decimal} (h : d.inRange = true) : d.normalize.inRange = true := by
  by_cases hz : d.coefficient = 0
  · rw [normalize_of_zero hz]
    cases d.negative <;> with_unfolding_all decide
  · obtain ⟨k, hdvd, heq, -⟩ := normalize_spec hz
    rw [inRange_iff] at h ⊢
    rw [heq, adjusted_dropZeros hdvd hz]
    exact ⟨h.1.trans (by simp only [dropZeros]; omega), h.2⟩

end Decimal

namespace Parts

/-! ## Digits -/

/-- The decimal whose digits and exponent are given. -/
def mantissa (p : Parts) : Decimal := ⟨p.negative, toNat p.digits.toList, p.exponent⟩

theorem decimalValue?_of_isAsciiDigit {c : Char} (h : Text.isAsciiDigit c = true) : Text.decimalValue? c = some (digitValue c) := by
  rw [Text.decimalValue?, if_pos h]
  rfl

theorem mapM_decimalValue? {ds : List Char} (h : IsDigits ds) : ds.mapM Text.decimalValue? = some (ds.map digitValue) := by
  induction ds with
  | nil => rfl
  | cons c cs ih =>
    rw [List.mapM_cons, decimalValue?_of_isAsciiDigit (h c List.mem_cons_self), ih fun x hx => h x (List.mem_cons_of_mem _ hx)]
    rfl

theorem toDecimal_eq {p : Parts} (h : IsDigits p.digits.toList) :
    p.toDecimal = Decimal.make p.negative (toNat p.digits.toList) p.exponent := by
  have hfold : ∀ ds : List Char, (ds.map digitValue).foldl (fun n d => n * 10 + d) 0 = toNat ds := fun ds => by
    rw [List.foldl_map]
    rfl
  unfold toDecimal
  by_cases hempty : p.digits.isEmpty = true
  · obtain hdigits : p.digits = "" := String.isEmpty_iff.1 hempty
    rw [if_pos hempty, hdigits]
    rfl
  · rw [if_neg hempty]
    simp only [mapM_decimalValue? h, hfold]

/-- Digits without a leading zero are the written ones of their number. -/
theorem ofNat_toNat {c : Char} {cs : List Char} (h : IsDigits (c :: cs)) (hc : c ≠ '0') :
    ofNat (toNat (c :: cs)) = c :: cs := by
  have hcs : ∀ x ∈ cs, Text.isAsciiDigit x = true := fun x hx => h x (List.mem_cons_of_mem _ hx)
  have hdigit := h c List.mem_cons_self
  have hpos : 0 < digitValue c := Nat.pos_of_ne_zero fun h0 => hc (by rw [← digitChar_digitValue hdigit, h0]; rfl)
  have hwidth : width (toNat (c :: cs)) = cs.length + 1 := by
    refine le_antisymm (width_le (Nat.succ_pos _) (toNat_lt h)) ?_
    have hle : 10 ^ cs.length ≤ toNat (c :: cs) := by
      rw [toNat_cons]
      exact (Nat.le_mul_of_pos_left _ hpos).trans (Nat.le_add_right _ _)
    exact (Nat.pow_lt_pow_iff_right (show 1 < 10 by decide)).1 (hle.trans_lt (lt_pow_width _))
  have hpadded := padded_toNat_add (c :: cs) h 0
  rwa [Nat.zero_mul, Nat.zero_add, List.length_cons, ← hwidth] at hpadded

theorem not_ten_dvd_toNat {c : Char} {cs : List Char} (hc : Text.isAsciiDigit c = true) (hne : c ≠ '0') :
    ¬ 10 ∣ toNat (cs ++ [c]) := by
  have hlt := digitValue_lt hc
  have hpos : digitValue c ≠ 0 := fun h0 => hne (by rw [← digitChar_digitValue hc, h0]; rfl)
  rw [toNat_append, toNat_cons, toNat_nil, List.length_nil, List.length_singleton]
  omega

/-! ## Real numbers -/

/-- What parts of a kind keep of a decimal. -/
def kept (kind : PartsKind) (d : Decimal) : Decimal :=
  if d.isZero then .signedZero d.negative else if kind = .recurring then d else d.normalize

section

variable {d : Decimal}

theorem ofDecimal_eq (d : Decimal) (kind : PartsKind) : ofDecimal d kind =
    ⟨String.ofList (kept kind d).digits, (kept kind d).exponent, (kept kind d).negative, kind, .finite⟩ := by
  unfold ofDecimal kept
  split
  · have hzero : ofNat 0 = ['0'] := ofNat_of_lt (by decide)
    show _ = Parts.mk (String.ofList (ofNat 0)) _ _ _ _
    rw [hzero]
    rfl
  split
  · rfl
  · rw [d.normalize_negative]

theorem toRat_kept (kind : PartsKind) (d : Decimal) : (kept kind d).toRat = d.toRat := by
  unfold kept
  split
  · rename_i hz
    rw [(Decimal.toRat_eq_zero_iff d).2 ((Decimal.isZero_iff d).1 hz)]
    rfl
  split
  · rfl
  · exact d.toRat_normalize

theorem inRange_kept (kind : PartsKind) (h : d.inRange = true) : (kept kind d).inRange = true := by
  unfold kept
  split
  · cases d.negative <;> with_unfolding_all decide
  split
  · exact h
  · exact Decimal.inRange_normalize h

/-- The digits of a decimal denote it. -/
theorem toDecimal_of_digits {p : Parts} (hdigits : p.digits = String.ofList d.digits) (hnegative : p.negative = d.negative)
    (hexponent : p.exponent = d.exponent) (h : d.inRange = true) : p.toDecimal = .ok d := by
  have hlist : p.digits.toList = ofNat d.coefficient := by rw [hdigits, String.toList_ofList]; rfl
  rw [toDecimal_eq (hlist ▸ isDigits_ofNat _), hlist, toNat_ofNat, Decimal.make_eq_ok_iff, hnegative, hexponent]
  exact ⟨rfl, h⟩

end

/-- The number that is put together from the parts of a real one. -/
def rebuilt : Real → Real
  | .small _ b => .big (kept .finite b.toDecimal)
  | .big d => .big (kept .finite d)
  | .irrational d => .irrational (kept .irrational d)
  | .recurring d => .recurring (kept .recurring d)
  | x => x

end Parts

/-- A decimal that a real number stores is in range. -/
def Real.IsStored : Real → Prop
  | .big d | .irrational d | .recurring d => d.inRange = true
  | .small .. | .infinite _ | .nan => True

theorem Real.IsStored.inRange {x : Real} {d : Decimal} (h : x.IsStored) (hd : x.decimal? = some d) : d.inRange = true := by
  cases x with
  | small f b =>
    obtain rfl := Option.some.inj hd
    exact b.toDecimal_bounds.1
  | infinite | nan => cases hd
  | _ =>
    obtain rfl := Option.some.inj hd
    exact h

/-- The kind of a number whose digits are stored as a decimal. -/
def Kind.widened : Kind → Kind
  | small => big
  | k => k

namespace Parts

section

variable {x : Real}

theorem kind_rebuilt (x : Real) : (rebuilt x).kind = x.kind.widened := by
  cases x with
  | infinite s => cases s <;> rfl
  | _ => rfl

theorem isNaN_rebuilt (x : Real) : (rebuilt x).isNaN = x.isNaN := by cases x <;> rfl

theorem isZero_rebuilt (x : Real) : (rebuilt x).isZero = x.isZero := by
  have hkept : ∀ kind d, (kept kind d).isZero = d.isZero := fun kind d => by
    rw [Bool.eq_iff_iff, Decimal.isZero_iff, Decimal.isZero_iff, ← Decimal.toRat_eq_zero_iff, ← Decimal.toRat_eq_zero_iff,
      toRat_kept]
  cases x with
  | small f b => exact hkept _ _
  | big d | irrational d | recurring d => exact hkept _ _
  | infinite | nan => rfl

/-- A number put together again lies where it did. -/
theorem place?_rebuilt (h : x.isNaN = false) : (rebuilt x).place? = x.place? := by
  cases hz : x.isZero with
  | true =>
    rw [(Real.isZero_iff_place? h).1 hz, (Real.isZero_iff_place? ((isNaN_rebuilt x).trans h)).1 ((isZero_rebuilt x).trans hz)]
  | false =>
    cases x with
    | small f b => exact congrArg (fun q : ℚ => some (ExtendedRat.finite q)) (toRat_kept .finite b.toDecimal)
    | big d => exact congrArg (fun q : ℚ => some (ExtendedRat.finite q)) (toRat_kept .finite d)
    | irrational d => exact congrArg (fun q : ℚ => some (ExtendedRat.finite q)) (toRat_kept .irrational d)
    | recurring d =>
      have hkept : kept .recurring d = d := by
        rw [kept, if_neg (by rw [show d.isZero = false from hz]; decide), if_pos rfl]
      rw [rebuilt, hkept]
    | infinite | nan => rfl

/-- The parts of a real number, also as those of a coefficient, denote the rebuilt one. -/
theorem exists_toDecimal (h : x.IsStored) : ∃ d, (ofReal x).toDecimal = .ok d ∧
    ∀ coefficient, ofKind (kindOfReal x) d coefficient = .ok (.real (rebuilt x)) := by
  have hdecimal : ∀ d kind, x.decimal? = some d → (ofDecimal d kind).toDecimal = .ok (kept kind d) := by
    intro d kind hd
    rw [ofDecimal_eq]
    exact toDecimal_of_digits rfl rfl rfl (inRange_kept kind (h.inRange hd))
  -- a special value has no digits, which count as zero
  have hspecial : ∀ negative kind, (Parts.mk "" 0 negative kind .finite).toDecimal = .ok (.signedZero negative) := by
    intro negative kind
    rw [toDecimal_eq (by simp [IsDigits]), Decimal.make_eq_ok_iff]
    exact ⟨rfl, by cases negative <;> with_unfolding_all decide⟩
  cases x with
  | small f b => exact ⟨_, hdecimal _ .finite rfl, fun _ => rfl⟩
  | big d => exact ⟨_, hdecimal _ .finite rfl, fun _ => rfl⟩
  | irrational d => exact ⟨_, hdecimal _ .irrational rfl, fun _ => rfl⟩
  | recurring d => exact ⟨_, hdecimal _ .recurring rfl, fun _ => rfl⟩
  | infinite s => cases s <;> exact ⟨_, hspecial _ _, fun _ => rfl⟩
  | nan => exact ⟨_, hspecial _ _, fun _ => rfl⟩

theorem kind_ofReal (x : Real) : (ofReal x).kind = kindOfReal x := by
  have hdecimal : ∀ d kind, (ofDecimal d kind).kind = kind := fun d kind => by rw [ofDecimal_eq]
  cases x with
  | infinite | nan => rfl
  | _ => exact hdecimal _ _

theorem toScalar_ofReal (h : x.IsStored) : (ofReal x).toScalar = .ok (.real (rebuilt x)) := by
  obtain ⟨d, hd, hkind⟩ := exists_toDecimal h
  unfold toScalar
  rw [kind_ofReal, hd]
  cases x with
  | infinite s => cases s <;> rfl
  | nan => rfl
  | _ => exact hkind (.ok (.real (.big d)))

end

/-! ## Numbers -/

/-- A number that was put together again: equal and of the same kind, where a native number is
stored as a decimal; so is the coefficient of the imaginary unit. -/
structure IsRebuilt (z' z : Scalar) : Prop where
  equals : Number.equals (.scalar z') (.scalar z) = .ok true
  kind_eq : z'.kind = z.kind.widened
  imaginary_kind_eq : z'.parts.2.kind = z.parts.2.kind.widened

theorem isRebuilt_real {x : Real} (h : x.isNaN = false) : IsRebuilt (.real (rebuilt x)) (.real x) where
  equals := by
    have hz : Number.hasNaN (.scalar (.real x)) = false := h
    have hz' : Number.hasNaN (.scalar (.real (rebuilt x))) = false := (isNaN_rebuilt x).trans h
    exact (Number.equals_eq_ok_true_iff hz' hz).2 ((Number.point?_eq_iff hz' hz).2 ⟨place?_rebuilt h, rfl⟩)
  kind_eq := kind_rebuilt x
  imaginary_kind_eq := rfl

theorem isRebuilt_complex {x re im : Real} (hre : re.isNaN = false) (him : im.isNaN = false)
    (hx : x.place? = re.place?) (hxn : x.isNaN = false) : IsRebuilt (.complex x (rebuilt im)) (.complex re im) where
  equals := by
    have hz : Number.hasNaN (.scalar (.complex re im)) = false := Bool.or_eq_false_iff.2 ⟨hre, him⟩
    have hz' : Number.hasNaN (.scalar (.complex x (rebuilt im))) = false :=
      Bool.or_eq_false_iff.2 ⟨hxn, (isNaN_rebuilt im).trans him⟩
    exact (Number.equals_eq_ok_true_iff hz' hz).2 ((Number.point?_eq_iff hz' hz).2 ⟨hx, place?_rebuilt him⟩)
  kind_eq := rfl
  imaginary_kind_eq := kind_rebuilt im

/-- A number with one mantissa comes back from its parts. -/
theorem exists_rebuilt {z : Scalar} (hre : z.parts.1.IsStored) (him : z.parts.2.IsStored)
    (hnan : Number.hasNaN (.scalar z) = false) (hkind : kindOf z ≠ .complex) :
    ∃ p z', ofScalar z = .ok p ∧ p.toScalar = .ok z' ∧ IsRebuilt z' z := by
  cases z with
  | real x => exact ⟨_, _, rfl, toScalar_ofReal hre, isRebuilt_real hnan⟩
  | complex re im =>
    obtain ⟨hre', him'⟩ := Bool.or_eq_false_iff.1 hnan
    have hzero : re.isZero = true := by
      by_contra hne
      rw [kindOf, if_neg hne] at hkind
      exact hkind rfl
    obtain ⟨d, hd, hcoefficient⟩ := exists_toDecimal (x := im) him
    refine ⟨{ ofReal im with kind := .imaginary, coefficient := (ofReal im).kind }, .complex .zero (rebuilt im), ?_, ?_,
      isRebuilt_complex hre' him' ?_ rfl⟩
    · rw [ofScalar, if_pos hzero]
    · show (do
        let d ← (ofReal im).toDecimal
        ofKind .imaginary d (ofKind (ofReal im).kind d (.ok (.real (.big d))))) = _
      rw [hd, kind_ofReal]
      show ofKind .imaginary d (ofKind (kindOfReal im) d (.ok (.real (.big d)))) = _
      rw [hcoefficient]
      rfl
    · rw [Real.place?_zero, (Real.isZero_iff_place? hre').1 hzero]

/-- A complex number comes back from the parts of both its parts. -/
theorem exists_rebuilt_pair {z : Scalar} (hre : z.parts.1.IsStored) (him : z.parts.2.IsStored)
    (hnan : Number.hasNaN (.scalar z) = false) (hkind : kindOf z = .complex) :
    ∃ z', joined (pairOf z).1 (pairOf z).2 = .ok z' ∧ IsRebuilt z' z := by
  cases z with
  | real x => cases x <;> first | cases hkind | rename_i s; cases s <;> cases hkind
  | complex re im =>
    obtain ⟨hre', him'⟩ := Bool.or_eq_false_iff.1 hnan
    refine ⟨.complex (rebuilt re) (rebuilt im), ?_,
      isRebuilt_complex hre' him' (place?_rebuilt hre') ((isNaN_rebuilt re).trans hre')⟩
    unfold joined pairOf
    simp only
    rw [toScalar_ofReal hre, toScalar_ofReal him]
    rfl

/-! ## Parts in normal form -/

/-- The kind that the digits have: that of the coefficient if the number is imaginary. -/
def digitKind (p : Parts) : PartsKind := if p.kind = .imaginary then p.coefficient else p.kind

/-- Parts that numbers are taken apart into. The digits are a zero with the exponent zero, or they
begin with no zero and end in none, unless they repeat; only an imaginary number has a kind of
coefficient. -/
structure IsNormal (p : Parts) : Prop where
  kind : p.digitKind = .finite ∨ p.digitKind = .irrational ∨ p.digitKind = .recurring
  coefficient : p.kind ≠ .imaginary → p.coefficient = .finite
  isDigits : IsDigits p.digits.toList
  shape : p.digits = "0" ∧ p.exponent = 0 ∨
    (∃ c cs, p.digits.toList = c :: cs ∧ c ≠ '0') ∧
      (p.digitKind = .recurring ∨ ∃ c cs, p.digits.toList = cs ++ [c] ∧ c ≠ '0')

section

variable {p : Parts}

theorem IsNormal.ofDecimal_mantissa (h : p.IsNormal) :
    ofDecimal p.mantissa p.digitKind = ⟨p.digits, p.exponent, p.negative, p.digitKind, .finite⟩ := by
  obtain ⟨hdigits, hexponent⟩ | ⟨⟨c, cs, hfirst, hc⟩, hlast⟩ := h.shape
  · have hzero : p.mantissa.isZero = true := by
      rw [Decimal.isZero_iff, mantissa, hdigits]
      rfl
    rw [ofDecimal, if_pos hzero, hdigits, hexponent]
    rfl
  · have hdigits : p.mantissa.digits = p.digits.toList := by
      have hds := h.isDigits
      show ofNat (toNat p.digits.toList) = _
      rw [hfirst] at hds ⊢
      exact ofNat_toNat hds hc
    have hzero : p.mantissa.isZero = false := by
      rw [Bool.eq_false_iff, Ne, Decimal.isZero_iff]
      intro h0
      have hspelled : ofNat 0 = c :: cs := by rw [← h0, ← hfirst]; exact hdigits
      rw [ofNat_of_lt (by decide)] at hspelled
      exact hc (List.cons.inj hspelled).1.symm
    -- the last digit is not zero, so no zeros are dropped
    have hkept : kept p.digitKind p.mantissa = p.mantissa := by
      rw [kept, hzero, if_neg Bool.false_ne_true]
      split
      · rfl
      · rename_i hkind
        obtain ⟨c, cs, heq, hne⟩ := hlast.resolve_left hkind
        refine Decimal.normalize_eq_self ?_
        show ¬ 10 ∣ toNat p.digits.toList
        rw [heq]
        exact not_ten_dvd_toNat (h.isDigits c (by rw [heq]; exact List.mem_append_right _ List.mem_cons_self)) hne
    rw [ofDecimal_eq, hkept, hdigits, String.ofList_toList]
    rfl

theorem exists_ofKind {kind : PartsKind} (h : kind = .finite ∨ kind = .irrational ∨ kind = .recurring) (d : Decimal)
    (coefficient : Outcome Scalar) : isSpecial kind = false ∧ kind ≠ .imaginary ∧
      ∃ x, ofKind kind d coefficient = .ok (.real x) ∧ ofReal x = ofDecimal d kind := by
  rcases h with rfl | rfl | rfl
  · exact ⟨rfl, nofun, .big d, rfl, rfl⟩
  · exact ⟨rfl, nofun, .irrational d, rfl, rfl⟩
  · exact ⟨rfl, nofun, .recurring d, rfl, rfl⟩

/-- Parts in normal form denote what their kind makes of their decimal. -/
theorem IsNormal.toScalar_eq (h : p.IsNormal) : p.toScalar = (do
    let d ← p.toDecimal
    ofKind p.kind d (ofKind p.coefficient d (.ok (.real (.big d))))) := by
  have hkind : isSpecial p.kind = false := by
    by_cases himaginary : p.kind = .imaginary
    · rw [himaginary]
      rfl
    · have := h.kind
      rw [digitKind, if_neg himaginary] at this
      exact (exists_ofKind this p.mantissa (.ok (.real .zero))).1
  unfold toScalar
  rw [hkind]
  rfl

/-- Parts in normal form whose decimal is in range denote a number, and it has these parts. -/
theorem IsNormal.exists_toScalar (h : p.IsNormal) (hrange : p.mantissa.inRange = true) :
    ∃ z, p.toScalar = .ok z ∧ ofScalar z = .ok p := by
  have hd : p.toDecimal = .ok p.mantissa := by
    rw [toDecimal_eq h.isDigits, Decimal.make_eq_ok_iff]
    exact ⟨rfl, hrange⟩
  have hparts := h.ofDecimal_mantissa
  rw [h.toScalar_eq, hd]
  by_cases himaginary : p.kind = .imaginary
  · have hkind := h.kind
    rw [digitKind, if_pos himaginary] at hkind hparts
    obtain ⟨-, -, x, hx, hreal⟩ := exists_ofKind hkind p.mantissa (.ok (.real (.big p.mantissa)))
    refine ⟨.complex .zero x, ?_, ?_⟩
    · show ofKind p.kind p.mantissa (ofKind p.coefficient p.mantissa _) = _
      rw [himaginary, hx]
      rfl
    · show Except.ok { ofReal x with kind := .imaginary, coefficient := (ofReal x).kind } = Except.ok p
      rw [hreal, hparts, ← himaginary]
  · have hkind := h.kind
    rw [digitKind, if_neg himaginary] at hkind hparts
    obtain ⟨-, -, x, hx, hreal⟩ := exists_ofKind hkind p.mantissa (ofKind p.coefficient p.mantissa (.ok (.real (.big p.mantissa))))
    refine ⟨.real x, hx, congrArg Except.ok ?_⟩
    rw [hreal, hparts, ← h.coefficient himaginary]

theorem IsNormal.toScalar_error (h : p.IsNormal) (hrange : p.mantissa.inRange = false) :
    ∃ e, p.toScalar = .error e ∧ e.isRange = true := by
  rw [h.toScalar_eq, toDecimal_eq h.isDigits]
  obtain ⟨e, hmake⟩ := Decimal.exists_make_eq_error hrange
  refine ⟨e, ?_, Decimal.make_range _ _ _ e hmake⟩
  rw [hmake]
  rfl

end

/-- Numbers without NaN come back from their parts equal and of their kind, a complex one from the
parts of both its parts. Parts in normal form come back from their number, which they have exactly if
their decimal is in range; else it is refused. -/
theorem parts_round_trip :
    (∀ z : Scalar, z.parts.1.IsStored → z.parts.2.IsStored → Number.hasNaN (.scalar z) = false → kindOf z ≠ .complex →
      ∃ p z', ofScalar z = .ok p ∧ p.toScalar = .ok z' ∧ IsRebuilt z' z) ∧
    (∀ z : Scalar, z.parts.1.IsStored → z.parts.2.IsStored → Number.hasNaN (.scalar z) = false → kindOf z = .complex →
      ∃ z', joined (pairOf z).1 (pairOf z).2 = .ok z' ∧ IsRebuilt z' z) ∧
    ∀ p : Parts, p.IsNormal → if p.mantissa.inRange then ∃ z, p.toScalar = .ok z ∧ ofScalar z = .ok p
      else ∃ e, p.toScalar = .error e ∧ e.isRange = true := by
  refine ⟨fun _ hre him hnan hkind => exists_rebuilt hre him hnan hkind,
    fun _ hre him hnan hkind => exists_rebuilt_pair hre him hnan hkind, fun p hp => ?_⟩
  cases hrange : p.mantissa.inRange with
  | true => exact hp.exists_toScalar hrange
  | false => exact hp.toScalar_error hrange

/-- An imaginary repeating value, a complex number with an approximate part, and the parts of an
imaginary repeating value whose digits end in a zero. -/
theorem parts_round_trip_imaginary :
    (∃ p z', ofScalar (.complex (.big .zero) (.recurring ⟨true, 3333, -4⟩)) = .ok p ∧ p.toScalar = .ok z' ∧
      IsRebuilt z' (.complex (.big .zero) (.recurring ⟨true, 3333, -4⟩))) ∧
    (∃ z', joined (ofReal (.big ⟨false, 30, -1⟩)) (ofReal (.irrational ⟨false, 4, 0⟩)) = .ok z' ∧
      IsRebuilt z' (.complex (.big ⟨false, 30, -1⟩) (.irrational ⟨false, 4, 0⟩))) ∧
    ∃ z, toScalar ⟨"250", -3, true, .imaginary, .recurring⟩ = .ok z ∧
      ofScalar z = .ok ⟨"250", -3, true, .imaginary, .recurring⟩ := by
  obtain ⟨hsingle, hpair, hnormal⟩ := parts_round_trip
  have hzero : Real.IsStored (.big .zero) := (by decide +kernel : Decimal.inRange .zero = true)
  have hthird : Real.IsStored (.recurring ⟨true, 3333, -4⟩) := (by decide +kernel : Decimal.inRange ⟨true, 3333, -4⟩ = true)
  have hthree : Real.IsStored (.big ⟨false, 30, -1⟩) := (by decide +kernel : Decimal.inRange ⟨false, 30, -1⟩ = true)
  have hfour : Real.IsStored (.irrational ⟨false, 4, 0⟩) := (by decide +kernel : Decimal.inRange ⟨false, 4, 0⟩ = true)
  refine ⟨hsingle _ hzero hthird rfl (by decide), hpair (.complex _ _) hthree hfour rfl rfl, ?_⟩
  have hp := hnormal ⟨"250", -3, true, .imaginary, .recurring⟩
    ⟨.inr (.inr rfl), fun h => absurd rfl h, by simp [IsDigits]; decide, .inr ⟨⟨'2', ['5', '0'], rfl, by decide⟩, .inl rfl⟩⟩
  rwa [if_pos (by decide +kernel)] at hp

/-- An exponent that no decimal has, a kind of coefficient that no real number has, and a digit of
another script. -/
theorem not_parts_round_trip : toScalar ⟨"1", 10 ^ 18, false, .finite, .finite⟩ = .error .decimalRange ∧
    (toScalar ⟨"1", 0, false, .finite, .recurring⟩ >>= ofScalar) = .ok ⟨"1", 0, false, .finite, .finite⟩ ∧
    (toScalar ⟨"٣", 0, false, .finite, .finite⟩ >>= ofScalar) = .ok ⟨"3", 0, false, .finite, .finite⟩ := by
  refine ⟨?_, ?_, ?_⟩ <;> decide +kernel

end Parts

end Reckon
