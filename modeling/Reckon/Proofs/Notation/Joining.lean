/-
Joining two numbers to a complex one. In front of the joining sign any accepted text of a real number may stand, and
behind it any one without a sign of its own, or none: the reader splits them there, whatever signs of exponents and
letters of words they hold. The sign then goes to the imaginary part, which changes to its opposite.
-/
import Reckon.Proofs.Expansion.Denotation
import Reckon.Proofs.Notation.Failures
import Reckon.Proofs.Notation.Recurring
import Reckon.Proofs.Notation.Sum
import Reckon.Proofs.Real.Stored

namespace Reckon.Notation

open Reckon.Digits Reckon.Text Reckon.Expansion

/-! ## Opposites -/

/-- The numbers are of one kind, and both are NaN or they are equal. -/
structure SameNumber (x y : Real) : Prop where
  kind_eq : x.kind = y.kind
  equals : x.isNaN = true ∧ y.isNaN = true ∨ x.equals y = .ok true

theorem SameNumber.refl (x : Real) : SameNumber x x := by
  refine ⟨rfl, ?_⟩
  cases h : x.isNaN
  · exact .inr ((Real.equals_eq_decide h h).trans (congrArg Except.ok (decide_eq_true rfl)))
  · exact .inl ⟨rfl, rfl⟩

/-- What is read behind a minus is the opposite of what is read behind a plus, and nothing is read behind only one of
them. -/
structure FollowsSign (value : Bool → Outcome Real) : Prop where
  minus : ∀ v, value false = .ok v → ∃ w, value true = .ok w ∧ SameNumber w v.neg
  plus : ∀ w, value true = .ok w → ∃ v, value false = .ok v

theorem followsSign_of_map {value : Bool → Outcome Real} (h : value true = (value false).map Real.neg) :
    FollowsSign value := by
  constructor
  · intro v hv
    exact ⟨v.neg, by rw [h, hv]; rfl, .refl _⟩
  · intro w hw
    obtain ⟨v, hv, -⟩ := Outcome.map_eq_ok.1 (h.symm.trans hw)
    exact ⟨v, hv⟩

theorem followsSign_one : FollowsSign fun negative => .ok (if negative then Real.one.neg else .one) := followsSign_of_map rfl

theorem IsSpecialWord.followsSign {cs : List Char} {value : Bool → Real} (h : IsSpecialWord cs value) :
    FollowsSign fun negative => .ok (value negative) := by
  cases h <;> exact followsSign_of_map rfl

/-- The opposite of a repeating value is stored as the opposite number, but a zero has no sign. -/
theorem followsSign_ofRat {q : Bool → ℚ} (h : q true = -q false) : FollowsSign fun negative => Real.ofRat (q negative) := by
  by_cases hzero : q false = 0
  · have hplus : Real.ofRat (q false) = .ok .zero := by rw [hzero, Real.ofRat_zero]
    have hminus : Real.ofRat (q true) = .ok .zero := by rw [h, hzero, neg_zero, Real.ofRat_zero]
    refine ⟨fun v hv => ⟨.zero, hminus, ?_⟩, fun _ _ => ⟨.zero, hplus⟩⟩
    obtain rfl := Except.ok.inj (hplus.symm.trans hv)
    exact ⟨rfl, .inr (by with_unfolding_all decide)⟩
  · refine followsSign_of_map ?_
    show Real.ofRat (q true) = _
    rw [h, Real.ofRat_neg hzero]

theorem followsSign_realOfParts (s : String) (whole fraction : List Char) (cycle : Option (List Char)) (e : ℤ)
    (approximate : Bool) : FollowsSign fun negative => realOfParts s negative whole fraction cycle e approximate := by
  rcases cycle with _ | cycle
  · refine followsSign_of_map ?_
    simp only [realOfParts_none]
    exact ofStored_neg approximate ⟨false, toNat (whole ++ fraction), e - fraction.length⟩
  rcases approximate with _ | _
  · by_cases he : e.natAbs ≤ maxCycleExponent
    · simp only [realOfParts_cycle s _ whole fraction cycle he]
      exact followsSign_ofRat (by rw [value_neg, neg_mul])
    · simp only [realOfParts_cycle_of_lt s _ whole fraction cycle (not_le.1 he)]
      exact ⟨nofun, nofun⟩
  · exact ⟨nofun, nofun⟩

/-! ## Accepted texts -/

/-- An accepted text is a sign and a numeral that follows the sign. -/
theorem exists_isNumeral {cs : List Char} {x : Real} (htrim : trim cs = cs) (h : readReal (String.ofList cs) = .ok x) :
    ∃ s body value, cs = signChars s ++ body ∧ IsNumeral body value ∧ FollowsSign value ∧ value (s == some true) = .ok x := by
  have hspec := readReal_spec (String.ofList cs)
  rw [String.toList_ofList, htrim] at hspec
  rcases hspec with ⟨y, hy⟩ | ⟨e, he⟩ | ⟨-, he⟩ | ⟨l, hl, rfl, hread⟩
  · have hread : readReal (String.ofList cs) = .ok y := readReal_of_isSpecial (by rwa [String.toList_ofList, htrim])
    obtain ⟨s, hword⟩ := hy
    obtain rfl := Except.ok.inj (hread.symm.trans h)
    exact ⟨s, _, _, rfl, hword.isNumeral, hword.followsSign, rfl⟩
  · rw [he] at h
    cases h
  · rw [he] at h
    cases h
  · rcases l.exact_or_malformed with hexact | ⟨e, he⟩
    · refine ⟨l.sign, l.unsigned l.approximate, _, List.append_assoc _ _ _, hl.isNumeral hexact,
        followsSign_realOfParts _ _ _ _ _ _, ?_⟩
      rw [← h, hread]
      exact realOfParts_congr _ _ _ _ _ _ hexact
    · rw [hread, he] at h
      cases h

/-- An accepted text without a sign, or none, is a coefficient that follows the sign. -/
theorem exists_isCoefficient {cs : List Char} {v : Real} (htrim : trim cs = cs) (hsign : ∀ c ∈ cs.head?, c ≠ '+' ∧ c ≠ '-')
    (h : cs = [] ∧ v = .one ∨ readReal (String.ofList cs) = .ok v) :
    ∃ value, IsCoefficient cs value ∧ FollowsSign value ∧ value false = .ok v := by
  rcases h with ⟨rfl, rfl⟩ | h
  · exact ⟨_, isCoefficient_nil, followsSign_one, rfl⟩
  · obtain ⟨s, body, value, rfl, hbody, hfollows, hv⟩ := exists_isNumeral htrim h
    rcases s with _ | _ | _
    · exact ⟨value, hbody.isCoefficient, hfollows, hv⟩
    · exact absurd rfl (hsign '+' rfl).1
    · exact absurd rfl (hsign '-' rfl).2

/-! ## Joined texts -/

/-- The sign that joins the parts of a complex number. -/
def joint (negative : Bool) : String := if negative then "-" else "+"

/-- A text of spaces. -/
def spaces (n : Nat) : String := String.ofList (List.replicate n ' ')

/-- Two accepted texts around a sign, with any number of spaces, and the imaginary unit behind them are read as the
complex number of the two, where the sign goes to the second. Without the first text the real part is zero. -/
theorem readScalar_joined {a b : String} {x v : Real} (ha : readReal a = .ok x) (hatrim : trim a.toList = a.toList)
    (hb : b = "" ∧ v = .one ∨ readReal b = .ok v) (hbtrim : trim b.toList = b.toList)
    (hbsign : ∀ c ∈ b.toList.head?, c ≠ '+' ∧ c ≠ '-') (negative : Bool) (before after : Nat) :
    ∃ w, SameNumber w (if negative then v.neg else v) ∧
      readScalar (a ++ spaces before ++ joint negative ++ spaces after ++ b ++ "i") = .ok (.complex x w) ∧
      readScalar (joint negative ++ spaces after ++ b ++ "i") = .ok (.complex .zero w) := by
  obtain ⟨s, body, value, hbody, hnumeral, -, hx⟩ := exists_isNumeral hatrim (x := x) (by rw [String.ofList_toList]; exact ha)
  obtain ⟨values, hcoefficient, hfollows, hv⟩ := exists_isCoefficient hbtrim hbsign (v := v) (by
    rw [String.ofList_toList]
    exact hb.imp_left fun hone => ⟨by rw [hone.1]; rfl, hone.2⟩)
  obtain ⟨w, hw, hsame⟩ : ∃ w, values negative = .ok w ∧ SameNumber w (if negative then v.neg else v) := by
    cases negative
    · exact ⟨v, hv, .refl v⟩
    · exact hfollows.minus v hv
  refine ⟨w, hsame, ?_, ?_⟩
  · have hread := readScalar_sum hnumeral hcoefficient s negative (isSpaces_replicate before) (isSpaces_replicate after)
    rw [hx, hw, ← hbody] at hread
    refine Eq.trans (congrArg readScalar ?_) hread
    apply String.toList_injective
    cases negative <;> simp [joint, spaces, signChars]
  · have hread := readScalar_imaginary hcoefficient (some negative) (isSpaces_replicate after)
      fun hnone => absurd hnone (Option.some_ne_none _)
    rw [show (some negative == some true) = negative by cases negative <;> rfl, hw] at hread
    refine Eq.trans (congrArg readScalar ?_) hread
    apply String.toList_injective
    cases negative <;> simp [joint, spaces, signChars]

/-- Both parts have exponents with signs. -/
theorem readScalar_joined_exponents :
    readReal "-1.5e-2" = .ok (.big ⟨true, 15, -3⟩) ∧ readReal ".5e+1" = .ok (.big ⟨false, 5, 0⟩) ∧
    ∃ w, SameNumber w (.big ⟨true, 5, 0⟩) ∧
      readScalar "-1.5e-2  - .5e+1i" = .ok (.complex (.big ⟨true, 15, -3⟩) w) ∧
      readScalar "- .5e+1i" = .ok (.complex .zero w) := by
  have hre : readReal "-1.5e-2" = .ok (.big ⟨true, 15, -3⟩) := by decide +kernel
  have him : readReal ".5e+1" = .ok (.big ⟨false, 5, 0⟩) := by decide +kernel
  have hsum : "-1.5e-2" ++ spaces 2 ++ joint true ++ spaces 1 ++ ".5e+1" ++ "i" = "-1.5e-2  - .5e+1i" := by decide +kernel
  have himaginary : joint true ++ spaces 1 ++ ".5e+1" ++ "i" = "- .5e+1i" := by decide +kernel
  refine ⟨hre, him, ?_⟩
  rw [← hsum, ← himaginary]
  refine readScalar_joined hre (by decide +kernel) (.inr him) (by decide +kernel) (fun c hc => ?_) true 2 1
  obtain rfl : '.' = c := Option.some.inj hc
  decide

end Reckon.Notation
