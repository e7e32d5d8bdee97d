/-
What a calculator session lets through. Everything a line does fails in the numeric channel, which is
reported, or because a number leaves its range; the exceptions go back to the text of the line: a
power, a digit that cannot be looked up, or too many digits for an exponent.
-/
import Reckon.Calculator.Session
import Reckon.Proofs.Notation.Failures
import Reckon.Proofs.Number.Power

namespace Reckon.Calculator

open Reckon.Outcome Reckon.Text Reckon.Notation

/-! ## Faults of a text -/

/-- How running a text can fail outside the numeric channel. -/
inductive TextFault (cs : List Char) : Failure → Prop
  | range {f : Failure} (h : f.isRange = true) : TextFault cs f
  | dotted (h : dottedI ∈ cs) : TextFault cs .mismatch
  | digits (h : Failure.digitLimit < cs.countP isAsciiDigit) : TextFault cs .textValue
  | division (h : '^' ∈ cs) : TextFault cs .zeroDivision
  | exponent (h : '^' ∈ cs) : TextFault cs .textValue

/-- A failure in the numeric channel, or a fault of the text. -/
def Escapes (cs : List Char) (f : Failure) : Prop := f.code? = none → TextFault cs f

theorem TextFault.mono {cs cs' : List Char} {f : Failure} (h : TextFault cs f) (hsub : cs.Sublist cs') :
    TextFault cs' f := by
  cases h with
  | range h => exact .range h
  | dotted h => exact .dotted (hsub.mem h)
  | digits h => exact .digits (h.trans_le (hsub.countP_le))
  | division h => exact .division (hsub.mem h)
  | exponent h => exact .exponent (hsub.mem h)

theorem Escapes.mono {cs cs' : List Char} {f : Failure} (h : Escapes cs f) (hsub : cs.Sublist cs') : Escapes cs' f :=
  fun hf => (h hf).mono hsub

theorem escapes_of_isArithmetic {cs : List Char} {f : Failure} (h : f.isArithmetic = true) : Escapes cs f := by
  intro hf
  rcases Failure.isArithmetic_iff.1 h with ⟨n, rfl⟩ | hrange
  · cases hf
  · exact .range hrange

theorem escapes_malformed (cs : List Char) (e : Malformed) : Escapes cs (.malformed e) := nofun

variable {α : Type}

/-- The computation fails in the numeric channel or by a fault of the text. -/
abbrev FailsOn (cs : List Char) (x : Outcome α) : Prop := FailsOnly (Escapes cs) x

theorem failsOn_of_arithmetic {cs : List Char} {x : Outcome α} (h : Arithmetic x) : FailsOn cs x :=
  h.mono fun _ => escapes_of_isArithmetic

theorem failsOn_fail (cs : List Char) (e : NumericError) : FailsOn cs (fail e : Outcome α) :=
  failsOn_of_arithmetic (arithmetic_fail e)

theorem failsOn_of_sublist {cs cs' : List Char} {x : Outcome α} (h : FailsOn cs x) (hsub : cs.Sublist cs') :
    FailsOn cs' x :=
  h.mono fun _ hf => hf.mono hsub

/-! ## Literals -/

theorem trim_sublist (cs : List Char) : (trim cs).Sublist cs := by
  have hright := List.rdropWhile_prefix isBlank (l := cs.dropWhile isBlank)
  exact hright.sublist.trans (List.dropWhile_sublist _)

theorem mem_of_stopsAtDottedI {radix : Nat} {cs : List Char} (h : StopsAtDottedI radix cs) : dottedI ∈ cs := by
  obtain ⟨digits, rest, rfl, -⟩ := h
  simp

theorem radixNumber_failsOn (radix : Nat) (cs : List Char) : FailsOn cs (radixNumber radix cs) := by
  intro f hf
  rcases radixNumber_eq_error hf with ⟨e, rfl⟩ | ⟨rfl, h⟩
  · exact escapes_malformed cs e
  · exact fun _ => .dotted (mem_of_stopsAtDottedI h)

/-- What stands behind the sign of a trimmed text. -/
theorem sign_rest_sublist (cs : List Char) : (cursorAt (trim cs) 0).sign.2.rest.Sublist cs := by
  obtain ⟨sign, rest, hcs, hsign⟩ := sign_spec (trim cs)
  rw [hsign]
  refine List.Sublist.trans ?_ (trim_sublist cs)
  rw [hcs]
  exact List.sublist_append_right _ _

theorem readHex_failsOn (text : String) : FailsOn text.toList (readHex text) := by
  have hrest := sign_rest_sublist text.toList
  unfold readHex
  generalize (cursorAt (trim text.toList) 0).sign = s at hrest ⊢
  obtain ⟨negative, c⟩ := s
  refine FailsOnly.bind (failsOn_of_sublist (radixNumber_failsOn _ _) ?_) fun _ _ => .ok _
  split
  · exact (List.drop_sublist _ _).trans hrest
  · exact hrest

theorem readRadix_failsOn (text : String) {radix : ℤ} (h : 2 ≤ radix ∧ radix ≤ 36) :
    FailsOn text.toList (readRadix text radix) := by
  have hrest := sign_rest_sublist text.toList
  unfold readRadix
  rw [if_neg (by omega)]
  generalize (cursorAt (trim text.toList) 0).sign = s at hrest ⊢
  obtain ⟨negative, c⟩ := s
  exact FailsOnly.bind (failsOn_of_sublist (radixNumber_failsOn _ _) hrest) fun _ _ => .ok _

theorem readInteger_failsOn (text : String) : FailsOn text.toList (readInteger text) := by
  intro f hf
  rcases readInteger_eq_error hf with ⟨e, rfl⟩ | ⟨rfl, sign, mark, digits, radix, hcs, -, -, hstops⟩
  · exact escapes_malformed _ e
  · refine fun _ => .dotted ((trim_sublist text.toList).mem ?_)
    rw [hcs]
    simp [mem_of_stopsAtDottedI hstops]

theorem textFault_of_realFault {cs : List Char} {f : Failure} (h : RealFault cs f) : TextFault cs f := by
  cases h with
  | power h =>
    obtain ⟨l, p, rest, -, -, ⟨hdigits, hlimit⟩, -, hcs⟩ := h
    have hsub : p.digits.Sublist cs := by
      rw [splitMark_spec cs, hcs]
      refine List.Sublist.trans ?_ (List.sublist_append_left _ _)
      refine List.Sublist.trans ?_ (List.sublist_append_right _ _)
      refine List.Sublist.trans ?_ (List.sublist_append_left _ _)
      exact (List.sublist_append_right _ _).trans (List.sublist_cons_self _ _)
    refine .digits (hlimit.trans_le ?_)
    rw [← List.countP_eq_length.2 hdigits]
    exact hsub.countP_le
  | range => exact .range rfl
  | cycle _ _ _ _ _ hrat => exact .range (Real.ofRat_range _ _ hrat)

/-- The two texts of a complex number together are its text. -/
theorem splitSum_sublist (before after : List Char) :
    (∀ re ∈ (splitSum before after).1, re.Sublist (before.reverse ++ after)) ∧
    (splitSum before after).2.Sublist (before.reverse ++ after) := by
  fun_induction splitSum before after with
  | case1 after => exact ⟨nofun, List.Sublist.refl _⟩
  | case2 c after => exact ⟨nofun, by simp⟩
  | case3 c d before after h =>
    refine ⟨?_, ?_⟩
    · rintro _ ⟨⟩
      simp
    · simp
  | case4 c d before after h ih => simpa using ih

theorem textFault_of_scalarFault {cs : List Char} {f : Failure} (h : ScalarFault cs f) : TextFault cs f := by
  have hparts := splitSum_sublist (trim cs.dropLast).reverse []
  rw [List.reverse_reverse, List.append_nil] at hparts
  have htrim : (trim cs.dropLast).Sublist cs := (trim_sublist _).trans (List.dropLast_sublist _)
  cases h with
  | real _ h => exact textFault_of_realFault h
  | realPart _ hsplit h =>
    unfold splitComplex at hsplit
    rw [hsplit] at hparts
    exact (textFault_of_realFault h).mono (((trim_sublist _).trans (hparts.1 _ rfl)).trans htrim)
  | coefficient _ hsplit _ h =>
    unfold splitComplex at hsplit
    rw [hsplit] at hparts
    exact (textFault_of_realFault h).mono ((((trim_sublist _).trans List.filter_sublist).trans hparts.2).trans htrim)

theorem readScalar_failsOn (text : String) : FailsOn text.toList (readScalar text) :=
  fun _ hf hcode => (textFault_of_scalarFault (readScalar_eq_error_iff.1 ⟨hf, hcode⟩)).mono (trim_sublist _)

theorem literal_failsOn (s : String) : FailsOn s.toList (literal s) := by
  have hdigits : ∀ radix : ℤ, 2 ≤ radix ∧ radix ≤ 36 →
      FailsOn s.toList (readRadix (String.ofList (s.toList.drop 2)) radix) :=
    fun radix hradix => failsOn_of_sublist (readRadix_failsOn _ hradix) (by
      rw [String.toList_ofList]
      exact List.drop_sublist _ _)
  unfold literal
  simp only
  split
  · exact .map (readHex_failsOn s)
  · exact .map (hdigits 2 (by decide))
  · exact .map (hdigits 8 (by decide))
  · exact .ite (fun _ => .map (readInteger_failsOn s)) fun _ => .map (readScalar_failsOn s)

/-! ## Tokens -/

/-- A token that stands in the text. -/
def Token.StandsIn (cs : List Char) : Token → Prop
  | .literal s => s.toList.Sublist cs
  | .operator op => op = .power → '^' ∈ cs
  | .blank => False
  | _ => True

theorem standsIn_ofLexeme {cs : List Char} {s : String} (hne : s ≠ "") (hs : s.toList.Sublist cs) :
    (Token.ofLexeme s).StandsIn cs := by
  unfold Token.ofLexeme
  split
  · rename_i op _ hop
    have hsymbol := List.find?_some hop
    rintro rfl
    exact hs.mem (by rw [← beq_iff_eq.1 hsymbol]; decide)
  · trivial
  · trivial
  · trivial
  · exact absurd rfl hne
  · split
    · trivial
    · exact hs

/-- Cutting a text fails on an unexpected character only, and gives pieces of the text. -/
theorem lexemesFrom_spec (i : Nat) (cs : List Char) : FailsOnly (fun f => ∃ n, f = .numeric n) (lexemesFrom i cs) ∧
    ∀ ls, lexemesFrom i cs = .ok ls → ∀ s ∈ ls, s ≠ "" ∧ s.toList.Sublist cs := by
  fun_induction lexemesFrom i cs with
  | case1 i =>
    refine ⟨.ok _, ?_⟩
    rintro _ ⟨⟩
    exact fun _ hs => absurd hs List.not_mem_nil
  | case2 i c cs hblank ih =>
    exact ⟨ih.1, fun ls hls s hs => ⟨(ih.2 ls hls s hs).1, (ih.2 ls hls s hs).2.trans (List.sublist_cons_self _ _)⟩⟩
  | case3 i c cs hblank hnone => exact ⟨.error ⟨_, rfl⟩, nofun⟩
  | case4 i c cs hblank k hk ih =>
    refine ⟨ih.1.bind fun _ _ => .ok _, fun ls hls s hs => ?_⟩
    obtain ⟨rest, hrest, hls⟩ := bind_eq_ok.1 hls
    obtain rfl := Except.ok.inj hls
    rcases List.mem_cons.1 hs with rfl | hs
    · refine ⟨fun h => ?_, ?_⟩
      · have := congrArg String.toList h
        rw [String.toList_ofList] at this
        cases this
      · rw [String.toList_ofList]
        exact (List.take_sublist _ _).cons_cons _
    · obtain ⟨hne, hsub⟩ := ih.2 rest hrest s hs
      exact ⟨hne, (hsub.trans (List.drop_sublist _ _)).trans (List.sublist_cons_self _ _)⟩

/-! ## Items -/

/-- An item that stands in the text. -/
def Item.StandsIn (cs : List Char) : Item → Prop
  | .literal s => s.toList.Sublist cs
  | .operator op => op = .power → '^' ∈ cs
  | _ => True

theorem standsIn_ofWord (cs : List Char) (s : String) : (Item.ofWord s).StandsIn cs := by
  unfold Item.ofWord
  split <;> trivial

/-- What is released from the waiting item stands in the text. -/
def Pending.StandsIn (cs : List Char) (p : Pending) : Prop := ∀ r ∈ p.release?, r.1.StandsIn cs

section Arrange

variable {cs : List Char} {stack : List Pending} {output : List Item}

theorem releaseAll_standsIn {stack' : List Pending} {output' : List Item} (hstack : ∀ p ∈ stack, p.StandsIn cs)
    (houtput : ∀ i ∈ output, i.StandsIn cs) (h : releaseAll stack output = (stack', output')) :
    (∀ p ∈ stack', p.StandsIn cs) ∧ ∀ i ∈ output', i.StandsIn cs := by
  fun_induction releaseAll stack output with
  | case1 output p stack item n hrelease ih =>
    obtain ⟨hp, hstack⟩ := List.forall_mem_cons.1 hstack
    exact ih hstack (List.forall_mem_cons.2 ⟨hp _ hrelease, houtput⟩) h
  | case2 | case3 =>
    obtain ⟨rfl, rfl⟩ := Prod.mk.inj h
    exact ⟨hstack, houtput⟩

theorem releaseBefore_standsIn {op : Operator} {stack' : List Pending} {output' : List Item}
    (hstack : ∀ p ∈ stack, p.StandsIn cs) (houtput : ∀ i ∈ output, i.StandsIn cs)
    (h : releaseBefore op stack output = (stack', output')) :
    (∀ p ∈ stack', p.StandsIn cs) ∧ ∀ i ∈ output', i.StandsIn cs := by
  fun_induction releaseBefore op stack output with
  | case1 output p stack item n hrelease _ ih =>
    obtain ⟨hp, hstack⟩ := List.forall_mem_cons.1 hstack
    exact ih hstack (List.forall_mem_cons.2 ⟨hp _ hrelease, houtput⟩) h
  | case2 | case3 | case4 =>
    obtain ⟨rfl, rfl⟩ := Prod.mk.inj h
    exact ⟨hstack, houtput⟩

theorem countArgument_standsIn {stack' : List Pending} (hstack : ∀ p ∈ stack, p.StandsIn cs)
    (h : countArgument stack = some stack') : ∀ p ∈ stack', p.StandsIn cs := by
  fun_induction countArgument stack generalizing stack' with
  | case1 f n stack =>
    obtain rfl := Option.some.inj h
    exact List.forall_mem_cons.2 ⟨nofun, (List.forall_mem_cons.1 hstack).2⟩
  | case2 p stack _ ih =>
    obtain ⟨hp, hstack⟩ := List.forall_mem_cons.1 hstack
    obtain ⟨rest, hrest, rfl⟩ := Option.map_eq_some_iff.1 h
    exact List.forall_mem_cons.2 ⟨hp, ih hstack hrest⟩
  | case3 => cases h

/-- The arrangement fails numerically, and its items stand in the text. -/
structure Arranged (cs : List Char) (x : Outcome (List Item)) : Prop where
  failsOnly : FailsOnly (fun f => ∃ n, f = .numeric n) x
  items : ∀ items, x = .ok items → ∀ i ∈ items, i.StandsIn cs

theorem arranged_fail (cs : List Char) (e : NumericError) : Arranged cs (fail e) := ⟨.error ⟨e, rfl⟩, nofun⟩

theorem arrangeFrom_arranged {tokens : List Token} {start : Bool} (htokens : ∀ t ∈ tokens, t.StandsIn cs)
    (hstack : ∀ p ∈ stack, p.StandsIn cs) (houtput : ∀ i ∈ output, i.StandsIn cs) :
    Arranged cs (arrangeFrom tokens start stack output) := by
  have hnegate : Pending.StandsIn cs .negate := by
    rintro _ ⟨⟩
    trivial
  have hbracket : Pending.StandsIn cs .bracket := nofun
  fun_induction arrangeFrom tokens start stack output with
  | case1 start stack output released hrelease =>
    have hall := releaseAll_standsIn hstack houtput hrelease
    refine ⟨.ok _, ?_⟩
    rintro _ ⟨⟩ i hi
    exact hall.2 i (List.mem_reverse.1 hi)
  | case2 => exact arranged_fail cs _
  | case3 op rest start stack output _ ih =>
    obtain ⟨-, htokens⟩ := List.forall_mem_cons.1 htokens
    exact ih htokens hstack houtput
  | case4 op rest start stack output _ _ ih =>
    obtain ⟨-, htokens⟩ := List.forall_mem_cons.1 htokens
    exact ih htokens (List.forall_mem_cons.2 ⟨hnegate, hstack⟩) houtput
  | case5 op rest start stack output _ _ stack' output' hrelease ih =>
    obtain ⟨hop, htokens⟩ := List.forall_mem_cons.1 htokens
    have hbefore := releaseBefore_standsIn hstack houtput hrelease
    have hoperator : Pending.StandsIn cs (.operator op) := by
      rintro _ ⟨⟩
      exact hop
    exact ih htokens (List.forall_mem_cons.2 ⟨hoperator, hbefore.1⟩) hbefore.2
  | case6 start s rest stack output f _ args ih =>
    have htokens := (List.forall_mem_cons.1 (List.forall_mem_cons.1 htokens).2).2
    have hcall : Pending.StandsIn cs (.call f args) := nofun
    exact ih htokens (List.forall_mem_cons.2 ⟨hcall, hstack⟩) houtput
  | case7 start s rest stack output _ ih =>
    have htokens := (List.forall_mem_cons.1 (List.forall_mem_cons.1 htokens).2).2
    exact ih htokens (List.forall_mem_cons.2 ⟨hbracket, hstack⟩) (List.forall_mem_cons.2 ⟨standsIn_ofWord cs s, houtput⟩)
  | case8 start s rest stack output _ ih =>
    obtain ⟨-, htokens⟩ := List.forall_mem_cons.1 htokens
    exact ih htokens hstack (List.forall_mem_cons.2 ⟨standsIn_ofWord cs s, houtput⟩)
  | case9 start s rest stack output ih =>
    obtain ⟨hs, htokens⟩ := List.forall_mem_cons.1 htokens
    have hitem : Item.StandsIn cs (.literal s) := hs
    exact ih htokens hstack (List.forall_mem_cons.2 ⟨hitem, houtput⟩)
  | case10 => exact absurd (htokens .blank List.mem_cons_self) id
  | case11 start rest stack output ih =>
    obtain ⟨-, htokens⟩ := List.forall_mem_cons.1 htokens
    exact ih htokens (List.forall_mem_cons.2 ⟨hbracket, hstack⟩) houtput
  | case12 start rest stack output stack' output' hrelease stack'' hcount ih =>
    obtain ⟨-, htokens⟩ := List.forall_mem_cons.1 htokens
    have hall := releaseAll_standsIn hstack houtput hrelease
    exact ih htokens (countArgument_standsIn hall.1 hcount) hall.2
  | case13 => exact arranged_fail cs _
  | case14 start rest stack output f n stack' output' hrelease ih =>
    obtain ⟨-, htokens⟩ := List.forall_mem_cons.1 htokens
    have hall := releaseAll_standsIn hstack houtput hrelease
    have hstack := (List.forall_mem_cons.1 hall.1).2
    have hcall : Item.StandsIn cs (.call f n) := trivial
    exact ih htokens hstack (List.forall_mem_cons.2 ⟨hcall, hall.2⟩)
  | case15 start rest stack output p stack' output' _ hrelease ih =>
    obtain ⟨-, htokens⟩ := List.forall_mem_cons.1 htokens
    have hall := releaseAll_standsIn hstack houtput hrelease
    exact ih htokens (List.forall_mem_cons.1 hall.1).2 hall.2
  | case16 => exact arranged_fail cs _

end Arrange

/-! ## Evaluation -/

theorem Operator.apply_failsOnly (op : Operator) (a b : Number) :
    FailsOnly (fun f => f.isArithmetic = true ∨ op = .power ∧ (f = .textValue ∨ f = .zeroDivision)) (op.apply a b) := by
  have harithmetic : ∀ {x : Outcome Number}, Arithmetic x →
      FailsOnly (fun f => f.isArithmetic = true ∨ op = .power ∧ (f = .textValue ∨ f = .zeroDivision)) x :=
    fun h => h.mono fun _ => .inl
  have hequals : ∀ p : Bool → Number, Arithmetic (a.equals b >>= fun r => .ok (p r)) :=
    fun p => .bind (Number.equals_arithmetic a b) fun _ _ => .ok _
  have htest : ∀ p, Arithmetic (test p a b) := fun p => .bind (Number.compare_arithmetic a b) fun _ _ => .ok _
  cases op with
  | add => exact harithmetic (Number.add_arithmetic a b)
  | sub => exact harithmetic (Number.sub_arithmetic a b)
  | mul => exact harithmetic (Number.mul_arithmetic a b)
  | div => exact harithmetic (.map (Scalar.div_arithmetic _ _))
  | mod => exact harithmetic (.map (Scalar.mod_arithmetic _ _))
  | power =>
    exact Number.power_failsOnly (fun _ h => .inl h) (fun _ => .inr ⟨rfl, .inl rfl⟩) (fun _ => .inr ⟨rfl, .inl rfl⟩)
      fun _ => .inr ⟨rfl, .inr rfl⟩
  | equal => exact harithmetic (hequals _)
  | notEqual => exact harithmetic (hequals _)
  | less => exact harithmetic (htest _)
  | greater => exact harithmetic (htest _)
  | lessOrEqual => exact harithmetic (htest _)
  | greaterOrEqual => exact harithmetic (htest _)

theorem Function.places_arithmetic (x : Number) : Arithmetic (places x) := by
  cases x with
  | integer n => exact .ok _
  | scalar z => exact arithmetic_fail _

theorem Function.apply_arithmetic (f : Function) (args : List Number) : Arithmetic (f.apply args) := by
  have hunary : ∀ {onReals : Real → Outcome Real} {onComplex : Scalar → Outcome Scalar}, (∀ x, Arithmetic (onReals x)) →
      (∀ z, Arithmetic (onComplex z)) → ∀ x : Number, Arithmetic (x.unary (Scalar.unary onReals onComplex)) :=
    fun hreals hcomplex x => .map (Scalar.unary_arithmetic hreals hcomplex _)
  unfold apply
  split
  · exact Number.sqrt_arithmetic _
  · exact Number.abs_arithmetic _
  · exact hunary Real.sin_arithmetic Scalar.sinParts_arithmetic _
  · exact hunary Real.cos_arithmetic Scalar.cosParts_arithmetic _
  · exact hunary Real.tan_arithmetic Scalar.tanParts_arithmetic _
  · exact hunary Real.ln_arithmetic Scalar.lnParts_arithmetic _
  · exact hunary Real.exp_arithmetic Scalar.expParts_arithmetic _
  · exact hunary Real.log10_arithmetic Scalar.log10Parts_arithmetic _
  · exact .map (Scalar.binary_arithmetic Real.log_arithmetic Scalar.logParts_arithmetic _ _)
  · exact .map (Scalar.nearInteger_arithmetic _ _ _)
  · exact .map (Scalar.nearInteger_arithmetic _ _ _)
  · exact .bind (places_arithmetic _) fun _ _ => Number.roundTo_arithmetic _ _
  · exact .bind (places_arithmetic _) fun _ _ => Number.truncate_arithmetic _ _
  · exact .ok _
  · exact arithmetic_fail _

section Run

variable {cs : List Char} {lookup : Item → Outcome Number} (hlookup : ∀ i, i.StandsIn cs → FailsOn cs (lookup i))

include hlookup

/-- One step fails in the numeric channel or by a fault of the text. -/
theorem step_failsOn {item : Item} (hitem : item.StandsIn cs) (stack : List Number) :
    FailsOn cs (step lookup stack item) := by
  unfold step
  split
  · refine .ite (fun _ => failsOn_fail cs _) fun _ => ?_
    exact .bind (failsOn_of_arithmetic (Function.apply_arithmetic _ _)) fun _ _ => .ok _
  · split
    · exact .ok _
    · exact failsOn_fail cs _
  · rename_i op
    split
    · rename_i b a stack
      refine .bind ((Operator.apply_failsOnly op a b).mono ?_) fun _ _ => .ok _
      rintro f (h | ⟨rfl, rfl | rfl⟩)
      · exact escapes_of_isArithmetic h
      · exact fun _ => .exponent (hitem rfl)
      · exact fun _ => .division (hitem rfl)
    · exact failsOn_fail cs _
  · exact .bind (hlookup _ hitem) fun _ _ => .ok _
  · exact .bind (hlookup _ hitem) fun _ _ => .ok _

theorem run_failsOn {items : List Item} (hitems : ∀ i ∈ items, i.StandsIn cs) : FailsOn cs (run lookup items) := by
  refine .ite (fun _ => failsOn_fail cs _) fun _ =>
    .bind (.foldlM (fun i hi stack => step_failsOn hlookup (hitems i hi) stack) []) fun stack _ => ?_
  split
  · exact .ok _
  · exact failsOn_fail cs _

end Run

namespace Session

theorem operand_failsOn (s : Session) {cs : List Char} {item : Item} (hitem : item.StandsIn cs) :
    FailsOn cs (s.operand item) := by
  unfold operand
  split
  · split
    · exact .ok _
    · exact .ok _
    · exact failsOn_fail cs _
  · exact failsOn_of_sublist (literal_failsOn _) hitem
  · exact failsOn_fail cs _

/-- An expression fails in the numeric channel or by a fault of its text. -/
theorem evaluate_failsOn (s : Session) (expression : String) : FailsOn expression.toList (s.evaluate expression) := by
  have hnumeric : ∀ {α : Type} {x : Outcome α}, FailsOnly (fun f => ∃ n, f = .numeric n) x →
      FailsOn expression.toList x := by
    refine fun h => h.mono ?_
    rintro _ ⟨n, rfl⟩
    exact nofun
  obtain ⟨hlexemes, hpieces⟩ := lexemesFrom_spec 0 expression.toList
  refine .bind (hnumeric hlexemes) fun ls hls => ?_
  have htokens : ∀ t ∈ ls.map Token.ofLexeme, t.StandsIn expression.toList := by
    intro t ht
    obtain ⟨l, hl, rfl⟩ := List.mem_map.1 ht
    obtain ⟨hne, hsub⟩ := hpieces ls hls l hl
    exact standsIn_ofLexeme hne hsub
  have harranged : Arranged expression.toList (arrange (ls.map Token.ofLexeme)) :=
    arrangeFrom_arranged htokens (fun _ h => absurd h List.not_mem_nil) fun _ h => absurd h List.not_mem_nil
  refine .bind (hnumeric harranged.failsOnly) fun items hitems => ?_
  exact run_failsOn (fun i hi => s.operand_failsOn hi) (harranged.items items hitems)

end Session

/-! ## Answers -/

theorem exists_decimal_of_ofRat {q : ℚ} {x : Real} (h : Real.ofRat q = .ok x) :
    (∃ d, x = .big d) ∨ ∃ d, x = .recurring d := by
  unfold Real.ofRat Real.ofRatWithin at h
  split at h
  · obtain ⟨d, -, rfl⟩ := map_eq_ok.1 h
    exact .inl ⟨d, rfl⟩
  · obtain rfl := Except.ok.inj h
    exact .inr ⟨_, rfl⟩

/-- Showing a real number fails only if a repeating value leaves the range. -/
theorem display_real_range (x : Real) : InRange (Style.display.real x) := by
  cases x with
  | nan => exact .ok _
  | infinite negative => exact .ok _
  | irrational d => exact .ok _
  | small f b => exact .ok _
  | big d => exact .ok _
  | recurring d =>
    refine (Real.normalize_range _).bind fun y hy => ?_
    have hkind : (∃ d, y = .big d) ∨ ∃ d, y = .recurring d := by
      unfold Real.normalize at hy
      simp only at hy
      split at hy
      · exact exists_decimal_of_ofRat hy
      · exact .inr ⟨d, (Except.ok.inj hy).symm⟩
    rcases hkind with ⟨d, rfl⟩ | ⟨d, rfl⟩
    · exact .ok _
    · unfold Style.recurring
      simp only
      split
      · exact .ok _
      · exact .bind (Decimal.truncate_range _ _) fun _ _ => .ok _

theorem render_range (x : Number) : InRange (render x) := by
  have hcoefficient : ∀ im : Real, InRange (Style.display.coefficient im) := fun im =>
    .ite (fun _ => .ok _) fun _ => display_real_range _
  rcases x with n | (x | ⟨re, im⟩)
  · exact .ok _
  · exact display_real_range x
  · exact .ite (fun _ => display_real_range re) fun _ => .bind (hcoefficient im) fun _ _ =>
      .ite (fun _ => .ok _) fun _ => .bind (display_real_range re) fun _ _ => .ok _

theorem failsOn_of_range {cs : List Char} {x : Outcome α} (h : InRange x) : FailsOn cs x :=
  h.mono fun _ hf _ => .range hf

namespace Session

/-- The displays in a radix always have a text. -/
theorem radixDisplay_text_ok {r : RadixDisplay} (hr : r ∈ radixDisplays) (x : Number) :
    FailsOnly (fun _ => False) (r.text x) := by
  cases x with
  | scalar z => exact .ok _
  | integer n =>
    refine .bind ?_ fun _ _ => .ok _
    unfold toRadix
    rw [if_neg]
    · exact .ite (fun _ => .ok _) fun _ => .ok _
    · revert r
      decide

theorem argument?_sublist {command line e : String} (h : argument? command line = some e) :
    e.toList.Sublist line.toList := by
  unfold argument? at h
  simp only at h
  split at h
  · obtain rfl := Option.some.inj h
    rw [String.toList_ofList]
    exact (List.dropLast_sublist _).trans (List.drop_sublist _ _)
  · cases h

theorem splitAssignment_sublist {line name e : String} (h : splitAssignment line = some (name, e)) :
    e.toList.Sublist line.toList := by
  unfold splitAssignment at h
  simp only at h
  split at h
  · rename_i c after heq
    split at h
    · cases h
    · obtain rfl := (Prod.mk.inj (Option.some.inj h)).2
      rw [String.toList_ofList]
      refine (trim_sublist _).trans ?_
      have hdrop := List.dropWhile_sublist (fun x => x != '=') (l := line.toList)
      rw [heq] at hdrop
      exact (List.sublist_cons_self _ _).trans hdrop
  · cases h

/-! ## Lines -/

theorem display?_failsOn (s : Session) {line : String} {answer : Outcome String} (h : s.display? line = some answer) :
    FailsOn line.toList answer := by
  unfold display? at h
  split at h
  · rename_i hfind
    obtain rfl := Option.some.inj h
    obtain ⟨r, hr, hmap⟩ := List.exists_of_findSome?_eq_some hfind
    obtain ⟨e, he, heq⟩ := Option.map_eq_some_iff.1 hmap
    obtain ⟨rfl, rfl⟩ := Prod.mk.inj heq
    refine .bind (failsOn_of_sublist (s.evaluate_failsOn e) (argument?_sublist he)) fun x _ => ?_
    exact (radixDisplay_text_ok hr x).mono fun _ => False.elim
  · obtain ⟨e, he, rfl⟩ := Option.map_eq_some_iff.1 h
    refine .bind (failsOn_of_sublist (s.evaluate_failsOn e) (argument?_sublist he)) fun x _ => ?_
    exact .bind (failsOn_of_range (render_range x)) fun _ _ => .ok _

theorem calculate_failsOn (s : Session) (line : String) : FailsOn line.toList (s.calculate line).2 := by
  unfold calculate
  split
  · rename_i name expression hsplit
    have hevaluate := failsOn_of_sublist (s.evaluate_failsOn expression) (splitAssignment_sublist hsplit)
    split
    · exact .map (failsOn_of_range (render_range _))
    · rename_i e he
      exact .error (hevaluate e he)
  · split
    · rename_i answer hanswer
      exact s.display?_failsOn hanswer
    · exact .bind (s.evaluate_failsOn line) fun x _ => .bind (failsOn_of_range (render_range x)) fun _ _ => .ok _

theorem reported_failsOnly {cs : List Char} {answer : Outcome String} (h : FailsOn cs answer) :
    FailsOnly (TextFault cs) (reported answer) := by
  unfold reported
  split
  · rename_i e
    split
    · exact .ok _
    · rename_i hcode
      exact .error (h e rfl hcode)
  · rename_i hnot
    exact fun e he => absurd he (hnot e)

theorem listing_range (s : Session) : InRange s.listing :=
  .ite (fun _ => .ok _) fun _ => .bind (.mapM fun v _ => .bind (render_range v.2) fun _ _ => .ok _) fun _ _ => .ok _

/-- A line fails only by a fault of its text, whatever the session. -/
theorem execute_failsOnly (s : Session) (line : String) : FailsOnly (TextFault line.toList) (s.execute line).2 := by
  have hsub : (String.ofList (trim line.toList)).toList.Sublist line.toList := by
    rw [String.toList_ofList]
    exact trim_sublist _
  have hcalculate := (reported_failsOnly (s.calculate_failsOn (String.ofList (trim line.toList)))).mono
    fun _ h => h.mono hsub
  unfold execute
  split
  · exact .ok _
  · exact .ok _
  · exact .ok _
  · exact .ok _
  · exact .map (s.listing_range.mono fun _ => .range)
  · generalize s.calculate (String.ofList (trim line.toList)) = r at hcalculate ⊢
    exact .map hcalculate

end Session

end Reckon.Calculator
