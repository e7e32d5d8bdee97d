/-
Which expressions are accepted. The arranger asks only at signs whether an operand comes next, and the
stack loop only counts values; still, if no operand stands directly behind another one and commas
stand directly in calls, the count comes out at one value for well-formed expressions alone: every
operand that is missing, and every negation word in the place of one, lowers it. So among the
expressions that have a value those that the grammar does not derive are exactly the ones with such a
misplaced operand or comma.
-/
import Reckon.Proofs.Calculator.Failures
import Reckon.Proofs.Calculator.Infix
import Reckon.Proofs.Calculator.Lexemes

namespace Reckon.Calculator

/-! ## Counting values -/

/-- By how much an item changes the number of values. -/
def Item.gain : Item → ℤ
  | name _ | literal _ => 1
  | operator _ => -1
  | negate => 0
  | call _ n => 1 - n

/-- The gain of what waits, once it is released or its bracket is closed. -/
def Pending.gain : Pending → ℤ
  | operator _ => -1
  | negate | bracket => 0
  | call _ n => 1 - n

/-- The gain of items. -/
def total (items : List Item) : ℤ := (items.map Item.gain).sum

/-- The gain of all that waits and all that was put out. -/
def gain (stack : List Pending) (output : List Item) : ℤ := (stack.map Pending.gain).sum + total output

@[simp] theorem total_cons (item : Item) (items : List Item) : total (item :: items) = item.gain + total items := by
  simp [total]

@[simp] theorem gain_cons (p : Pending) (stack : List Pending) (output : List Item) :
    gain (p :: stack) output = p.gain + gain stack output := by
  simp [gain, add_assoc]

@[simp] theorem gain_output (stack : List Pending) (item : Item) (output : List Item) :
    gain stack (item :: output) = item.gain + gain stack output := by
  simp [gain, add_left_comm]

section

variable {lookup : Item → Outcome Number}

theorem length_step {stack stack' : List Number} {item : Item} (h : step lookup stack item = .ok stack') :
    (stack'.length : ℤ) = stack.length + item.gain := by
  cases item with
  | name s | literal s =>
    obtain ⟨x, -, h⟩ := Outcome.bind_eq_ok.1 h
    obtain rfl := Except.ok.inj h
    simp [Item.gain]
  | operator op =>
    match stack, h with
    | b :: a :: stack, h =>
      obtain ⟨x, -, h⟩ := Outcome.bind_eq_ok.1 h
      obtain rfl := Except.ok.inj h
      simp [Item.gain]
  | negate =>
    match stack, h with
    | x :: stack, h =>
      obtain rfl := Except.ok.inj h
      simp [Item.gain]
  | call f n =>
    simp only [step] at h
    split at h
    · cases h
    · rename_i hcount
      obtain ⟨x, -, h⟩ := Outcome.bind_eq_ok.1 h
      obtain rfl := Except.ok.inj h
      simp only [List.length_cons, List.length_drop, Item.gain]
      omega

theorem length_foldlM {items : List Item} : ∀ {stack stack' : List Number},
    items.foldlM (step lookup) stack = .ok stack' → (stack'.length : ℤ) = stack.length + total items := by
  induction items with
  | nil =>
    intro stack stack' h
    obtain rfl := Except.ok.inj h
    simp [total]
  | cons item items ih =>
    intro stack stack' h
    rw [List.foldlM_cons] at h
    obtain ⟨between, hstep, h⟩ := Outcome.bind_eq_ok.1 h
    rw [ih h, length_step hstep, total_cons, add_assoc]

/-- Items that have a value leave one value more. -/
theorem total_of_run {items : List Item} {x : Number} (h : run lookup items = .ok x) : total items = 1 := by
  unfold run at h
  split at h
  · cases h
  · obtain ⟨stack, hstack, h⟩ := Outcome.bind_eq_ok.1 h
    match stack, h with
    | [y], _ =>
      have := length_foldlM hstack
      simp at this
      omega

end

/-! ## Releasing keeps the count -/

/-- Of the open brackets, the innermost first, whether they are those of a call. -/
def openCalls (stack : List Pending) : List Bool := stack.filterMap fun
  | .bracket => some false
  | .call .. => some true
  | .operator _ | .negate => none

theorem gain_of_release {p : Pending} {item : Item} {n : Nat} (h : p.release? = some (item, n)) :
    item.gain = p.gain ∧ ∀ stack, openCalls (p :: stack) = openCalls stack := by
  cases p with
  | bracket | call => cases h
  | _ =>
    obtain rfl := (Prod.mk.inj (Option.some.inj h)).1
    exact ⟨rfl, fun _ => rfl⟩

theorem releaseBefore_gain (op : Operator) (stack : List Pending) (output : List Item) :
    gain (releaseBefore op stack output).1 (releaseBefore op stack output).2 = gain stack output ∧
      openCalls (releaseBefore op stack output).1 = openCalls stack := by
  fun_induction releaseBefore op stack output with
  | case1 output p stack item n hrelease _ ih =>
    obtain ⟨hgain, hopen⟩ := gain_of_release hrelease
    rw [ih.1, ih.2, gain_output, gain_cons, hgain, hopen]
    exact ⟨rfl, rfl⟩
  | case2 | case3 | case4 => exact ⟨rfl, rfl⟩

theorem releaseAll_gain (stack : List Pending) (output : List Item) :
    gain (releaseAll stack output).1 (releaseAll stack output).2 = gain stack output ∧
      openCalls (releaseAll stack output).1 = openCalls stack ∧ ∀ p ∈ (releaseAll stack output).1.head?, p.release? = none := by
  fun_induction releaseAll stack output with
  | case1 output p stack item n hrelease ih =>
    obtain ⟨hgain, hopen⟩ := gain_of_release hrelease
    rw [ih.1, ih.2.1, gain_output, gain_cons, hgain, hopen]
    exact ⟨rfl, rfl, ih.2.2⟩
  | case2 output p stack hnone =>
    refine ⟨rfl, rfl, fun q hq => ?_⟩
    obtain rfl := Option.some.inj hq
    exact hnone
  | case3 => exact ⟨rfl, rfl, fun _ hp => by cases hp⟩

/-- A comma in a call takes one value more to it. -/
theorem countArgument_gain {stack stack' : List Pending} (output : List Item) (htop : ∀ p ∈ stack.head?, p.release? = none)
    (hcall : (openCalls stack).head? = some true) (h : countArgument stack = some stack') :
    gain stack' output = gain stack output - 1 ∧ openCalls stack' = openCalls stack := by
  cases stack with
  | nil => cases h
  | cons p stack =>
    cases p with
    | call f n =>
      obtain rfl := Option.some.inj h
      refine ⟨?_, rfl⟩
      rw [gain_cons, gain_cons, Pending.gain, Pending.gain]
      push_cast
      ring
    | bracket => cases hcall
    | operator op => cases htop _ rfl
    | negate => cases htop _ rfl

/-! ## Placement -/

/-- Operands begin only where one comes next, and a comma stands directly between the brackets of a
call; what is missing is not asked for. -/
@[simp] def isPlaced : List Token → (start : Bool) → (calls : List Bool) → Bool
  | [], _, _ => true
  | .operator _ :: rest, _, calls => isPlaced rest true calls
  | .word s :: .opening :: rest, start, calls =>
    start && (Function.ofName? s).isSome && isPlaced rest true (true :: calls)
  | .word _ :: rest, start, calls | .literal _ :: rest, start, calls => start && isPlaced rest false calls
  | .opening :: rest, start, calls => start && isPlaced rest true (false :: calls)
  | .comma :: rest, _, calls => calls.head? == some true && isPlaced rest true calls
  | .closing :: rest, _, calls => isPlaced rest false calls.tail
  | .blank :: rest, _, calls => isPlaced rest true calls

theorem isPlaced_word {rest : List Token} (h : rest.head? ≠ some .opening) (s : String) (start : Bool) (calls : List Bool) :
    isPlaced (.word s :: rest) start calls = (start && isPlaced rest false calls) := by
  cases rest with
  | nil => rfl
  | cons t rest =>
    cases t with
    | opening => exact absurd rfl h
    | _ => rfl

theorem isPlaced_of_isInfix {tokens : List Token} {start : Bool} {calls : List Bool}
    (h : isInfix tokens start calls = true) : isPlaced tokens start calls = true := by
  fun_induction isInfix tokens start calls with
  | case1 => rfl
  | case2 op rest start calls ih => exact ih (Bool.and_eq_true_iff.1 h).2
  | case3 s rest start calls ih =>
    rw [Bool.and_eq_true_iff] at h
    simp [h.1, ih h.2]
  | case4 s rest start calls _ ih =>
    rw [Bool.and_eq_true_iff] at h
    simp [h.1, ih h.2]
  | case5 s rest start calls _ hopening ih =>
    simp only [Bool.and_eq_true] at h
    have hhead : rest.head? ≠ some .opening := by
      intro hhead
      obtain ⟨rest', rfl⟩ := List.head?_eq_some_iff.1 hhead
      exact hopening rest' rfl
    rw [isPlaced_word hhead, h.1.1, ih h.2]
    rfl
  | case6 s rest start calls ih =>
    rw [Bool.and_eq_true_iff] at h
    simp [h.1, ih h.2]
  | case7 rest start calls ih =>
    rw [Bool.and_eq_true_iff] at h
    simp [h.1, ih h.2]
  | case8 rest start calls ih =>
    simp only [Bool.and_eq_true] at h
    rw [isPlaced, h.1.2, ih h.2]
    rfl
  | case9 rest start calls ih => exact ih (Bool.and_eq_true_iff.1 h).2
  | case10 => cases h

/-! ## The balance -/

/-- What the items can gain at most: what there is, and an operand if one comes next. -/
def bound (start : Bool) (stack : List Pending) (output : List Item) : ℤ := gain stack output + if start then 1 else 0

/-- The items gain at most what they can, and just as much only if the tokens are infix. -/
def Balanced (tokens : List Token) (start : Bool) (stack : List Pending) (output : List Item) (items : List Item) : Prop :=
  total items ≤ bound start stack output ∧ (total items = bound start stack output →
    isInfix tokens start (openCalls stack) = true)

section

variable {tokens rest : List Token} {start start' : Bool} {stack stack' : List Pending} {output output' items : List Item}

theorem Balanced.of_rest (h : Balanced rest start' stack' output' items) (hle : bound start' stack' output' ≤ bound start stack output)
    (hscan : bound start' stack' output' = bound start stack output → isInfix rest start' (openCalls stack') = true →
      isInfix tokens start (openCalls stack) = true) : Balanced tokens start stack output items := by
  refine ⟨h.1.trans hle, fun heq => ?_⟩
  have hsame := le_antisymm hle (heq ▸ h.1)
  exact hscan hsame (h.2 (heq.trans hsame.symm))

theorem Balanced.sign {op : Operator} (h : Balanced rest true stack' output items) (hop : op = .add ∨ op = .sub)
    (hgain : gain stack' output = gain stack output) (hopen : openCalls stack' = openCalls stack) :
    Balanced (.operator op :: rest) true stack output items := by
  refine h.of_rest ?_ fun _ hscan => ?_
  · simp [bound, hgain]
  · rw [hopen] at hscan
    simpa [hscan] using hop

theorem Balanced.operator {op : Operator}
    (h : Balanced rest true (.operator op :: (releaseBefore op stack output).1) (releaseBefore op stack output).2 items) :
    Balanced (.operator op :: rest) false stack output items := by
  obtain ⟨hgain, hopen⟩ := releaseBefore_gain op stack output
  have hopen' : openCalls (.operator op :: (releaseBefore op stack output).1) = openCalls stack := hopen
  refine h.of_rest ?_ fun _ hscan => ?_
  · simp [bound, hgain, Pending.gain]
  · simpa [hopen'] using hscan

/-- In the place of an operand what goes on behind one leaves a value missing. -/
theorem Balanced.misplaced (h : Balanced tokens false stack output items) : Balanced tokens true stack output items := by
  refine h.of_rest ?_ fun heq => ?_
  · simp [bound]
  · simp [bound] at heq

theorem Balanced.opening (h : Balanced rest true (.bracket :: stack) output items) :
    Balanced (.opening :: rest) true stack output items := by
  refine h.of_rest ?_ fun _ hscan => hscan
  simp [bound, Pending.gain]

theorem Balanced.literal {s : String} (h : Balanced rest false stack (.literal s :: output) items) :
    Balanced (.literal s :: rest) true stack output items := by
  refine h.of_rest ?_ fun _ hscan => hscan
  simp [bound, Item.gain, add_comm]

/-- The word for the negation gives no value. -/
theorem Balanced.word {s : String} (h : Balanced rest false stack (.ofWord s :: output) items)
    (hopening : rest.head? ≠ some .opening) : Balanced (.word s :: rest) true stack output items := by
  by_cases hneg : s = negationWord
  · subst hneg
    refine h.of_rest ?_ fun heq => ?_
    · simp [bound, Item.ofWord, Item.gain]
    · simp [bound, Item.ofWord, Item.gain] at heq
  · refine h.of_rest ?_ fun _ hscan => ?_
    · simp [bound, Item.ofWord, hneg, Item.gain, add_comm]
    · simpa [isInfix_word _ _ hopening, hneg] using hscan

section

variable {s : String} {f : Function}

theorem Balanced.call (h : Balanced rest true (.call f 1 :: stack) output items) (hf : Function.ofName? s = some f)
    (hclosing : rest.head? ≠ some .closing) :
    Balanced (.word s :: .opening :: rest) true stack output items := by
  refine h.of_rest ?_ fun _ hscan => ?_
  · simp [bound, Pending.gain]
  · rw [isInfix_call _ _ hclosing, hf]
    exact hscan

theorem Balanced.emptyCall (h : Balanced rest false stack (.call f 0 :: output) items) (hf : Function.ofName? s = some f) :
    Balanced (.word s :: .opening :: .closing :: rest) true stack output items := by
  refine h.of_rest ?_ fun _ hscan => ?_
  · simp [bound, Item.gain, add_comm]
  · simpa [hf] using hscan

end

theorem Balanced.comma (h : Balanced rest true stack' output' items) (hcall : (openCalls stack).head? = some true)
    (hgain : gain stack' output' = gain stack output - 1) (hopen : openCalls stack' = openCalls stack) :
    Balanced (.comma :: rest) start stack output items := by
  refine h.of_rest ?_ fun heq hscan => ?_
  · cases start <;> simp [bound, hgain]
  · cases start
    · rw [hopen] at hscan
      simpa [hscan] using hcall
    · simp [bound, hgain] at heq

/-- What stood between brackets counts as the bracket did. -/
theorem Balanced.closing {call : Bool} (h : Balanced rest false stack' output' items)
    (hgain : gain stack' output' = gain stack output) (hopen : call :: openCalls stack' = openCalls stack) :
    Balanced (.closing :: rest) start stack output items := by
  refine h.of_rest ?_ fun heq hscan => ?_
  · cases start <;> simp [bound, hgain]
  · cases start
    · simpa [← hopen] using hscan
    · simp [bound, hgain] at heq

theorem balanced_nil (h : arrangeFrom [] start stack output = .ok items) : Balanced [] start stack output items := by
  obtain ⟨hgain, hopen, -⟩ := releaseAll_gain stack output
  rw [arrangeFrom_nil] at h
  split at h
  · rename_i output' hrelease
    obtain rfl := Except.ok.inj h
    rw [hrelease] at hgain hopen
    have htotal : total output'.reverse = gain stack output := by
      rw [← hgain]
      simp [total, gain]
    unfold Balanced bound
    rw [htotal, ← hopen]
    cases start
    · exact ⟨by simp, fun _ => rfl⟩
    · exact ⟨by simp, fun heq => absurd heq (by simp)⟩
  · cases h

end

theorem arrangeFrom_misplaced {op : Operator} (h : ¬ (op = .add ∨ op = .sub)) (rest : List Token) (stack : List Pending)
    (output : List Item) :
    arrangeFrom (.operator op :: rest) true stack output = arrangeFrom (.operator op :: rest) false stack output := by
  cases op <;> first | rfl | exact absurd (by decide) h

/-- Every list of fewer than `n` placed tokens is arranged to balanced items. -/
def BalancedBelow (n : Nat) : Prop := ∀ {tokens : List Token} {start : Bool} {stack : List Pending} {output items : List Item},
  tokens.length < n → arrangeFrom tokens start stack output = .ok items → isPlaced tokens start (openCalls stack) = true →
    Balanced tokens start stack output items

namespace BalancedBelow

variable {n : Nat} {rest : List Token} {start : Bool} {stack : List Pending} {output items : List Item}

theorem operator (ih : BalancedBelow n) (hn : rest.length < n) {op : Operator}
    (h : arrangeFrom (.operator op :: rest) start stack output = .ok items)
    (hplaced : isPlaced rest true (openCalls stack) = true) : Balanced (.operator op :: rest) start stack output items := by
  have hbetween : arrangeFrom (.operator op :: rest) false stack output = .ok items →
      Balanced (.operator op :: rest) false stack output items := by
    intro h
    have hopen := (releaseBefore_gain op stack output).2
    rw [arrangeFrom_between] at h
    exact (ih hn h (hopen.symm ▸ hplaced)).operator
  cases start with
  | false => exact hbetween h
  | true =>
    by_cases hsign : op = .add ∨ op = .sub
    · obtain rfl | rfl := hsign
      · rw [arrangeFrom_plus] at h
        exact (ih hn h hplaced).sign (.inl rfl) rfl rfl
      · rw [arrangeFrom_minus] at h
        exact (ih hn h hplaced).sign (.inr rfl) (by simp [Pending.gain]) rfl
    · rw [arrangeFrom_misplaced hsign] at h
      exact (hbetween h).misplaced

theorem call (ih : BalancedBelow n) (hn : rest.length < n) {s : String}
    (h : arrangeFrom (.word s :: .opening :: rest) start stack output = .ok items)
    (hplaced : isPlaced (.word s :: .opening :: rest) start (openCalls stack) = true) :
    Balanced (.word s :: .opening :: rest) start stack output items := by
  simp only [isPlaced, Bool.and_eq_true, Option.isSome_iff_exists] at hplaced
  obtain ⟨⟨rfl, f, hf⟩, hplaced⟩ := hplaced
  rw [arrangeFrom_function _ _ _ _ hf] at h
  by_cases hclosing : rest.head? = some .closing
  · obtain ⟨rest, rfl⟩ := List.head?_eq_some_iff.1 hclosing
    rw [List.length_cons] at hn
    have h' : arrangeFrom rest false stack (.call f 0 :: output) = .ok items := h
    exact (ih (by omega) h' hplaced).emptyCall hf
  · rw [if_neg (by simpa using hclosing)] at h
    exact (ih hn h hplaced).call hf hclosing

theorem comma (ih : BalancedBelow n) (hn : rest.length < n)
    (h : arrangeFrom (.comma :: rest) start stack output = .ok items)
    (hplaced : isPlaced (.comma :: rest) start (openCalls stack) = true) :
    Balanced (.comma :: rest) start stack output items := by
  obtain ⟨hcall, hplaced⟩ := Bool.and_eq_true_iff.1 hplaced
  rw [beq_iff_eq] at hcall
  obtain ⟨hgain, hopen, htop⟩ := releaseAll_gain stack output
  rw [arrangeFrom_comma] at h
  cases hcount : countArgument (releaseAll stack output).1 with
  | none =>
    rw [hcount] at h
    cases h
  | some stack' =>
    rw [hcount] at h
    obtain ⟨hgain', hopen'⟩ := countArgument_gain (releaseAll stack output).2 htop (hopen.symm ▸ hcall) hcount
    rw [hopen] at hopen'
    exact (ih hn h (hopen'.symm ▸ hplaced)).comma hcall (by rw [hgain', hgain]) hopen'

theorem closing (ih : BalancedBelow n) (hn : rest.length < n)
    (h : arrangeFrom (.closing :: rest) start stack output = .ok items)
    (hplaced : isPlaced (.closing :: rest) start (openCalls stack) = true) :
    Balanced (.closing :: rest) start stack output items := by
  obtain ⟨hgain, hopen, htop⟩ := releaseAll_gain stack output
  rw [arrangeFrom_closing] at h
  revert h
  generalize releaseAll stack output = released at *
  obtain ⟨stack', output'⟩ := released
  rw [← hopen] at hplaced
  intro h
  match stack', h with
  | .bracket :: stack', h => exact (ih hn h hplaced).closing (by simpa [Pending.gain] using hgain) hopen
  | .call f n :: stack', h => exact (ih hn h hplaced).closing (by simpa [Pending.gain, Item.gain] using hgain) hopen
  | .operator op :: stack', h => cases htop _ rfl
  | .negate :: stack', h => cases htop _ rfl

end BalancedBelow

/-- The step of each token; the induction is on how many are left because a call takes two or three at
once. -/
theorem balancedBelow (n : Nat) : BalancedBelow n := by
  -- a call takes two tokens at once, so the induction is on a bound for their number
  induction n with
  | zero => exact fun h => absurd h (Nat.not_lt_zero _)
  | succ n ih =>
    intro tokens start stack output items hn h hplaced
    cases tokens with
    | nil => exact balanced_nil h
    | cons t rest =>
      rw [List.length_cons, Nat.add_lt_add_iff_right] at hn
      cases t with
      | operator op => exact ih.operator hn h hplaced
      | comma => exact ih.comma hn h hplaced
      | closing => exact ih.closing hn h hplaced
      | blank => cases h
      | opening =>
        obtain ⟨rfl, hplaced⟩ := Bool.and_eq_true_iff.1 hplaced
        rw [arrangeFrom_opening] at h
        exact (ih hn h hplaced).opening
      | literal s =>
        obtain ⟨rfl, hplaced⟩ := Bool.and_eq_true_iff.1 hplaced
        rw [arrangeFrom_literal] at h
        exact (ih hn h hplaced).literal
      | word s =>
        by_cases hopening : rest.head? = some .opening
        · obtain ⟨rest, rfl⟩ := List.head?_eq_some_iff.1 hopening
          rw [List.length_cons] at hn
          exact ih.call (by omega) h hplaced
        · rw [isPlaced_word hopening, Bool.and_eq_true_iff] at hplaced
          obtain ⟨rfl, hplaced⟩ := hplaced
          rw [arrangeFrom_word _ _ _ hopening] at h
          exact (ih hn h hplaced).word hopening

/-! ## Acceptance -/

/-- Among the tokens that leave one value those of an expression are the placed ones. -/
theorem isInfix_iff_isPlaced {tokens : List Token} {items : List Item} (h : arrange tokens = .ok items)
    (htotal : total items = 1) : isInfix tokens true [] = true ↔ isPlaced tokens true [] = true :=
  ⟨isPlaced_of_isInfix, fun hplaced =>
    (balancedBelow _ (Nat.lt_succ_self _) h hplaced).2 (by rw [htotal]; rfl)⟩

theorem exists_of_evaluate {s : Session} {text : String} {ts : List String} (hts : lexemes text = .ok ts) {x : Number}
    (h : s.evaluate text = .ok x) : ∃ items, arrange (ts.map Token.ofLexeme) = .ok items ∧ total items = 1 := by
  obtain ⟨us, hus, h⟩ := Outcome.bind_eq_ok.1 h
  obtain rfl := Except.ok.inj (hts.symm.trans hus)
  obtain ⟨items, harrange, hrun⟩ := Outcome.bind_eq_ok.1 h
  exact ⟨items, harrange, total_of_run hrun⟩

end Reckon.Calculator
