/-
The grammar of expressions from left to right. A list of tokens is an expression exactly if a scan
that knows whether an operand comes next and which brackets are open goes through: operands and
operators alternate, signs stand before an operand, brackets match, and a comma stands directly
between the arguments of a call. What was scanned is an expression, or expects the next operand; an
operator and an operand more give an expression again, whatever the precedences.
-/
import Reckon.Proofs.Calculator.Arrangement

namespace Reckon.Calculator

/-! ## The scan -/

/-- The tokens go on as an expression does. With `start` an operand comes next; `calls` says of the
open brackets, the innermost first, whether they are those of a call. -/
@[simp] def isInfix : List Token → (start : Bool) → (calls : List Bool) → Bool
  | [], start, calls => !start && calls.isEmpty
  | .operator op :: rest, start, calls => (!start || op == .add || op == .sub) && isInfix rest true calls
  | .word s :: .opening :: .closing :: rest, start, calls =>
    start && (Function.ofName? s).isSome && isInfix rest false calls
  | .word s :: .opening :: rest, start, calls =>
    start && (Function.ofName? s).isSome && isInfix rest true (true :: calls)
  | .word s :: rest, start, calls => start && s != negationWord && isInfix rest false calls
  | .literal _ :: rest, start, calls => start && isInfix rest false calls
  | .opening :: rest, start, calls => start && isInfix rest true (false :: calls)
  | .comma :: rest, start, calls => !start && calls.head? == some true && isInfix rest true calls
  | .closing :: rest, start, calls => !start && !calls.isEmpty && isInfix rest false calls.tail
  | .blank :: _, _, _ => false

section

variable (rest : List Token) (start : Bool) (calls : List Bool)

theorem isInfix_word {rest : List Token} (h : rest.head? ≠ some .opening) (s : String) :
    isInfix (.word s :: rest) start calls = (start && s != negationWord && isInfix rest false calls) := by
  cases rest with
  | nil => rfl
  | cons t rest =>
    cases t with
    | opening => exact absurd rfl h
    | _ => rfl

theorem isInfix_call {rest : List Token} (h : rest.head? ≠ some .closing) (s : String) :
    isInfix (.word s :: .opening :: rest) start calls =
      (start && (Function.ofName? s).isSome && isInfix rest true (true :: calls)) := by
  cases rest with
  | nil => rfl
  | cons t rest =>
    cases t with
    | closing => exact absurd rfl h
    | _ => rfl

end

/-! ## Tokens as texts -/

/-- The text of a token. -/
def Token.text : Token → String
  | operator op => op.symbol
  | opening => "("
  | closing => ")"
  | comma => ","
  | word s | literal s => s
  | blank => ""

/-- The role of the token is that of its text. -/
def Token.IsRead (t : Token) : Prop := Token.ofLexeme t.text = t

theorem text_ofLexeme (s : String) : (Token.ofLexeme s).text = s := by
  unfold Token.ofLexeme
  split
  · rename_i op _ hop
    have hsymbol := List.find?_some hop
    exact beq_iff_eq.1 hsymbol
  · rfl
  · rfl
  · rfl
  · rfl
  · split <;> rfl

theorem isRead_ofLexeme (s : String) : (Token.ofLexeme s).IsRead := by
  rw [Token.IsRead, text_ofLexeme]

/-- A word other than that for the negation is an operand by itself, and so is a literal. -/
theorem isLeaf_of_isRead {s : String} (h : Token.ofLexeme s = .word s ∨ Token.ofLexeme s = .literal s)
    (hneg : s ≠ negationWord) : IsLeaf s where
  ne_empty := by
    rintro rfl
    revert h
    decide
  not_operator := by
    rintro op rfl
    rw [ofLexeme_symbol] at h
    rcases h with h | h <;> cases h
  not_bracket := by
    constructor <;> rintro rfl <;> revert h <;> decide
  ne_comma := by
    rintro rfl
    revert h
    decide
  ne_negation := hneg

/-! ## One operand more -/

theorem Derives.next_of_unary {level : Level} {op : Operator} (hop : op ∈ level.operators) {us : List String} {u : Expr}
    (h : Derives .unary us u) : Derives level.next us u := by
  cases level with
  | comparison => exact .operand (.operand h)
  | sum => exact .operand h
  | product => exact h
  | unary | power | atom => exact absurd hop List.not_mem_nil

theorem eq_power_of_le : ∀ {op : Operator}, Level.power.floor ≤ op.precedence → op = .power := by
  intro op
  cases op <;> decide

/-- An operator that binds tighter than those of a level does not bind weaker than the next one. -/
theorem Level.next_floor_le {level : Level} (hpower : level ≠ .power) (hatom : level ≠ .atom) {op : Operator}
    (h : level.floor ≤ op.precedence) (hop : op ∉ level.operators) :
    level.next ≠ .atom ∧ level.next.floor ≤ op.precedence := by
  cases level <;> first | exact absurd rfl hpower | exact absurd rfl hatom | cases op <;> revert h hop <;> decide

/-- An operator of the level or of a tighter one and one more operand keep an expression of the level:
they go to the right of the last operator that binds weaker. -/
theorem Derives.concat {level : Level} {ts : List String} {e : Expr} (h : Derives level ts e) (hlevel : level ≠ .atom)
    {op : Operator} (hop : level.floor ≤ op.precedence) {us : List String} {u : Expr} (hu : Derives .unary us u) :
    ∃ e', Derives level (ts ++ op.symbol :: us) e' := by
  -- the operand goes to the right end of the derivation, down to the level of its operator
  induction h with
  | @binary level op' xs ys l r hop' hl hr _ ih =>
    by_cases hmem : op ∈ level.operators
    · exact ⟨_, .binary hmem (.binary hop' hl hr) (hu.next_of_unary hmem)⟩
    · have hpower : level ≠ .power := by rintro rfl; cases hop'
      obtain ⟨hne, hnext⟩ := Level.next_floor_le hpower hlevel hop hmem
      obtain ⟨e', he'⟩ := ih hne hnext
      exact ⟨_, by simpa using Derives.binary hop' hl he'⟩
  | @operand level ts e h ih =>
    by_cases hpower : level = .power
    · subst hpower
      obtain rfl := eq_power_of_le hop
      exact ⟨_, .power h hu⟩
    by_cases hmem : op ∈ level.operators
    · exact ⟨_, .binary hmem (.operand h) (hu.next_of_unary hmem)⟩
    · obtain ⟨hne, hnext⟩ := Level.next_floor_le hpower hlevel hop hmem
      obtain ⟨e', he'⟩ := ih hne hnext
      exact ⟨e', .operand he'⟩
  | minus _ ih =>
    obtain ⟨e', he'⟩ := ih nofun hop
    exact ⟨_, .minus he'⟩
  | plus _ ih =>
    obtain ⟨e', he'⟩ := ih nofun hop
    exact ⟨_, .plus he'⟩
  | power hl _ _ ih =>
    obtain ⟨e', he'⟩ := ih nofun hop
    exact ⟨_, by simpa using Derives.power hl he'⟩
  | leaf | group | call => exact absurd rfl hlevel

/-! ## What was scanned -/

/-- The text of tokens. -/
def texts (ts : List Token) : List String := ts.map Token.text

@[simp] theorem texts_nil : texts [] = [] := rfl

@[simp] theorem texts_cons (t : Token) (ts : List Token) : texts (t :: ts) = t.text :: texts ts := rfl

@[simp] theorem texts_append (ts us : List Token) : texts (ts ++ us) = texts ts ++ texts us := List.map_append

/-- An operand makes an expression of the texts. -/
def Expects (before : List String) : Prop :=
  ∀ us u, Derives .unary us u → ∃ e, Derives .comparison (before ++ us) e

/-- With `start` the texts expect an operand, else they are an expression. -/
def Stands (before : List String) : (start : Bool) → Prop
  | true => Expects before
  | false => ∃ e, Derives .comparison before e

section

variable {before : List String} {us : List String} {u : Expr}

theorem expects_nil : Expects [] := fun _ _ h => ⟨_, .operand (.operand (.operand h))⟩

theorem Expects.sign (h : Expects before) {op : Operator} (hop : op = .add ∨ op = .sub) : Expects (before ++ [op.symbol]) := by
  intro us u hu
  rw [List.append_assoc, List.singleton_append]
  rcases hop with rfl | rfl
  · exact h _ _ (.plus hu)
  · exact h _ _ (.minus hu)

theorem expects_operator {e : Expr} (h : Derives .comparison before e) (op : Operator) : Expects (before ++ [op.symbol]) := by
  intro us u hu
  rw [List.append_assoc, List.singleton_append]
  exact h.concat nofun (by cases op <;> decide) hu

theorem Expects.atom (h : Expects before) (hu : Derives .atom us u) : Stands (before ++ us) false :=
  h _ _ (.operand (.operand hu))

end

/-- Behind the texts an expression goes on to a bracket, a comma or the end, and what follows it is
scanned as well. -/
def BeginsExpression (before : List String) (calls : List Bool) (ts : List Token) : Prop :=
  ∃ us rest, ts = us ++ rest ∧ Stands (before ++ texts us) false ∧ isInfix rest false calls = true ∧
    (rest = [] ∨ (∃ rest', rest = .closing :: rest') ∨ ∃ rest', rest = .comma :: rest')

theorem BeginsExpression.of_append {before : List String} {calls : List Bool} {ts : List Token} (us : List Token)
    (h : BeginsExpression (before ++ texts us) calls ts) : BeginsExpression before calls (us ++ ts) := by
  obtain ⟨vs, rest, rfl, hstands, hscan, hends⟩ := h
  exact ⟨us ++ vs, rest, (List.append_assoc _ _ _).symm, by rwa [texts_append, ← List.append_assoc], hscan, hends⟩

/-- Every list of fewer than `n` tokens that is scanned begins with an expression. -/
def BeginsBelow (n : Nat) : Prop := ∀ ts : List Token, ts.length < n → (∀ t ∈ ts, t.IsRead) → ∀ before start calls,
  Stands before start → isInfix ts start calls = true → BeginsExpression before calls ts

/-- Between the brackets of a group stands an expression. -/
theorem exists_group {n : Nat} (ih : BeginsBelow n) {ts : List Token} (hn : ts.length < n) (hread : ∀ t ∈ ts, t.IsRead)
    {calls : List Bool} (h : isInfix ts true (false :: calls) = true) : ∃ us rest, ts = us ++ .closing :: rest ∧
      (∃ e, Derives .atom ("(" :: texts us ++ [")"]) e) ∧ isInfix rest false calls = true := by
  obtain ⟨us, rest, rfl, ⟨e, he⟩, hscan, hends⟩ := ih ts hn hread [] true _ expects_nil h
  obtain rfl | ⟨rest', rfl⟩ | ⟨rest', rfl⟩ := hends
  · cases hscan
  · exact ⟨us, rest', rfl, ⟨e, .group he⟩, by simpa using hscan⟩
  · cases hscan

/-- Between the brackets of a call stand expressions with commas between them. -/
theorem exists_arguments {n : Nat} (ih : BeginsBelow n) {ts : List Token} (hn : ts.length < n)
    (hread : ∀ t ∈ ts, t.IsRead) {calls : List Bool} (h : isInfix ts true (true :: calls) = true) :
    ∃ us rest, ∃ args : List (List String × Expr), args ≠ [] ∧ ts = us ++ .closing :: rest ∧
      texts us = [","].intercalate (args.map Prod.fst) ∧ (∀ a ∈ args, Derives .comparison a.1 a.2) ∧
      isInfix rest false calls = true := by
  -- one argument more for every comma
  induction hlen : ts.length using Nat.strong_induction_on generalizing ts with
  | _ len ihlen =>
    obtain ⟨us, rest, rfl, ⟨e, he⟩, hscan, hends⟩ := ih ts hn hread [] true _ expects_nil h
    obtain rfl | ⟨rest', rfl⟩ | ⟨rest', rfl⟩ := hends
    · cases hscan
    · refine ⟨us, rest', [(texts us, e)], nofun, rfl, by simp [List.intercalate], ?_, by simpa using hscan⟩
      simpa using he
    · rw [List.length_append, List.length_cons] at hn hlen
      obtain ⟨vs, rest, args, hne, rfl, htexts, hargs, hrest⟩ := ihlen rest'.length (by omega) (by omega)
        (fun t ht => hread t (by simp [ht])) (by simpa using hscan) rfl
      refine ⟨us ++ .comma :: vs, rest, (texts us, e) :: args, nofun, by simp, ?_, ?_, hrest⟩
      · obtain ⟨a, args, rfl⟩ := List.exists_cons_of_ne_nil hne
        simp [List.intercalate, htexts, Token.text]
      · rw [List.forall_mem_cons]
        exact ⟨he, hargs⟩

/-- Behind the opening bracket of a call stand arguments, or none. -/
theorem exists_call {n : Nat} (ih : BeginsBelow n) {s : String} {ts : List Token} (hn : ts.length < n)
    (hread : ∀ t ∈ ts, t.IsRead) {start : Bool} {calls : List Bool}
    (h : isInfix (.word s :: .opening :: ts) start calls = true) : start = true ∧ ∃ us rest, ts = us ++ .closing :: rest ∧
      (∃ e, Derives .atom (s :: "(" :: texts us ++ [")"]) e) ∧ isInfix rest false calls = true := by
  by_cases hclosing : ts.head? = some .closing
  · obtain ⟨rest, rfl⟩ := List.head?_eq_some_iff.1 hclosing
    simp only [isInfix, Bool.and_eq_true, Option.isSome_iff_exists] at h
    obtain ⟨⟨hstart, f, hf⟩, h⟩ := h
    have hcall := @Derives.call s f [] hf fun _ ha => absurd ha List.not_mem_nil
    exact ⟨hstart, [], rest, rfl, ⟨_, hcall⟩, h⟩
  · rw [isInfix_call _ _ hclosing] at h
    simp only [Bool.and_eq_true, Option.isSome_iff_exists] at h
    obtain ⟨⟨hstart, f, hf⟩, h⟩ := h
    obtain ⟨us, rest, args, -, rfl, htexts, hargs, hrest⟩ := exists_arguments ih hn hread h
    have hcall := Derives.call hf hargs
    rw [← htexts] at hcall
    exact ⟨hstart, us, rest, rfl, ⟨_, hcall⟩, hrest⟩

/-- Of the tokens that begin an operand: what is left after them is scanned, and they are an atom. -/
theorem exists_atom {n : Nat} (ih : BeginsBelow n) {t : Token} {ts : List Token} (hn : ts.length < n)
    (hread : ∀ u ∈ t :: ts, u.IsRead) {start : Bool} {calls : List Bool} (h : isInfix (t :: ts) start calls = true)
    (ht : t = .opening ∨ (∃ s, t = .word s) ∨ ∃ s, t = .literal s) : start = true ∧ ∃ us rest, t :: ts = us ++ rest ∧
      (∃ e, Derives .atom (texts us) e) ∧ isInfix rest false calls = true ∧ rest.length ≤ ts.length := by
  obtain ⟨hfirst, hts⟩ := List.forall_mem_cons.1 hread
  obtain rfl | ⟨s, rfl⟩ | ⟨s, rfl⟩ := ht
  · obtain ⟨hstart, h⟩ := Bool.and_eq_true_iff.1 h
    obtain ⟨us, rest, rfl, ⟨e, he⟩, hrest⟩ := exists_group ih hn hts h
    refine ⟨hstart, .opening :: us ++ [.closing], rest, by simp, ⟨e, by simpa [Token.text] using he⟩, hrest, ?_⟩
    simp
    omega
  · by_cases hopening : ts.head? = some .opening
    · obtain ⟨ts, rfl⟩ := List.head?_eq_some_iff.1 hopening
      rw [List.length_cons] at hn
      obtain ⟨hstart, us, rest, rfl, ⟨e, he⟩, hrest⟩ := exists_call ih (by omega) (List.forall_mem_cons.1 hts).2 h
      refine ⟨hstart, .word s :: .opening :: us ++ [.closing], rest, by simp, ⟨e, by simpa [Token.text] using he⟩,
        hrest, ?_⟩
      simp
      omega
    · rw [isInfix_word _ _ hopening] at h
      simp only [Bool.and_eq_true, bne_iff_ne] at h
      exact ⟨h.1.1, [.word s], ts, rfl, ⟨_, .leaf (isLeaf_of_isRead (.inl hfirst) h.1.2)⟩, h.2, le_rfl⟩
  · have hneg : s ≠ negationWord := by
      rintro rfl
      exact absurd hfirst (by unfold Token.IsRead; decide)
    obtain ⟨hstart, h⟩ := Bool.and_eq_true_iff.1 h
    exact ⟨hstart, [.literal s], ts, rfl, ⟨_, .leaf (isLeaf_of_isRead (.inr hfirst) hneg)⟩, h, le_rfl⟩

/-- The scan of an expression, one operand or operator at a time. -/
theorem beginsBelow (n : Nat) : BeginsBelow n := by
  -- an atom takes several tokens, so the induction is on a bound for their number
  induction n with
  | zero => exact fun _ h => absurd h (Nat.not_lt_zero _)
  | succ n ih =>
    intro ts hn hread before start calls hstands h
    cases ts with
    | nil =>
      obtain rfl : start = false := by simpa using (Bool.and_eq_true_iff.1 h).1
      exact ⟨[], [], rfl, by simpa using hstands, h, .inl rfl⟩
    | cons t ts =>
      rw [List.length_cons] at hn
      have hts := (List.forall_mem_cons.1 hread).2
      have hoperand : (t = .opening ∨ (∃ s, t = .word s) ∨ ∃ s, t = .literal s) →
          BeginsExpression before calls (t :: ts) := by
        intro ht
        obtain ⟨rfl, us, rest, heq, ⟨e, he⟩, hrest, hlen⟩ := exists_atom ih (by omega) hread h ht
        have hread' : ∀ u ∈ rest, u.IsRead := fun u hu => hread u (by rw [heq]; exact List.mem_append_right _ hu)
        rw [heq]
        exact (ih rest (by omega) hread' _ false calls (Expects.atom hstands he) hrest).of_append us
      cases t with
      | operator op =>
        obtain ⟨hsign, h⟩ := Bool.and_eq_true_iff.1 h
        have hexpects : Expects (before ++ texts [.operator op]) := by
          cases start with
          | true => exact Expects.sign hstands (by simpa using hsign)
          | false =>
            obtain ⟨e, he⟩ := hstands
            exact expects_operator he op
        exact (ih ts (by omega) hts _ true calls hexpects h).of_append [.operator op]
      | opening => exact hoperand (.inl rfl)
      | word s => exact hoperand (.inr (.inl ⟨s, rfl⟩))
      | literal s => exact hoperand (.inr (.inr ⟨s, rfl⟩))
      | comma =>
        obtain rfl : start = false := by simpa using (Bool.and_eq_true_iff.1 (Bool.and_eq_true_iff.1 h).1).1
        exact ⟨[], _, rfl, by simpa using hstands, h, .inr (.inr ⟨ts, rfl⟩)⟩
      | closing =>
        obtain rfl : start = false := by simpa using (Bool.and_eq_true_iff.1 (Bool.and_eq_true_iff.1 h).1).1
        exact ⟨[], _, rfl, by simpa using hstands, h, .inr (.inl ⟨ts, rfl⟩)⟩
      | blank => cases h

/-! ## Expressions are scanned -/

@[simp] theorem ofLexeme_opening : Token.ofLexeme "(" = .opening := by decide

@[simp] theorem ofLexeme_closing : Token.ofLexeme ")" = .closing := by decide

@[simp] theorem ofLexeme_comma : Token.ofLexeme "," = .comma := by decide

/-- The scan goes through the texts as through one operand. -/
def IsOperandLike (ts : List String) : Prop := ∀ (rest : List Token) (calls : List Bool), rest.head? ≠ some .opening →
  isInfix (ts.map Token.ofLexeme ++ rest) true calls = isInfix rest false calls

section

variable {xs ys : List String}

theorem IsOperandLike.sign {op : Operator} (hop : op = .add ∨ op = .sub) (h : IsOperandLike xs) :
    IsOperandLike (op.symbol :: xs) := by
  intro rest calls hrest
  rw [← h rest calls hrest, List.map_cons, ofLexeme_symbol]
  rcases hop with rfl | rfl <;> simp

theorem IsOperandLike.operator (hx : IsOperandLike xs) (op : Operator) (hy : IsOperandLike ys) :
    IsOperandLike (xs ++ op.symbol :: ys) := by
  intro rest calls hrest
  rw [List.map_append, List.append_assoc, hx _ _ (by simp [ofLexeme_symbol]), ← hy rest calls hrest]
  simp [ofLexeme_symbol]

theorem IsLeaf.isOperandLike {token : String} (h : IsLeaf token) : IsOperandLike [token] := by
  intro rest calls hrest
  have htoken := ofLexeme_of_ne_sign h.ne_empty h.not_operator h.not_bracket h.ne_comma
  rw [List.map_singleton, htoken, List.singleton_append]
  split
  · rw [isInfix_word _ _ hrest]
    simp [h.ne_negation]
  · simp

theorem IsOperandLike.group (h : IsOperandLike xs) : IsOperandLike ("(" :: xs ++ [")"]) := by
  intro rest calls _
  have hinner := h (.closing :: rest) (false :: calls) (by simp)
  simpa using hinner

end

theorem isInfix_arguments (calls : List Bool) (rest : List Token) (args : List (List String × Expr)) :
    ∀ a : List String × Expr, (∀ x ∈ a :: args, IsOperandLike x.1) →
      isInfix (([","].intercalate ((a :: args).map Prod.fst)).map Token.ofLexeme ++ .closing :: rest) true (true :: calls) =
        isInfix rest false calls := by
  induction args with
  | nil =>
    intro a h
    have hlast := h a (by simp) (.closing :: rest) (true :: calls) (by simp)
    simpa [List.intercalate] using hlast
  | cons b args ih =>
    intro a h
    obtain ⟨ha, h⟩ := List.forall_mem_cons.1 h
    have hfirst := ha (.comma :: (([","].intercalate ((b :: args).map Prod.fst)).map Token.ofLexeme ++ .closing :: rest))
      (true :: calls) (by simp)
    have hrest : isInfix (.comma :: (([","].intercalate ((b :: args).map Prod.fst)).map Token.ofLexeme ++ .closing :: rest))
        false (true :: calls) = isInfix rest false calls := by
      rw [← ih b h, isInfix]
      simp
    rw [← hrest, ← hfirst]
    simp [List.intercalate]

theorem isOperandLike_call {name : String} {f : Function} (hf : Function.ofName? name = some f)
    {args : List (List String × Expr)} (hargs : ∀ a ∈ args, Derives .comparison a.1 a.2 ∧ IsOperandLike a.1) :
    IsOperandLike (name :: "(" :: [","].intercalate (args.map Prod.fst) ++ [")"]) := by
  intro rest calls _
  cases args with
  | nil => simp [List.intercalate, ofLexeme_of_ofName? hf, hf]
  | cons a args =>
    -- the arguments do not begin with the closing bracket
    have hhead : (([","].intercalate ((a :: args).map Prod.fst)).map Token.ofLexeme ++ .closing :: rest).head? ≠
        some .closing := by
      obtain ⟨t, ht, hne⟩ := (hargs a List.mem_cons_self).1.exists_head
      obtain ⟨ts, hts⟩ := List.head?_eq_some_iff.1 ht
      cases args <;> simp [List.intercalate, hts, hne]
    have hcall := isInfix_call true calls hhead name
    rw [isInfix_arguments calls rest args a fun x hx => (hargs x hx).2, hf] at hcall
    simpa [ofLexeme_of_ofName? hf] using hcall

/-- The scan of an operand leaves the rest. -/
theorem Derives.isOperandLike {level : Level} {ts : List String} {e : Expr} (h : Derives level ts e) : IsOperandLike ts := by
  induction h with
  | @binary _ op _ _ _ _ _ _ _ ihl ihr => exact ihl.operator op ihr
  | operand _ ih => exact ih
  | minus _ ih => exact .sign (.inr rfl) ih
  | plus _ ih => exact .sign (.inl rfl) ih
  | power _ _ ihl ihr => exact ihl.operator .power ihr
  | leaf h => exact h.isOperandLike
  | group _ ih => exact ih.group
  | call hf hargs ih => exact isOperandLike_call hf fun a ha => ⟨hargs a ha, ih a ha⟩

/-- The scan decides the grammar. -/
theorem exists_derives_iff (ts : List String) :
    (∃ e, Derives .comparison ts e) ↔ isInfix (ts.map Token.ofLexeme) true [] = true := by
  constructor
  · rintro ⟨e, h⟩
    have := h.isOperandLike [] [] (by simp)
    rw [List.append_nil] at this
    rw [this]
    rfl
  · intro h
    have hread : ∀ t ∈ ts.map Token.ofLexeme, t.IsRead := by
      intro t ht
      obtain ⟨s, -, rfl⟩ := List.mem_map.1 ht
      exact isRead_ofLexeme s
    have htexts : texts (ts.map Token.ofLexeme) = ts := by
      rw [texts, List.map_map]
      exact (List.map_congr_left fun s _ => text_ofLexeme s).trans (List.map_id ts)
    obtain ⟨us, rest, heq, hstands, hscan, hends⟩ := beginsBelow _ _ (Nat.lt_succ_self _) hread [] true [] expects_nil h
    obtain rfl | ⟨rest', rfl⟩ | ⟨rest', rfl⟩ := hends
    · rwa [List.nil_append, ← List.append_nil us, ← heq, htexts] at hstands
    · cases hscan
    · cases hscan

end Reckon.Calculator
