/-
The tokens of an expression are arranged to the postfix order of its syntax tree, so a session gives
an expression the value of its tree. An operand leaves on the stack only what binds at least as
tight as its level and may still wait for the next operator: the invariant is that these items and
the output together are the items of the operand, above a stack that it does not touch.
-/
import Reckon.Proofs.Calculator.Grammar

namespace Reckon.Calculator

/-! ## Releasing -/

namespace Pending

/-- It is released before what binds weaker than `k`, and is no bracket. -/
def BindsFrom (k : Nat) (p : Pending) : Prop := ∃ item n, p.release? = some (item, n) ∧ k ≤ n

theorem BindsFrom.mono {j k : Nat} {p : Pending} (h : p.BindsFrom k) (hjk : j ≤ k) : p.BindsFrom j := by
  obtain ⟨item, n, hp, hn⟩ := h
  exact ⟨item, n, hp, hjk.trans hn⟩

theorem bindsFrom_operator {k : Nat} {op : Operator} : (operator op).BindsFrom k ↔ k ≤ op.precedence := by
  simp [BindsFrom, release?]

theorem bindsFrom_negate {k : Nat} : negate.BindsFrom k ↔ k ≤ negationPrecedence := by
  simp [BindsFrom, release?]

theorem not_bindsFrom_bracket {k : Nat} : ¬ bracket.BindsFrom k := by
  simp [BindsFrom, release?]

theorem not_bindsFrom_call {k n : Nat} {f : Function} : ¬ (call f n).BindsFrom k := by
  simp [BindsFrom, release?]

end Pending

/-- Nothing on top of the stack binds at least as tight as `k`. -/
def Opens (k : Nat) (stack : List Pending) : Prop := ∀ p ∈ stack.head?, ¬ p.BindsFrom k

theorem Opens.mono {j k : Nat} {stack : List Pending} (h : Opens j stack) (hjk : j ≤ k) : Opens k stack :=
  fun p hp hb => h p hp (hb.mono hjk)

theorem opens_cons {k : Nat} {p : Pending} {stack : List Pending} : Opens k (p :: stack) ↔ ¬ p.BindsFrom k := by
  simp [Opens]

/-- The items of what is released. -/
def released (ps : List Pending) : List Item := ps.filterMap fun p => p.release?.map Prod.fst

theorem released_append (ps qs : List Pending) : released (ps ++ qs) = released ps ++ released qs :=
  List.filterMap_append

theorem releaseAll_append {k : Nat} {ps : List Pending} (h : ∀ p ∈ ps, p.BindsFrom k) (stack : List Pending)
    (output : List Item) :
    releaseAll (ps ++ stack) output = releaseAll stack ((released ps).reverse ++ output) := by
  induction ps generalizing output with
  | nil => rfl
  | cons p ps ih =>
    obtain ⟨⟨item, n, hp, -⟩, h⟩ := List.forall_mem_cons.1 h
    simp only [List.cons_append, releaseAll, hp]
    rw [ih h]
    simp [released, hp]

/-- An operator releases what binds tighter, and its equals if it groups from the left. -/
def Operator.ReleasesFrom (op : Operator) (k : Nat) : Prop :=
  op.precedence < k ∨ op.precedence = k ∧ op.groupsRight = false

theorem releaseBefore_append {op : Operator} {k : Nat} (hop : op.ReleasesFrom k) {ps : List Pending}
    (h : ∀ p ∈ ps, p.BindsFrom k) (stack : List Pending) (output : List Item) :
    releaseBefore op (ps ++ stack) output = releaseBefore op stack ((released ps).reverse ++ output) := by
  induction ps generalizing output with
  | nil => rfl
  | cons p ps ih =>
    obtain ⟨⟨item, n, hp, hn⟩, h⟩ := List.forall_mem_cons.1 h
    have htest : (op.precedence < n || (n == op.precedence && !op.groupsRight)) = true := by
      rcases hop with hlt | ⟨rfl, hleft⟩
      · simp [hlt.trans_le hn]
      · rcases hn.lt_or_eq with hlt | rfl
        · simp [hlt]
        · simp [hleft]
    simp only [List.cons_append, releaseBefore, hp, htest, if_true]
    rw [ih h]
    simp [released, hp]

/-- The operator leaves a stack alone whose top binds weaker, or equally if it groups from the right. -/
theorem releaseBefore_of_opens {op : Operator} {k : Nat} (hk : k ≤ op.precedence ∨ k ≤ op.precedence + 1 ∧ op.groupsRight)
    {stack : List Pending} (h : Opens k stack) (output : List Item) : releaseBefore op stack output = (stack, output) := by
  cases stack with
  | nil => rfl
  | cons p stack =>
    rw [opens_cons] at h
    cases hp : p.release? with
    | none => simp only [releaseBefore, hp]
    | some r =>
      have hn : r.2 < k := by
        by_contra hn
        exact h ⟨r.1, r.2, hp, not_lt.1 hn⟩
      have htest : (op.precedence < r.2 || (r.2 == op.precedence && !op.groupsRight)) = false := by
        rcases hk with hk | ⟨hk, hright⟩
        · simp only [Bool.or_eq_false_iff, Bool.and_eq_false_iff, decide_eq_false_iff_not, beq_eq_false_iff_ne]
          omega
        · simp only [hright, Bool.not_true, Bool.and_false, Bool.or_false, decide_eq_false_iff_not]
          omega
      simp only [releaseBefore, hp, htest, Bool.false_eq_true, if_false]

/-! ## One token -/

section Token

variable (rest : List Token) (start : Bool) (stack : List Pending) (output : List Item)

theorem arrangeFrom_nil : arrangeFrom [] start stack output =
    match releaseAll stack output with
    | ([], output) => .ok output.reverse
    | _ => fail .strayOpen := rfl

theorem arrangeFrom_between (op : Operator) : arrangeFrom (.operator op :: rest) false stack output =
    arrangeFrom rest true (.operator op :: (releaseBefore op stack output).1) (releaseBefore op stack output).2 := rfl

theorem arrangeFrom_plus : arrangeFrom (.operator .add :: rest) true stack output = arrangeFrom rest true stack output := rfl

theorem arrangeFrom_minus :
    arrangeFrom (.operator .sub :: rest) true stack output = arrangeFrom rest true (.negate :: stack) output := rfl

theorem arrangeFrom_literal (s : String) :
    arrangeFrom (.literal s :: rest) start stack output = arrangeFrom rest false stack (.literal s :: output) := rfl

theorem arrangeFrom_word {rest : List Token} (h : rest.head? ≠ some .opening) (s : String) :
    arrangeFrom (.word s :: rest) start stack output = arrangeFrom rest false stack (.ofWord s :: output) := by
  cases rest with
  | nil => rfl
  | cons t rest =>
    cases t with
    | opening => exact absurd rfl h
    | _ => rfl

theorem arrangeFrom_function {name : String} {f : Function} (hf : Function.ofName? name = some f) :
    arrangeFrom (.word name :: .opening :: rest) start stack output =
      arrangeFrom rest true (.call f (if rest.head? == some .closing then 0 else 1) :: stack) output := by
  simp only [arrangeFrom, hf]

theorem arrangeFrom_opening :
    arrangeFrom (.opening :: rest) start stack output = arrangeFrom rest true (.bracket :: stack) output := rfl

theorem arrangeFrom_comma : arrangeFrom (.comma :: rest) start stack output =
    match countArgument (releaseAll stack output).1 with
    | some stack' => arrangeFrom rest true stack' (releaseAll stack output).2
    | none => fail .strayComma := rfl

theorem arrangeFrom_closing : arrangeFrom (.closing :: rest) start stack output =
    match releaseAll stack output with
    | (.call f n :: stack, output) => arrangeFrom rest false stack (.call f n :: output)
    | (_ :: stack, output) => arrangeFrom rest false stack output
    | ([], _) => fail .strayClose := rfl

end Token

/-! ## The tokens of an operand -/

theorem ofLexeme_symbol (op : Operator) : Token.ofLexeme op.symbol = .operator op := by
  cases op <;> decide

/-- What is no sign is a word or a literal. -/
theorem ofLexeme_of_ne_sign {s : String} (hne : s ≠ "") (hop : ∀ op : Operator, s ≠ op.symbol)
    (hbracket : s ≠ "(" ∧ s ≠ ")") (hcomma : s ≠ ",") :
    Token.ofLexeme s = if s.toList.head?.any isWordStart then .word s else .literal s := by
  have hnone : Operator.ofSymbol? s = none :=
    List.find?_eq_none.2 fun op _ h => hop op (beq_iff_eq.1 h).symm
  unfold Token.ofLexeme
  rw [hnone]
  split <;> simp_all

theorem isLetter_of_isAlpha {c : Char} (h : c.isAlpha) : Text.isLetter c := by
  have hlt : c.toNat < 128 := by
    simp only [Char.isAlpha, Char.isUpper, Char.isLower, Bool.or_eq_true, Bool.and_eq_true, decide_eq_true_eq,
      UInt32.le_iff_toNat_le] at h
    change c.val.toNat < 128
    have hupper : 'Z'.val.toNat = 90 := rfl
    have hlower : 'z'.val.toNat = 122 := rfl
    omega
  rw [Text.isLetter, if_pos hlt, h]

-- No name starts with `k` or `i`, the letters that a character outside ASCII has for its lower case.
theorem exists_name_start (f : Function) :
    ∃ c cs, f.name.toList = c :: cs ∧ c.isAlpha ∧ c ≠ 'k' ∧ c ≠ 'i' := by
  cases f <;> exact ⟨_, _, rfl, by decide, by decide, by decide⟩

/-- The name of a function starts like a word. -/
theorem isWordStart_of_ofName? {s : String} {f : Function} (h : Function.ofName? s = some f) :
    s.toList.head?.any isWordStart := by
  have hname : f.name.toList = Text.lowerAll s.toList := by
    have := List.find?_some h
    exact beq_iff_eq.1 this
  obtain ⟨c, cs, hf, halpha, hk, hi⟩ := exists_name_start f
  rw [hf] at hname
  cases hs : s.toList with
  | nil => rw [hs] at hname; cases hname
  | cons d ds =>
    rw [hs, Text.lowerAll, List.flatMap_cons] at hname
    have hd : c = d.toLower := by
      unfold Text.lower at hname
      split at hname
      · exact absurd (List.cons.inj hname).1 hk
      · split at hname
        · exact absurd (List.cons.inj hname).1 hi
        · exact (List.cons.inj hname).1
    rw [hd, Char.isAlpha_toLower_eq_isAlpha] at halpha
    simp [isWordStart, isLetter_of_isAlpha halpha]

theorem ofLexeme_of_isWordStart {s : String} (hstart : s.toList.head?.any isWordStart) : Token.ofLexeme s = .word s := by
  have hne : ∀ t : String, t.toList.head?.any isWordStart = false → s ≠ t := by
    rintro t ht rfl
    rw [ht] at hstart
    cases hstart
  rw [ofLexeme_of_ne_sign (hne _ (by decide)) (fun op => hne _ (by cases op <;> decide))
    ⟨hne _ (by decide), hne _ (by decide)⟩ (hne _ (by decide)), if_pos hstart]

theorem ofLexeme_of_ofName? {s : String} {f : Function} (h : Function.ofName? s = some f) :
    Token.ofLexeme s = .word s :=
  ofLexeme_of_isWordStart (isWordStart_of_ofName? h)

/-- An operand does not start with a closing bracket. -/
theorem Derives.exists_head {level : Level} {ts : List String} {e : Expr} (h : Derives level ts e) :
    ∃ t, ts.head? = some t ∧ Token.ofLexeme t ≠ .closing := by
  induction h with
  | binary _ _ _ ih _ | power _ _ ih _ =>
    obtain ⟨t, ht, hne⟩ := ih
    exact ⟨t, by rw [List.head?_append, ht]; rfl, hne⟩
  | operand _ ih => exact ih
  | minus _ _ | plus _ _ | group _ _ => exact ⟨_, rfl, by decide⟩
  | leaf h =>
    refine ⟨_, rfl, ?_⟩
    rw [ofLexeme_of_ne_sign h.ne_empty h.not_operator h.not_bracket h.ne_comma]
    split <;> simp
  | call hf _ _ => exact ⟨_, rfl, by rw [ofLexeme_of_ofName? hf]; simp⟩

/-! ## The invariant -/

/-- What the items of an operand become: some wait above the stack, the others are put out. -/
structure Splits (k : Nat) (items : List Item) (ps : List Pending) (os : List Item) : Prop where
  binds : ∀ p ∈ ps, p.BindsFrom k
  items : (released ps).reverse ++ os = items.reverse

namespace Level

/-- All that an operand of the level leaves binds at least as tight. -/
def floor : Level → Nat
  | comparison => 1
  | sum => 2
  | product => 3
  | unary | power => 4
  | atom => 6

/-- In front of an operand of the level, what waits binds weaker. -/
def ceiling : Level → Nat
  | comparison => 1
  | sum => 2
  | product => 3
  | unary | power | atom => 6

theorem floor_le_next (level : Level) : level.floor ≤ level.next.floor := by cases level <;> decide

theorem ceiling_le_next (level : Level) : level.ceiling ≤ level.next.ceiling := by cases level <;> decide

theorem of_mem_operators {level : Level} {op : Operator} (h : op ∈ level.operators) :
    op.precedence = level.floor ∧ level.ceiling = op.precedence ∧ op.groupsRight = false ∧
      op.precedence < level.next.ceiling := by
  cases level <;> revert op <;> decide

end Level

/-- The tokens of the level are arranged to the items, in front of any others and on any stack that
does not bind them. -/
def Arranges (level : Level) (ts : List String) (e : Expr) : Prop :=
  ∀ (rest : List Token) (stack : List Pending) (output : List Item), rest.head? ≠ some .opening →
    Opens level.ceiling stack → ∃ ps os, Splits level.floor e.postorder ps os ∧
      arrangeFrom (ts.map Token.ofLexeme ++ rest) true stack output = arrangeFrom rest false (ps ++ stack) (os ++ output)

theorem Splits.mono {j k : Nat} {items : List Item} {ps : List Pending} {os : List Item} (h : Splits k items ps os)
    (hjk : j ≤ k) : Splits j items ps os :=
  ⟨fun p hp => (h.binds p hp).mono hjk, h.items⟩

theorem splits_nil {k : Nat} (items : List Item) : Splits k items [] items.reverse :=
  ⟨by simp, rfl⟩

/-- The next item waits below the operand. -/
theorem Splits.concat {k : Nat} {items : List Item} {ps : List Pending} {os : List Item} (h : Splits k items ps os)
    {p : Pending} {item : Item} {n : Nat} (hp : p.release? = some (item, n)) (hn : k ≤ n) (before : List Item) :
    Splits k (before ++ items ++ [item]) (ps ++ [p]) (os ++ before.reverse) where
  binds := by
    simp only [List.mem_append, List.mem_singleton]
    rintro q (hq | rfl)
    · exact h.binds q hq
    · exact ⟨item, n, hp, hn⟩
  items := by
    have hitem : released [p] = [item] := by simp [released, hp]
    rw [released_append, hitem, List.reverse_append, List.append_assoc, ← List.append_assoc _ os, h.items]
    simp

section Steps

variable {k : Nat} {items : List Item} {ps : List Pending} {os : List Item}

theorem Splits.releaseAll (h : Splits k items ps os) (stack : List Pending) (output : List Item) :
    releaseAll (ps ++ stack) (os ++ output) = Calculator.releaseAll stack (items.reverse ++ output) := by
  rw [releaseAll_append h.binds, ← List.append_assoc, h.items]

theorem Splits.arrangeFrom_operator (h : Splits k items ps os) {op : Operator} (hop : op.ReleasesFrom k) {j : Nat}
    (hj : j ≤ op.precedence ∨ j ≤ op.precedence + 1 ∧ op.groupsRight) {stack : List Pending} (hstack : Opens j stack)
    (rest : List Token) (output : List Item) :
    arrangeFrom (.operator op :: rest) false (ps ++ stack) (os ++ output) =
      arrangeFrom rest true (.operator op :: stack) (items.reverse ++ output) := by
  have hrelease : releaseBefore op (ps ++ stack) (os ++ output) = (stack, items.reverse ++ output) := by
    rw [releaseBefore_append hop h.binds, ← List.append_assoc, h.items, releaseBefore_of_opens hj hstack]
  rw [arrangeFrom_between, hrelease]

theorem Splits.arrangeFrom_comma (h : Splits k items ps os) (f : Function) (n : Nat) (stack : List Pending) (rest : List Token)
    (output : List Item) :
    arrangeFrom (.comma :: rest) false (ps ++ .call f n :: stack) (os ++ output) =
      arrangeFrom rest true (.call f (n + 1) :: stack) (items.reverse ++ output) := by
  rw [Calculator.arrangeFrom_comma, h.releaseAll]
  rfl

theorem Splits.arrangeFrom_closing_call (h : Splits k items ps os) (f : Function) (n : Nat) (stack : List Pending)
    (rest : List Token) (output : List Item) :
    arrangeFrom (.closing :: rest) false (ps ++ .call f n :: stack) (os ++ output) =
      arrangeFrom rest false stack (.call f n :: (items.reverse ++ output)) := by
  rw [arrangeFrom_closing, h.releaseAll]
  rfl

theorem Splits.arrangeFrom_closing_bracket (h : Splits k items ps os) (stack : List Pending) (rest : List Token)
    (output : List Item) :
    arrangeFrom (.closing :: rest) false (ps ++ .bracket :: stack) (os ++ output) =
      arrangeFrom rest false stack (items.reverse ++ output) := by
  rw [arrangeFrom_closing, h.releaseAll]
  rfl

end Steps

/-! ## The rules of the grammar -/

theorem arranges_leaf {token : String} (h : IsLeaf token) : Arranges .atom [token] (.leaf token) := by
  intro rest stack output hrest _
  refine ⟨[], _, splits_nil _, ?_⟩
  have htoken := ofLexeme_of_ne_sign h.ne_empty h.not_operator h.not_bracket h.ne_comma
  simp only [List.map_cons, List.map_nil, List.singleton_append, List.nil_append, Expr.postorder, leafItem,
    List.reverse_singleton]
  split at htoken
  · rename_i hword
    rw [htoken, if_pos hword, arrangeFrom_word _ _ _ hrest, Item.ofWord, if_neg h.ne_negation]
  · rename_i hword
    rw [htoken, if_neg hword, arrangeFrom_literal]

theorem arranges_minus {ts : List String} {e : Expr} (h : Arranges .unary ts e) :
    Arranges .unary ("-" :: ts) (.negate e) := by
  intro rest stack output hrest _
  have hopen : Opens Level.unary.ceiling (.negate :: stack) := by
    rw [opens_cons, Pending.bindsFrom_negate]
    decide
  obtain ⟨ps, os, hsplit, heq⟩ := h rest (.negate :: stack) output hrest hopen
  refine ⟨ps ++ [.negate], os, ?_, ?_⟩
  · simpa [Expr.postorder] using hsplit.concat (p := .negate) rfl (by decide) []
  · have hsign : Token.ofLexeme "-" = .operator .sub := ofLexeme_symbol .sub
    rw [List.map_cons, hsign, List.cons_append, arrangeFrom_minus, heq, List.append_assoc, List.singleton_append]

theorem arranges_plus {ts : List String} {e : Expr} (h : Arranges .unary ts e) : Arranges .unary ("+" :: ts) e := by
  intro rest stack output hrest hstack
  obtain ⟨ps, os, hsplit, heq⟩ := h rest stack output hrest hstack
  refine ⟨ps, os, hsplit, ?_⟩
  have hsign : Token.ofLexeme "+" = .operator .add := ofLexeme_symbol .add
  rw [List.map_cons, hsign, List.cons_append, arrangeFrom_plus, heq]

/-- An operator between an operand that it releases and one that it waits for. -/
theorem arranges_binary {level left right : Level} {op : Operator} {xs ys : List String} {l r : Expr}
    (hl : Arranges left xs l) (hr : Arranges right ys r) (hstart : level.ceiling ≤ left.ceiling)
    (hreleases : op.ReleasesFrom left.floor)
    (hkeeps : level.ceiling ≤ op.precedence ∨ level.ceiling ≤ op.precedence + 1 ∧ op.groupsRight)
    (hwaits : op.precedence < right.ceiling) (hfloor : level.floor ≤ op.precedence) (hright : level.floor ≤ right.floor) :
    Arranges level (xs ++ op.symbol :: ys) (.binary op l r) := by
  intro rest stack output hrest hstack
  obtain ⟨ps, os, hsplit, hleft⟩ := hl (.operator op :: (ys.map Token.ofLexeme ++ rest)) stack output (by simp)
    (hstack.mono hstart)
  have hopen : Opens right.ceiling (.operator op :: stack) := by
    rw [opens_cons, Pending.bindsFrom_operator]
    exact not_le.2 hwaits
  -- what the left operand leaves is released, so the right one finds the operator on top
  obtain ⟨qs, os', hsplit', hr⟩ := hr rest (.operator op :: stack) (l.postorder.reverse ++ output) hrest hopen
  refine ⟨qs ++ [.operator op], os' ++ l.postorder.reverse, ?_, ?_⟩
  · exact (hsplit'.mono hright).concat rfl hfloor l.postorder
  · calc arrangeFrom ((xs ++ op.symbol :: ys).map Token.ofLexeme ++ rest) true stack output
        = arrangeFrom (xs.map Token.ofLexeme ++ .operator op :: (ys.map Token.ofLexeme ++ rest)) true stack output := by
          simp [ofLexeme_symbol]
      _ = arrangeFrom (.operator op :: (ys.map Token.ofLexeme ++ rest)) false (ps ++ stack) (os ++ output) := hleft
      _ = arrangeFrom (ys.map Token.ofLexeme ++ rest) true (.operator op :: stack) (l.postorder.reverse ++ output) :=
          hsplit.arrangeFrom_operator hreleases hkeeps hstack _ _
      _ = _ := by rw [hr]; simp

theorem arranges_group {ts : List String} {e : Expr} (h : Arranges .comparison ts e) :
    Arranges .atom ("(" :: ts ++ [")"]) e := by
  intro rest stack output hrest _
  obtain ⟨ps, os, hsplit, heq⟩ := h (.closing :: rest) (.bracket :: stack) output (by simp)
    (opens_cons.2 Pending.not_bindsFrom_bracket)
  refine ⟨[], _, splits_nil _, ?_⟩
  calc arrangeFrom (("(" :: ts ++ [")"]).map Token.ofLexeme ++ rest) true stack output
      = arrangeFrom (.opening :: (ts.map Token.ofLexeme ++ .closing :: rest)) true stack output := by
        have hopening : Token.ofLexeme "(" = .opening := by decide
        have hclosing : Token.ofLexeme ")" = .closing := by decide
        simp [hopening, hclosing]
    _ = arrangeFrom (ts.map Token.ofLexeme ++ .closing :: rest) true (.bracket :: stack) output :=
        arrangeFrom_opening _ _ _ _
    _ = _ := heq.trans (hsplit.arrangeFrom_closing_bracket stack rest output)

/-- The arguments of an open call that counts the first of them. -/
theorem arrangeFrom_arguments (f : Function) (args : List (List String × Expr)) : ∀ (a : List String × Expr),
    (∀ x ∈ a :: args, Arranges .comparison x.1 x.2) → ∀ (n : Nat) (rest : List Token) (stack : List Pending)
    (output : List Item),
    arrangeFrom (([","].intercalate ((a :: args).map Prod.fst)).map Token.ofLexeme ++ .closing :: rest) true
        (.call f n :: stack) output =
      arrangeFrom rest false stack
        (.call f (n + args.length) :: ((Expr.postorderAll ((a :: args).map Prod.snd)).reverse ++ output)) := by
  -- comma by comma, with the arguments counted on the stack
  induction args with
  | nil =>
    intro a h n rest stack output
    obtain ⟨ps, os, hsplit, heq⟩ := h a (by simp) (.closing :: rest) (.call f n :: stack) output (by simp)
      (opens_cons.2 Pending.not_bindsFrom_call)
    simpa [List.intercalate, Expr.postorderAll, hsplit.arrangeFrom_closing_call] using heq
  | cons b args ih =>
    intro a h n rest stack output
    obtain ⟨ha, h⟩ := List.forall_mem_cons.1 h
    have hcomma : Token.ofLexeme "," = .comma := by decide
    obtain ⟨ps, os, hsplit, heq⟩ := ha
      (.comma :: (([","].intercalate ((b :: args).map Prod.fst)).map Token.ofLexeme ++ .closing :: rest))
      (.call f n :: stack) output (by simp) (opens_cons.2 Pending.not_bindsFrom_call)
    rw [hsplit.arrangeFrom_comma, ih b h] at heq
    calc arrangeFrom (([","].intercalate ((a :: b :: args).map Prod.fst)).map Token.ofLexeme ++ .closing :: rest) true
          (.call f n :: stack) output
        = arrangeFrom (a.1.map Token.ofLexeme ++
            .comma :: (([","].intercalate ((b :: args).map Prod.fst)).map Token.ofLexeme ++ .closing :: rest)) true
            (.call f n :: stack) output := by simp [List.intercalate, hcomma]
      _ = _ := heq
      _ = _ := by
        simp only [List.map_cons, Expr.postorderAll, List.reverse_append, List.length_cons, List.append_assoc]
        rw [Nat.add_right_comm, Nat.add_assoc]

theorem arranges_call {name : String} {f : Function} (hf : Function.ofName? name = some f)
    {args : List (List String × Expr)} (hstart : ∀ a ∈ args, ∃ t, a.1.head? = some t ∧ Token.ofLexeme t ≠ .closing)
    (h : ∀ a ∈ args, Arranges .comparison a.1 a.2) :
    Arranges .atom (name :: "(" :: [","].intercalate (args.map Prod.fst) ++ [")"]) (.call f (args.map Prod.snd)) := by
  intro rest stack output _ _
  refine ⟨[], _, splits_nil _, ?_⟩
  have hopening : Token.ofLexeme "(" = .opening := by decide
  have hclosing : Token.ofLexeme ")" = .closing := by decide
  -- an empty list of arguments is told by the bracket behind the opening one
  cases args with
  | nil =>
    show arrangeFrom (Token.ofLexeme name :: Token.ofLexeme "(" :: Token.ofLexeme ")" :: rest) true stack output = _
    rw [ofLexeme_of_ofName? hf, hopening, hclosing, arrangeFrom_function _ _ _ _ hf]
    rfl
  | cons a args =>
    have hhead : ((([","].intercalate ((a :: args).map Prod.fst)).map Token.ofLexeme ++ .closing :: rest).head? ==
        some .closing) = false := by
      obtain ⟨t, ht, hne⟩ := hstart a (by simp)
      obtain ⟨ts, hts⟩ := List.head?_eq_some_iff.1 ht
      cases args <;> simp [List.intercalate, hts, hne]
    have heq := arrangeFrom_arguments f args a h 1 rest stack output
    calc arrangeFrom ((name :: "(" :: [","].intercalate ((a :: args).map Prod.fst) ++ [")"]).map Token.ofLexeme ++ rest)
          true stack output
        = arrangeFrom (.word name :: .opening ::
            (([","].intercalate ((a :: args).map Prod.fst)).map Token.ofLexeme ++ .closing :: rest)) true stack output := by
          simp [ofLexeme_of_ofName? hf, hopening, hclosing]
      _ = arrangeFrom (([","].intercalate ((a :: args).map Prod.fst)).map Token.ofLexeme ++ .closing :: rest) true
            (.call f 1 :: stack) output := by
        rw [arrangeFrom_function _ _ _ _ hf, hhead, if_neg Bool.false_ne_true]
      _ = _ := heq
      _ = _ := by simp [Expr.postorder, Nat.add_comm]

theorem Derives.arranges {level : Level} {ts : List String} {e : Expr} (h : Derives level ts e) :
    Arranges level ts e := by
  induction h with
  | @binary level op xs ys l r hop _ _ hl hr =>
    obtain ⟨hfloor, hceiling, hleft, hnext⟩ := Level.of_mem_operators hop
    exact arranges_binary hl hr le_rfl (.inr ⟨hfloor, hleft⟩) (.inl hceiling.le) hnext hfloor.ge
      level.floor_le_next
  | @operand level ts e _ ih =>
    -- an operand of the next level binds tighter in front and behind
    intro rest stack output hrest hstack
    obtain ⟨ps, os, hsplit, heq⟩ := ih rest stack output hrest (hstack.mono level.ceiling_le_next)
    exact ⟨ps, os, hsplit.mono level.floor_le_next, heq⟩
  | minus _ ih => exact arranges_minus ih
  | plus _ ih => exact arranges_plus ih
  | power _ _ hl hr =>
    exact arranges_binary hl hr (by decide) (.inl (by decide)) (.inr (by decide)) (by decide) (by decide) (by decide)
  | leaf h => exact arranges_leaf h
  | group _ ih => exact arranges_group ih
  | call hf hargs ih => exact arranges_call hf (fun a ha => (hargs a ha).exists_head) ih

/-- A session gives an expression the value of its tree, and fails where the tree fails. -/
theorem evaluate_of_derives {tokens : List String} {e : Expr} (h : Derives .comparison tokens e) :
    arrange (tokens.map Token.ofLexeme) = .ok e.postorder ∧
      (∀ lookup, run lookup e.postorder = e.eval fun t => lookup (leafItem t)) ∧
      ∀ (s : Session) (text : String), lexemes text = .ok tokens →
        s.evaluate text = e.eval fun t => s.operand (leafItem t) := by
  have harrange : arrange (tokens.map Token.ofLexeme) = .ok e.postorder := by
    obtain ⟨ps, os, hsplit, heq⟩ := h.arranges [] [] [] (by simp) (by simp [Opens])
    simp only [List.append_nil] at heq
    have hrelease := hsplit.releaseAll [] []
    rw [List.append_nil, List.append_nil, List.append_nil] at hrelease
    rw [arrange, heq, arrangeFrom_nil, hrelease]
    show Except.ok e.postorder.reverse.reverse = _
    rw [List.reverse_reverse]
  refine ⟨harrange, fun lookup => run_postorder lookup e, fun s text htokens => ?_⟩
  unfold Session.evaluate
  rw [htokens]
  show (arrange (tokens.map Token.ofLexeme) >>= run s.operand) = _
  rw [harrange]
  exact run_postorder s.operand e

/-- `2 ^ -LOG(8, 2) < (x)` is the comparison of a power with a variable. -/
theorem evaluate_power_of_negated_call :
    Derives .comparison ["2", "^", "-", "LOG", "(", "8", ",", "2", ")", "<", "(", "x", ")"]
        (.binary .less (.binary .power (.leaf "2") (.negate (.call .log [.leaf "8", .leaf "2"]))) (.leaf "x")) ∧
      arrange (["2", "^", "-", "LOG", "(", "8", ",", "2", ")", "<", "(", "x", ")"].map Token.ofLexeme) =
        .ok [.literal "2", .literal "8", .literal "2", .call .log 2, .negate, .operator .power, .name "x",
          .operator .less] := by
  have leaf_two : IsLeaf "2" := ⟨by decide, fun op => by cases op <;> decide, by decide, by decide, by decide⟩
  have leaf_eight : IsLeaf "8" := ⟨by decide, fun op => by cases op <;> decide, by decide, by decide, by decide⟩
  have leaf_x : IsLeaf "x" := ⟨by decide, fun op => by cases op <;> decide, by decide, by decide, by decide⟩
  have operand : ∀ {token}, IsLeaf token → Derives .unary [token] (.leaf token) := fun h =>
    .operand (.operand (.leaf h))
  have expression : ∀ {ts e}, Derives .unary ts e → Derives .comparison ts e := fun h => .operand (.operand (.operand h))
  have call : Derives .atom ["LOG", "(", "8", ",", "2", ")"] (.call .log [.leaf "8", .leaf "2"]) :=
    @Derives.call "LOG" .log [(["8"], .leaf "8"), (["2"], .leaf "2")] (by decide) (by
      simp only [List.mem_cons, List.not_mem_nil, or_false, forall_eq_or_imp, forall_eq]
      exact ⟨expression (operand leaf_eight), expression (operand leaf_two)⟩)
  have power : Derives .unary ["2", "^", "-", "LOG", "(", "8", ",", "2", ")"]
      (.binary .power (.leaf "2") (.negate (.call .log [.leaf "8", .leaf "2"]))) :=
    .operand (@Derives.power ["2"] _ _ _ (.leaf leaf_two) (.minus (.operand (.operand call))))
  have group : Derives .sum ["(", "x", ")"] (.leaf "x") :=
    .operand (.operand (.operand (.operand (@Derives.group ["x"] _ (expression (operand leaf_x))))))
  have hderives := @Derives.binary .comparison .less _ _ _ _ (by decide) (expression power) group
  exact ⟨hderives, (evaluate_of_derives hderives).1⟩

end Reckon.Calculator
