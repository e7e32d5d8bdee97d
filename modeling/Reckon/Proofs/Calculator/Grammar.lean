/-
The grammar of expressions, the postfix order of a syntax tree and its value. Each level of the
grammar binds tighter than the one before; comparisons, sums and products group from the left, a
power takes a signed operand on its right, and brackets and calls start over. The stack loop on
the postfix order of a tree computes the value of the tree, operands from left to right, and fails
exactly where the tree does.
-/
import Reckon.Calculator.Session
import Reckon.Proofs.Outcome

namespace Reckon.Calculator

/-! ## Syntax trees -/

/-- The syntax tree of an expression; a plus sign in front of an operand leaves no trace. -/
inductive Expr
  | leaf (token : String)
  | negate (e : Expr)
  | binary (op : Operator) (left right : Expr)
  | call (f : Function) (args : List Expr)

/-- A leaf as an item: what starts like a word is a name. -/
def leafItem (token : String) : Item :=
  if token.toList.head?.any isWordStart then .name token else .literal token

namespace Expr

mutual

/-- The items of a tree, operands before their operator. -/
def postorder : Expr → List Item
  | leaf token => [leafItem token]
  | negate e => e.postorder ++ [.negate]
  | binary op left right => left.postorder ++ right.postorder ++ [.operator op]
  | call f args => postorderAll args ++ [.call f args.length]

def postorderAll : List Expr → List Item
  | [] => []
  | e :: es => e.postorder ++ postorderAll es

end

variable (value : String → Outcome Number)

mutual

/-- The value of a tree for given values of its leaves, from left to right. The number of arguments
of a call is checked after they are evaluated. -/
def eval : Expr → Outcome Number
  | leaf token => value token
  | negate e => do .ok (← e.eval).neg
  | binary op left right => do
    let a ← left.eval
    let b ← right.eval
    op.apply a b
  | call f args => do
    let xs ← evalAll args
    if args.length = f.arity then f.apply xs else fail (.argumentCount f.name f.arity)

def evalAll : List Expr → Outcome (List Number)
  | [] => .ok []
  | e :: es => do
    let x ← e.eval
    let xs ← evalAll es
    .ok (x :: xs)

end

end Expr

/-! ## Evaluation on a stack -/

section

variable (lookup : Item → Outcome Number)

theorem step_leafItem (stack : List Number) (token : String) :
    step lookup stack (leafItem token) = lookup (leafItem token) >>= fun x => .ok (x :: stack) := by
  unfold leafItem
  split <;> rfl

theorem length_evalAll {value : String → Outcome Number} {es : List Expr} {xs : List Number}
    (h : Expr.evalAll value es = .ok xs) : xs.length = es.length := by
  induction es generalizing xs with
  | nil =>
    obtain rfl := Except.ok.inj h
    rfl
  | cons e es ih =>
    unfold Expr.evalAll at h
    obtain ⟨x, -, h⟩ := Outcome.bind_eq_ok.1 h
    obtain ⟨xs', hxs, h⟩ := Outcome.bind_eq_ok.1 h
    obtain rfl := Except.ok.inj h
    rw [List.length_cons, List.length_cons, ih hxs]

/-- A call finds its arguments on top of the stack, the last one first. -/
theorem step_call (f : Function) (xs stack : List Number) :
    step lookup (xs.reverse ++ stack) (.call f xs.length) =
      if xs.length = f.arity then f.apply xs >>= fun x => .ok (x :: stack)
      else fail (.argumentCount f.name f.arity) := by
  have htake : (xs.reverse ++ stack).take xs.length = xs.reverse := by
    rw [List.take_append_of_le_length (by simp), List.take_of_length_le (by simp)]
  have hdrop : (xs.reverse ++ stack).drop xs.length = stack := by
    rw [← @List.length_reverse _ xs, List.drop_left]
  have hcondition : (xs.length ≠ f.arity ∨ (xs.reverse ++ stack).length < xs.length) ↔ xs.length ≠ f.arity := by
    simp
  simp only [step, hcondition, htake, hdrop, List.reverse_reverse, ite_not]

mutual

/-- The items of a tree push its value. -/
theorem foldlM_postorder : ∀ (e : Expr) (stack : List Number), e.postorder.foldlM (step lookup) stack =
    e.eval (fun t => lookup (leafItem t)) >>= fun x => .ok (x :: stack)
  | .leaf token, stack => by
    rw [Expr.postorder, Expr.eval, List.foldlM_cons, step_leafItem]
    cases lookup (leafItem token) <;> rfl
  | .negate e, stack => by
    rw [Expr.postorder, Expr.eval, List.foldlM_append, foldlM_postorder e]
    cases e.eval _ <;> rfl
  | .binary op left right, stack => by
    rw [Expr.postorder, Expr.eval, List.foldlM_append, List.foldlM_append, foldlM_postorder left]
    cases left.eval _ with
    | error e => rfl
    | ok a =>
      show (right.postorder.foldlM (step lookup) (a :: stack) >>= _) = _
      rw [foldlM_postorder right]
      cases right.eval _ with
      | error e => rfl
      | ok b =>
        show ([Item.operator op].foldlM (step lookup) (b :: a :: stack)) = op.apply a b >>= _
        rw [List.foldlM_cons]
        show ((op.apply a b >>= _) >>= _) = _
        cases op.apply a b <;> rfl
  | .call f args, stack => by
    rw [Expr.postorder, Expr.eval, List.foldlM_append, foldlM_postorderAll args]
    cases hargs : Expr.evalAll _ args with
    | error e => rfl
    | ok xs =>
      show ([Item.call f args.length].foldlM (step lookup) (xs.reverse ++ stack)) =
        (if args.length = f.arity then f.apply xs else fail _) >>= _
      rw [← length_evalAll hargs, List.foldlM_cons, step_call]
      split
      · cases f.apply xs <;> rfl
      · rfl

theorem foldlM_postorderAll : ∀ (es : List Expr) (stack : List Number),
    (Expr.postorderAll es).foldlM (step lookup) stack =
      Expr.evalAll (fun t => lookup (leafItem t)) es >>= fun xs => .ok (xs.reverse ++ stack)
  | [], stack => rfl
  | e :: es, stack => by
    rw [Expr.postorderAll, Expr.evalAll, List.foldlM_append, foldlM_postorder e]
    cases e.eval _ with
    | error e => rfl
    | ok x =>
      show ((Expr.postorderAll es).foldlM (step lookup) (x :: stack)) = _
      rw [foldlM_postorderAll es]
      show _ = ((Expr.evalAll _ es >>= fun xs => .ok (x :: xs)) >>= _ : Outcome (List Number))
      cases Expr.evalAll _ es with
      | error e => rfl
      | ok xs =>
        show Except.ok (xs.reverse ++ x :: stack) = Except.ok ((x :: xs).reverse ++ stack)
        rw [List.reverse_cons, List.append_assoc, List.singleton_append]

end

theorem postorder_ne_nil (e : Expr) : e.postorder ≠ [] := by
  cases e <;> simp [Expr.postorder]

/-- Running the items of a tree gives its value. -/
theorem run_postorder (e : Expr) : run lookup e.postorder = e.eval fun t => lookup (leafItem t) := by
  have hne : e.postorder.isEmpty = false := by simp [postorder_ne_nil]
  unfold run
  rw [hne, foldlM_postorder]
  cases e.eval _ <;> rfl

end

/-! ## The grammar -/

/-- The levels of the grammar. -/
inductive Level
  | comparison | sum | product | unary | power | atom
  deriving DecidableEq

namespace Level

/-- The level of the operands on the right, and of an operand alone. -/
def next : Level → Level
  | comparison => sum
  | sum => product
  | product => unary
  | unary => power
  | power | atom => atom

/-- The operators that group from the left. -/
def operators : Level → List Operator
  | comparison => [.equal, .notEqual, .less, .greater, .lessOrEqual, .greaterOrEqual]
  | sum => [.add, .sub]
  | product => [.mul, .div, .mod]
  | unary | power | atom => []

end Level

/-- A token that is an operand by itself: no operator, bracket or comma, and not the word for the
negation. -/
structure IsLeaf (token : String) : Prop where
  ne_empty : token ≠ ""
  not_operator : ∀ op : Operator, token ≠ op.symbol
  not_bracket : token ≠ "(" ∧ token ≠ ")"
  ne_comma : token ≠ ","
  ne_negation : token ≠ negationWord

/-- The tokens of an expression with its syntax tree:
```
comparison := comparison (== | != | < | > | <= | >=) sum | sum
sum        := sum (+ | -) product | product
product    := product (* | / | %) unary | unary
unary      := - unary | + unary | power
power      := atom | atom ^ unary
atom       := leaf | ( comparison ) | function ( [comparison {, comparison}] )
```
-/
inductive Derives : Level → List String → Expr → Prop
  | binary {level : Level} {op : Operator} {xs ys : List String} {l r : Expr} : op ∈ level.operators →
      Derives level xs l → Derives level.next ys r → Derives level (xs ++ op.symbol :: ys) (.binary op l r)
  | operand {level : Level} {ts : List String} {e : Expr} : Derives level.next ts e → Derives level ts e
  | minus {ts : List String} {e : Expr} : Derives .unary ts e → Derives .unary ("-" :: ts) (.negate e)
  | plus {ts : List String} {e : Expr} : Derives .unary ts e → Derives .unary ("+" :: ts) e
  | power {xs ys : List String} {l r : Expr} : Derives .atom xs l → Derives .unary ys r →
      Derives .power (xs ++ "^" :: ys) (.binary .power l r)
  | leaf {token : String} : IsLeaf token → Derives .atom [token] (.leaf token)
  | group {ts : List String} {e : Expr} : Derives .comparison ts e → Derives .atom ("(" :: ts ++ [")"]) e
  | call {name : String} {f : Function} {args : List (List String × Expr)} : Function.ofName? name = some f →
      (∀ a ∈ args, Derives .comparison a.1 a.2) →
      Derives .atom (name :: "(" :: [","].intercalate (args.map Prod.fst) ++ [")"]) (.call f (args.map Prod.snd))

end Reckon.Calculator
