/-
What a line does to the values of a session. Only an assignment that succeeds and the command that clears
everything change them. The value is stored before it is shown, so it matters that a stored value can
always be shown.
-/
import Reckon.Proofs.Calculator.Failures
import Reckon.Proofs.Notation.Display

namespace Reckon.Calculator

open Reckon.Outcome Reckon.Text

namespace Session

/-! ## Names and values -/

/-- The assigned names, in order. -/
def names (s : Session) : List String := s.bindings.map Prod.fst

/-- The second session is the first one with a new value for a name, which keeps its place or comes last. -/
structure IsUpdate (s s' : Session) (name : String) (x : Number) : Prop where
  value : s'.value? name = some x
  others : ∀ other, other ≠ name → s'.value? other = s.value? other
  names : s'.names = if name ∈ s.names then s.names else s.names ++ [name]

section Replace

variable {name : String} {x : Number} (bindings : List (String × Number))

theorem map_fst_replace :
    (bindings.map fun v => if v.1 == name then (name, x) else v).map Prod.fst = bindings.map Prod.fst := by
  rw [List.map_map]
  refine List.map_congr_left fun v _ => ?_
  simp only [Function.comp_apply]
  split
  · rename_i heq
    exact (beq_iff_eq.1 heq).symm
  · rfl

theorem lookup_replace (h : name ∈ bindings.map Prod.fst) :
    (bindings.map fun v => if v.1 == name then (name, x) else v).lookup name = some x := by
  induction bindings with
  | nil => cases h
  | cons v bindings ih =>
    rw [List.map_cons]
    by_cases hv : v.1 = name
    · rw [if_pos (beq_iff_eq.2 hv), List.lookup_cons_self]
    · obtain ⟨other, y⟩ := v
      have hne : (name == other) = false := beq_false_of_ne (Ne.symm hv)
      rw [if_neg (by simpa using hv), List.lookup_cons, hne]
      exact ih ((List.mem_cons.1 h).resolve_left (Ne.symm hv))

theorem lookup_replace_of_ne {other : String} (h : other ≠ name) :
    (bindings.map fun v => if v.1 == name then (name, x) else v).lookup other = bindings.lookup other := by
  induction bindings with
  | nil => rfl
  | cons v bindings ih =>
    obtain ⟨old, y⟩ := v
    rw [List.map_cons]
    by_cases hv : old = name
    · subst hv
      rw [if_pos (beq_self_eq_true _), List.lookup_cons, List.lookup_cons, beq_false_of_ne h, ih]
    · rw [if_neg (by simpa using hv), List.lookup_cons, List.lookup_cons, ih]

end Replace

theorem assign_isUpdate (s : Session) (name : String) (x : Number) : s.IsUpdate (s.assign name x) name x := by
  have hany : (s.bindings.any fun v => v.1 == name) = true ↔ name ∈ s.names := by
    simp [names]
  unfold assign
  by_cases hmem : name ∈ s.names
  · rw [if_pos (hany.2 hmem)]
    exact ⟨lookup_replace _ hmem, fun other hother => lookup_replace_of_ne _ hother,
      by rw [if_pos hmem]; exact map_fst_replace _⟩
  · rw [if_neg (hany.not.2 hmem)]
    have hnone : s.bindings.lookup name = none := by
      refine List.lookup_eq_none_iff.2 fun v hv => ?_
      exact bne_iff_ne.2 fun heq => hmem (heq ▸ List.mem_map_of_mem hv)
    refine ⟨?_, fun other hother => ?_, ?_⟩
    · rw [value?, List.lookup_append, hnone, List.lookup_cons_self, Option.none_or]
    · rw [value?, List.lookup_append, List.lookup_cons, beq_false_of_ne hother, List.lookup_nil, Option.or_none, value?]
    · rw [if_neg hmem]
      simp [names]

theorem IsUpdate.nodup {s s' : Session} {name : String} {x : Number} (h : s.IsUpdate s' name x) (hs : s.names.Nodup) :
    s'.names.Nodup := by
  rw [h.names]
  split
  · exact hs
  · rename_i hmem
    rw [← List.concat_eq_append]
    exact hs.concat hmem

/-! ## Assignments -/

/-- The line assigns an expression to a name: they stand before and behind its first equals sign, which is
no part of a comparison, and blanks around them do not count. -/
inductive IsAssignment : List Char → String → String → Prop
  | mk {before after : List Char} {c : Char} (first : '=' ∉ before)
      (left : ∀ d ∈ before.getLast?, d ≠ '!' ∧ d ≠ '<' ∧ d ≠ '>') (right : c ≠ '=')
      (isName : isName (trim before) = true) :
      IsAssignment (before ++ '=' :: c :: after) (String.ofList (trim before)) (String.ofList (trim (c :: after)))

theorem splitAssignment_append {before : List Char} (hfirst : '=' ∉ before) (c : Char) (after : List Char) :
    splitAssignment (String.ofList (before ++ '=' :: c :: after)) =
      if before.isEmpty || (c == '=' || before.getLast?.any fun d => ['!', '<', '>'].contains d) || !isName (trim before)
      then none else some (String.ofList (trim before), String.ofList (trim (c :: after))) := by
  have hsolid : ∀ d ∈ before, (d != '=') = true := fun d hd => bne_iff_ne.2 fun heq => hfirst (heq ▸ hd)
  have htake : (before ++ '=' :: c :: after).takeWhile (· != '=') = before := by
    rw [List.takeWhile_append_of_pos hsolid, List.takeWhile_cons_of_neg (by decide), List.append_nil]
  have hdrop : (before ++ '=' :: c :: after).dropWhile (· != '=') = '=' :: c :: after := by
    rw [List.dropWhile_append_of_pos hsolid, List.dropWhile_cons_of_neg (by decide)]
  unfold splitAssignment
  simp only [String.toList_ofList, htake, hdrop]

/-- What may stand before an equals sign that assigns. -/
theorem any_compares_eq_false_iff {o : Option Char} :
    (o.any fun d => ['!', '<', '>'].contains d) = false ↔ ∀ d ∈ o, d ≠ '!' ∧ d ≠ '<' ∧ d ≠ '>' := by
  cases o <;> simp

theorem splitAssignment_eq_some_iff {cs : List Char} {name expression : String} :
    splitAssignment (String.ofList cs) = some (name, expression) ↔ IsAssignment cs name expression := by
  constructor
  · intro h
    -- what stands before the first equals sign, and the character behind it
    have hfirst : '=' ∉ cs.takeWhile (· != '=') := fun hmem => absurd (List.mem_takeWhile_imp hmem) (by decide)
    obtain ⟨c, after, hdrop⟩ : ∃ c after, cs.dropWhile (· != '=') = '=' :: c :: after := by
      unfold splitAssignment at h
      rw [String.toList_ofList] at h
      simp only at h
      split at h
      · exact ⟨_, _, ‹_›⟩
      · cases h
    have hcs : cs.takeWhile (· != '=') ++ '=' :: c :: after = cs := by
      rw [← hdrop, List.takeWhile_append_dropWhile]
    rw [← hcs] at h ⊢
    rw [splitAssignment_append hfirst] at h
    split at h
    · cases h
    · rename_i hguard
      simp only [Bool.not_eq_true, Bool.or_eq_false_iff, Bool.not_eq_false', beq_eq_false_iff_ne,
        any_compares_eq_false_iff] at hguard
      obtain ⟨⟨-, hright, hleft⟩, hname⟩ := hguard
      obtain ⟨rfl, rfl⟩ := Prod.mk.inj (Option.some.inj h)
      exact .mk hfirst hleft hright hname
  · rintro ⟨hfirst, hleft, hright, hname⟩
    rename_i before after c
    have hne : before.isEmpty = false := by
      cases before with
      | nil => cases hname
      | cons d before => rfl
    rw [splitAssignment_append hfirst, hne, any_compares_eq_false_iff.2 hleft, hname, beq_false_of_ne hright]
    rfl

/-! ## Answers -/

/-- The answer reports a numeric error. -/
def Reports (answer : Outcome (Option String)) : Prop := ∃ c, answer = .ok (some (report c))

/-- The line fails outside the numeric channel. -/
def Raises (answer : Outcome (Option String)) : Prop := ∃ f, answer = .error f

/-- The answer is a text that reports no error. -/
def Completes (answer : Outcome (Option String)) : Prop := ∃ text, answer = .ok (some text) ∧ ∀ c, text ≠ report c

/-- No report has an equals sign. -/
theorem notMem_report (c : ErrorCode) : '=' ∉ (report c).toList := by
  cases c <;> decide +kernel

theorem cleared_ne_report (c : ErrorCode) : "All variables cleared." ≠ report c := by
  cases c <;> decide +kernel

/-- The text that shows an assigned value is no report. -/
theorem shown_ne_report (name text : String) (c : ErrorCode) : name ++ " = " ++ text ≠ report c := by
  intro h
  have hmem : '=' ∈ (name ++ " = " ++ text).toList := by simp
  exact notMem_report c (h ▸ hmem)

/-- What an assignment answers once its value is stored: the text that shows it, or the failure to show it,
which is not reported. -/
theorem reported_shown (name : String) (x : Number) :
    (∃ text, reported ((Notation.render x).map (name ++ " = " ++ ·)) = .ok (name ++ " = " ++ text)) ∨
      ¬ x.IsHeld ∧ ∃ f, reported ((Notation.render x).map (name ++ " = " ++ ·)) = .error f := by
  cases hrender : Notation.render x with
  | ok text => exact .inl ⟨text, rfl⟩
  | error f =>
    have hcode : f.code? = none := by
      have := render_range x f hrender
      cases f with
      | numeric | malformed => cases this
      | _ => rfl
    refine .inr ⟨fun hheld => ?_, f, ?_⟩
    · obtain ⟨text, htext⟩ := Number.exists_render hheld
      rw [hrender] at htext
      cases htext
    · change reported (.error f) = .error f
      simp only [reported, hcode]

theorem not_completes_reported (f : Failure) : ¬ Completes ((reported (.error f)).map some) := by
  rintro ⟨text, htext, hreport⟩
  cases hcode : f.code? with
  | some c =>
    simp only [reported, hcode] at htext
    exact hreport c (Option.some.inj (Except.ok.inj htext)).symm
  | none =>
    simp only [reported, hcode] at htext
    cases htext

/-! ## Lines -/

section Line

variable {s : Session} {line name expression : String}

theorem IsAssignment.mem {cs : List Char} (h : IsAssignment cs name expression) : '=' ∈ cs := by
  cases h
  simp

theorem IsAssignment.unique {cs : List Char} {name' expression' : String} (h : IsAssignment cs name expression)
    (h' : IsAssignment cs name' expression') : name' = name ∧ expression' = expression := by
  have heq := (splitAssignment_eq_some_iff.2 h').symm.trans (splitAssignment_eq_some_iff.2 h)
  exact Prod.mk.inj (Option.some.inj heq)

/-- A line with an equals sign is no command. -/
theorem execute_of_mem_equals (h : '=' ∈ trim line.toList) : s.execute line =
    ((s.calculate (String.ofList (trim line.toList))).1,
      (reported (s.calculate (String.ofList (trim line.toList))).2).map some) := by
  have hmem : '=' ∈ (String.ofList (trim line.toList)).toList := by rwa [String.toList_ofList]
  unfold execute
  generalize String.ofList (trim line.toList) = text at hmem ⊢
  split
  · exact absurd hmem (by decide)
  · exact absurd hmem (by decide)
  · exact absurd hmem (by decide)
  · exact absurd hmem (by decide)
  · exact absurd hmem (by decide)
  · rfl

theorem execute_of_value {x : Number} (h : IsAssignment (trim line.toList) name expression)
    (hx : s.evaluate expression = .ok x) : s.execute line =
      (s.assign name x, (reported ((Notation.render x).map (name ++ " = " ++ ·))).map some) := by
  have hcalculate : s.calculate (String.ofList (trim line.toList)) =
      (s.assign name x, (Notation.render x).map (name ++ " = " ++ ·)) := by
    unfold calculate
    rw [splitAssignment_eq_some_iff.2 h]
    simp only [hx]
  rw [execute_of_mem_equals h.mem, hcalculate]

theorem execute_of_failure {f : Failure} (h : IsAssignment (trim line.toList) name expression)
    (hf : s.evaluate expression = .error f) : s.execute line = (s, (reported (.error f)).map some) := by
  have hcalculate : s.calculate (String.ofList (trim line.toList)) = (s, .error f) := by
    unfold calculate
    rw [splitAssignment_eq_some_iff.2 h]
    simp only [hf]
  rw [execute_of_mem_equals h.mem, hcalculate]

theorem execute_clear (h : trim line.toList = "clear".toList) :
    s.execute line = (empty, .ok (some "All variables cleared.")) := by
  unfold execute
  rw [h, String.ofList_toList]
  rfl

/-- A line that is neither an assignment nor the command that clears everything. -/
theorem execute_of_not_isAssignment (hclear : trim line.toList ≠ "clear".toList)
    (h : ∀ name expression, ¬ IsAssignment (trim line.toList) name expression) : (s.execute line).1 = s := by
  have hcalculate : (s.calculate (String.ofList (trim line.toList))).1 = s := by
    unfold calculate
    split
    · exact absurd (splitAssignment_eq_some_iff.1 ‹_›) (h _ _)
    · split <;> rfl
  have hne : String.ofList (trim line.toList) ≠ "clear" := fun heq =>
    hclear (by rw [← heq, String.toList_ofList])
  unfold execute
  generalize String.ofList (trim line.toList) = text at hcalculate hne
  split
  · rfl
  · rfl
  · rfl
  · exact absurd rfl hne
  · rfl
  · exact hcalculate

end Line

/-! ## Effects -/

/-- What a line does to the session: nothing if it reports a numeric error, and nothing if it fails otherwise
and what it assigns can be held; a new value for one name if it is an assignment that succeeds, the value of
its expression before the line; all values are gone if it is the command for that; nothing else. -/
structure IsEffect (s : Session) (line : String) (s' : Session) (answer : Outcome (Option String)) : Prop where
  reports : Reports answer → s' = s
  raises : Raises answer → (∀ name expression x, IsAssignment (trim line.toList) name expression →
    s.evaluate expression = .ok x → x.IsHeld) → s' = s
  assigns : ∀ name expression, IsAssignment (trim line.toList) name expression → Completes answer →
    ∃ x, s.evaluate expression = .ok x ∧ s.IsUpdate s' name x
  clears : trim line.toList = "clear".toList → s' = empty
  other : trim line.toList ≠ "clear".toList →
    (∀ name expression, ¬ IsAssignment (trim line.toList) name expression) → s' = s

theorem isEffect_of_isAssignment (s : Session) {line name expression : String}
    (h : IsAssignment (trim line.toList) name expression) : s.IsEffect line (s.execute line).1 (s.execute line).2 := by
  have hclear : trim line.toList ≠ "clear".toList := fun heq => absurd (heq ▸ h.mem) (by decide)
  cases hx : s.evaluate expression with
  | error f =>
    rw [execute_of_failure h hx]
    exact {
      reports := fun _ => rfl
      raises := fun _ _ => rfl
      assigns := fun _ _ _ hcompletes => absurd hcompletes (not_completes_reported f)
      clears := fun heq => absurd heq hclear
      other := fun _ hnone => absurd h (hnone _ _) }
  | ok x =>
    rw [execute_of_value h hx]
    refine {
      reports := ?_
      raises := ?_
      assigns := ?_
      clears := fun heq => absurd heq hclear
      other := fun _ hnone => absurd h (hnone _ _) }
    · rintro ⟨c, hc⟩
      obtain ⟨text, htext⟩ | ⟨-, f, hf⟩ := reported_shown name x
      · rw [htext] at hc
        exact absurd (Option.some.inj (Except.ok.inj hc)) (shown_ne_report name text c)
      · rw [hf] at hc
        cases hc
    · rintro ⟨f, hf⟩ hheld
      obtain ⟨text, htext⟩ | ⟨hnot, -⟩ := reported_shown name x
      · rw [htext] at hf
        cases hf
      · exact absurd (hheld _ _ _ h hx) hnot
    · intro name' expression' h' _
      obtain ⟨rfl, rfl⟩ := h.unique h'
      exact ⟨x, hx, s.assign_isUpdate name' x⟩

/-- One line. -/
theorem execute_isEffect (s : Session) (line : String) : s.IsEffect line (s.execute line).1 (s.execute line).2 := by
  by_cases h : ∃ name expression, IsAssignment (trim line.toList) name expression
  · obtain ⟨name, expression, h⟩ := h
    exact s.isEffect_of_isAssignment h
  · simp only [not_exists] at h
    by_cases hclear : trim line.toList = "clear".toList
    · rw [execute_clear hclear]
      exact {
        reports := fun ⟨c, hc⟩ => absurd (Option.some.inj (Except.ok.inj hc)) (cleared_ne_report c)
        raises := fun ⟨f, hf⟩ => nomatch hf
        assigns := fun _ _ h' => absurd h' (h _ _)
        clears := fun _ => rfl
        other := fun hne => absurd hclear hne }
    · rw [execute_of_not_isAssignment hclear h]
      exact {
        reports := fun _ => rfl
        raises := fun _ _ => rfl
        assigns := fun _ _ h' => absurd h' (h _ _)
        clears := fun heq => absurd heq hclear
        other := fun _ _ => rfl }

/-- A line keeps the names apart. -/
theorem nodup_execute {s : Session} (hs : s.names.Nodup) (line : String) : (s.execute line).1.names.Nodup := by
  by_cases h : ∃ name expression, IsAssignment (trim line.toList) name expression
  · obtain ⟨name, expression, h⟩ := h
    cases hx : s.evaluate expression with
    | error f => rwa [execute_of_failure h hx]
    | ok x =>
      rw [execute_of_value h hx]
      exact (s.assign_isUpdate name x).nodup hs
  · simp only [not_exists] at h
    by_cases hclear : trim line.toList = "clear".toList
    · rw [execute_clear hclear]
      exact List.nodup_nil
    · rwa [execute_of_not_isAssignment hclear h]

theorem nodup_executeAll {s : Session} (hs : s.names.Nodup) (lines : List String) :
    (s.executeAll lines).1.names.Nodup := by
  induction lines generalizing s with
  | nil => exact hs
  | cons line lines ih => exact ih (nodup_execute hs line)

/-- After any lines, the next one leaves every value and its place as they were, unless it is an assignment
that succeeds or the command that clears everything; an assignment changes its own name only. -/
theorem executeAll_isEffect (lines : List String) (line : String) :
    (empty.executeAll lines).1.names.Nodup ∧ (empty.executeAll lines).1.IsEffect line
      ((empty.executeAll lines).1.execute line).1 ((empty.executeAll lines).1.execute line).2 :=
  ⟨@nodup_executeAll empty List.nodup_nil lines, execute_isEffect _ line⟩

/-- A division by zero keeps the old value, and a name can be assigned from itself. -/
theorem executeAll_isEffect_two :
    let s := (empty.executeAll ["a = 1", "b = 2"]).1
    s.names.Nodup ∧ (s.execute "a = 1/0").1 = s ∧
      ∃ x, s.evaluate "a + b" = .ok x ∧ s.IsUpdate (s.execute "a = a + b").1 "a" x := by
  obtain ⟨hnames, hfailed⟩ := executeAll_isEffect ["a = 1", "b = 2"] "a = 1/0"
  obtain ⟨-, hassigned⟩ := executeAll_isEffect ["a = 1", "b = 2"] "a = a + b"
  refine ⟨hnames, hfailed.reports ⟨.divisionByZero, by decide +kernel⟩, hassigned.assigns "a" "a + b" ?_ ?_⟩
  · exact splitAssignment_eq_some_iff.1 (by decide +kernel)
  · exact ⟨"a = 3", by decide +kernel, fun c => by cases c <;> decide +kernel⟩

end Session

end Reckon.Calculator
