/-
The exit status of a single expression. It is read off the printed text, so it tells a failure only as far
as no other answer begins like a report: of all answers just the ones that show an assigned name can.
-/
import Reckon.Calculator.CommandLine
import Reckon.Proofs.Calculator.Effects
import Reckon.Proofs.Calculator.RadixDisplay

namespace Reckon.Calculator

open Reckon.Outcome Reckon.Text

namespace Session

/-! ## Commands -/

/-- The lines that are run without being read as an expression; a blank line is one of them. -/
def commands : List String := ["", "help", "?", "clear", "vars"]

/-- The line is calculated, and that fails with a numeric error. -/
def FailsNumerically (s : Session) (line : String) : Prop :=
  String.ofList (trim line.toList) ∉ commands ∧
    ∃ f c, (s.calculate (String.ofList (trim line.toList))).2 = .error f ∧ f.code? = some c

section Commands

variable {s : Session} {line : String}

theorem execute_of_notMem_commands (h : String.ofList (trim line.toList) ∉ commands) :
    (s.execute line).2 = (reported (s.calculate (String.ofList (trim line.toList))).2).map some := by
  unfold execute
  generalize String.ofList (trim line.toList) = text at h ⊢
  split
  · exact absurd (by decide) h
  · exact absurd (by decide) h
  · exact absurd (by decide) h
  · exact absurd (by decide) h
  · exact absurd (by decide) h
  · rfl

end Commands

/-! ## Texts that begin like a report -/

/-- The text begins with the word that a report begins with. -/
def BeginsWithError (text : String) : Prop := "error".toList <+: text.toList

theorem saysError_some_iff {text : String} : CommandLine.saysError (some text) = true ↔ BeginsWithError text := by
  rw [BeginsWithError, ← List.isPrefixOf_iff_prefix]
  rfl

theorem beginsWithError_report (c : ErrorCode) : BeginsWithError (report c) := by
  unfold BeginsWithError report
  rw [String.toList_append, String.toList_append, String.toList_append, show "error [" = "error" ++ " [" from rfl,
    String.toList_append, List.append_assoc, List.append_assoc, List.append_assoc]
  exact List.prefix_append _ _

theorem not_beginsWithError_of_head {text : String} (c : Char) (cs : List Char) (h : text.toList = c :: cs)
    (hc : c ≠ 'e') : ¬ BeginsWithError text := by
  intro hprefix
  rw [BeginsWithError, h] at hprefix
  exact hc (List.cons_prefix_cons.1 hprefix).1.symm

/-- What shows an assigned name begins like a report if the name does: the word has no blank in it. -/
theorem beginsWithError_shown_iff {name text : String} :
    BeginsWithError (name ++ " = " ++ text) ↔ BeginsWithError name := by
  have hshown : (name ++ " = " ++ text).toList = name.toList ++ ' ' :: ("= ".toList ++ text.toList) := by
    simp [String.toList_append]
  unfold BeginsWithError
  rw [hshown]
  constructor
  · intro h
    obtain hshort | hlong := List.prefix_or_prefix_of_prefix h (List.prefix_append name.toList _)
    · exact hshort
    · -- the name would be a proper prefix of the word, and the blank after it a letter of the word
      obtain ⟨rest, hrest⟩ := hlong
      rw [← hrest, List.prefix_append_right_inj] at h
      cases rest with
      | nil => exact ⟨[], by rw [← hrest, List.append_nil, List.append_nil]⟩
      | cons c rest =>
        obtain ⟨rfl, -⟩ := List.cons_prefix_cons.1 h
        have hmem : ' ' ∈ "error".toList := by
          rw [← hrest]
          simp
        exact absurd hmem (by decide)
  · intro h
    exact h.trans (List.prefix_append _ _)

theorem not_beginsWithError_radixDisplay {r : RadixDisplay} (hr : r ∈ radixDisplays) {x : Number} {text : String}
    (h : r.text x = .ok text) : ¬ BeginsWithError text := by
  cases x with
  | integer n =>
    obtain ⟨digits, -, hdigits⟩ := bind_eq_ok.1 h
    obtain rfl := Except.ok.inj hdigits
    obtain ⟨m, hmark, -⟩ := (wellFormed_of_mem hr).mark
    unfold Notation.signText
    split
    · refine not_beginsWithError_of_head '-' ('0' :: m :: digits.toList) ?_ (by decide)
      simp [String.toList_append, hmark]
    · refine not_beginsWithError_of_head '0' (m :: digits.toList) ?_ (by decide)
      simp [String.toList_append, hmark]
  | scalar z =>
    have hlabels : ∀ r ∈ radixDisplays, ∃ c cs, r.label.toList = c :: cs ∧ c ≠ 'e' := by
      intro r hr
      simp only [radixDisplays, List.mem_cons, List.not_mem_nil, or_false] at hr
      rcases hr with rfl | rfl | rfl
      · exact ⟨'H', _, rfl, by decide⟩
      · exact ⟨'B', _, rfl, by decide⟩
      · exact ⟨'O', _, rfl, by decide⟩
    obtain rfl := Except.ok.inj h
    obtain ⟨c, cs, hlabel, hc⟩ := hlabels r hr
    refine not_beginsWithError_of_head c (cs ++ " display only available for integers".toList) ?_ hc
    rw [String.toList_append, hlabel, List.cons_append]

/-- Lines of which the first one begins otherwise. -/
theorem not_beginsWithError_lines {first : String} {c : Char} {cs : List Char} (h : first.toList = c :: cs)
    (hc : c ≠ 'e') (second : String) (rest : List String) :
    ¬ BeginsWithError ("\n".intercalate (first :: second :: rest)) := by
  refine not_beginsWithError_of_head c
    (cs ++ "\n".toList ++ ("\n".intercalate (second :: rest)).toList) ?_ hc
  rw [String.toList_intercalate, String.toList_intercalate, List.map_cons, List.map_cons,
    List.intercalate_cons_cons, h, List.cons_append, List.cons_append]

theorem not_beginsWithError_describe {x : Number} {text : String} (h : describe x = .ok text) :
    ¬ BeginsWithError text := by
  obtain ⟨shown, -, hlines⟩ := bind_eq_ok.1 h
  cases x with
  | integer n =>
    obtain rfl := Except.ok.inj hlines
    exact not_beginsWithError_lines (c := 'T') rfl (by decide) _ _
  | scalar z =>
    obtain rfl := Except.ok.inj hlines
    exact not_beginsWithError_lines (c := 'T') rfl (by decide) _ _

/-- Without values every command has an answer, and none of the answers is taken for a report. -/
theorem execute_of_mem_commands {line : String} (h : String.ofList (trim line.toList) ∈ commands) :
    ∃ answer, (empty.execute line).2 = .ok answer ∧ CommandLine.saysError answer = false := by
  have hfalse : ∀ {text : String}, ¬ BeginsWithError text → CommandLine.saysError (some text) = false :=
    fun hnot => Bool.eq_false_iff.2 (saysError_some_iff.not.2 hnot)
  have hhelp : CommandLine.saysError (some helpText) = false :=
    hfalse (not_beginsWithError_lines (c := 'a') rfl (by decide) _ _)
  unfold execute
  generalize String.ofList (trim line.toList) = text at h ⊢
  simp only [commands, List.mem_cons, List.not_mem_nil, or_false] at h
  rcases h with rfl | rfl | rfl | rfl | rfl
  · exact ⟨none, rfl, rfl⟩
  · exact ⟨some helpText, rfl, hhelp⟩
  · exact ⟨some helpText, rfl, hhelp⟩
  · exact ⟨some "All variables cleared.", rfl, hfalse (not_beginsWithError_of_head 'A' _ rfl (by decide))⟩
  · exact ⟨some "No variables defined.", rfl, hfalse (not_beginsWithError_of_head 'N' _ rfl (by decide))⟩

/-- Only an assignment has an answer that begins like a report, and then its name does. -/
theorem beginsWithError_calculate_iff {s : Session} {line text : String} (h : (s.calculate line).2 = .ok text) :
    BeginsWithError text ↔ ∃ name expression, splitAssignment line = some (name, expression) ∧ BeginsWithError name := by
  unfold calculate at h
  -- only the answer to an assignment begins with text of the line
  cases hsplit : splitAssignment line with
  | some sides =>
    obtain ⟨name, expression⟩ := sides
    rw [hsplit] at h
    cases hx : s.evaluate expression with
    | error f =>
      simp only [hx] at h
      cases h
    | ok x =>
      simp only [hx] at h
      obtain ⟨shown, -, rfl⟩ := map_eq_ok.1 h
      rw [beginsWithError_shown_iff]
      constructor
      · intro hname
        exact ⟨name, expression, rfl, hname⟩
      · rintro ⟨name', expression', heq, hname⟩
        obtain ⟨rfl, -⟩ := Prod.mk.inj (Option.some.inj heq)
        exact hname
  | none =>
    rw [hsplit] at h
    refine iff_of_false ?_ (by rintro ⟨name, expression, heq, -⟩; cases heq)
    cases hdisplay : s.display? line with
    | some answer =>
      simp only [hdisplay] at h
      obtain rfl : answer = .ok text := h
      unfold display? at hdisplay
      split at hdisplay
      · rename_i r e hfind
        obtain ⟨r', hr', hargument⟩ := List.exists_of_findSome?_eq_some hfind
        obtain ⟨e', -, heq⟩ := Option.map_eq_some_iff.1 hargument
        obtain ⟨rfl, rfl⟩ := Prod.mk.inj heq
        obtain ⟨x, -, hx⟩ := bind_eq_ok.1 (Option.some.inj hdisplay)
        exact not_beginsWithError_radixDisplay hr' hx
      · obtain ⟨e, -, heq⟩ := Option.map_eq_some_iff.1 hdisplay
        obtain ⟨x, -, hx⟩ := bind_eq_ok.1 heq
        exact not_beginsWithError_describe hx
    | none =>
      simp only [hdisplay] at h
      obtain ⟨x, -, hx⟩ := bind_eq_ok.1 h
      obtain ⟨shown, -, hshown⟩ := bind_eq_ok.1 hx
      obtain rfl := Except.ok.inj hshown
      exact not_beginsWithError_of_head ' ' _ (by simp; rfl) (by decide)

/-! ## Reports -/

/-- What is printed for a calculated line: its text, or the report of its numeric failure. -/
theorem reported_eq_ok_iff {answer : Outcome String} {text : String} : reported answer = .ok text ↔
    answer = .ok text ∨ ∃ f c, answer = .error f ∧ f.code? = some c ∧ text = report c := by
  cases answer with
  | ok shown =>
    constructor
    · exact .inl
    · rintro (h | ⟨f, c, hf, -⟩)
      · exact h
      · cases hf
  | error f =>
    cases hcode : f.code? with
    | some c =>
      simp only [reported, hcode]
      constructor
      · intro h
        exact .inr ⟨f, c, rfl, hcode, (Except.ok.inj h).symm⟩
      · rintro (h | ⟨f', c', hf, hcode', rfl⟩)
        · cases h
        · obtain rfl := Except.error.inj hf
          rw [hcode] at hcode'
          rw [Option.some.inj hcode']
    | none =>
      simp only [reported, hcode]
      constructor
      · intro h
        cases h
      · rintro (h | ⟨f', c', hf, hcode', -⟩)
        · cases h
        · obtain rfl := Except.error.inj hf
          rw [hcode] at hcode'
          cases hcode'

/-- The line assigns a value to a name that begins with the word of a report, and shows it. -/
def ShowsErrorName (s : Session) (line : String) : Prop :=
  ∃ name expression, IsAssignment (trim line.toList) name expression ∧ BeginsWithError name ∧
    Completes (s.execute line).2

/-- An assignment that is calculated shows its value, which is no report. -/
theorem completes_of_isAssignment {s : Session} {line name expression text : String}
    (h : IsAssignment (trim line.toList) name expression)
    (htext : (s.calculate (String.ofList (trim line.toList))).2 = .ok text) : Completes (s.execute line).2 := by
  rw [execute_of_mem_equals h.mem, htext]
  refine ⟨text, rfl, ?_⟩
  unfold calculate at htext
  rw [splitAssignment_eq_some_iff.2 h] at htext
  cases hx : s.evaluate expression with
  | error f =>
    simp only [hx] at htext
    cases htext
  | ok x =>
    simp only [hx] at htext
    obtain ⟨shown, -, rfl⟩ := map_eq_ok.1 htext
    exact shown_ne_report name shown

/-- An answer is taken for a report if it is one, or shows a value under such a name. -/
theorem saysError_execute_iff {line : String} {answer : Option String} (h : (empty.execute line).2 = .ok answer) :
    CommandLine.saysError answer = true ↔ empty.FailsNumerically line ∨ empty.ShowsErrorName line := by
  -- no answer to a command begins so, and no command is an assignment
  by_cases hcommand : String.ofList (trim line.toList) ∈ commands
  · obtain ⟨answer', hanswer, hbegins⟩ := execute_of_mem_commands hcommand
    obtain rfl := Except.ok.inj (h.symm.trans hanswer)
    rw [hbegins]
    refine iff_of_false Bool.false_ne_true ?_
    rintro (⟨hnot, -⟩ | ⟨name, expression, hassign, -, -⟩)
    · exact hnot hcommand
    · have hmem := hassign.mem
      rw [← String.toList_ofList (l := trim line.toList)] at hmem
      generalize String.ofList (trim line.toList) = text at hcommand hmem
      revert text
      decide
  · have hexecute := h
    rw [execute_of_notMem_commands hcommand] at h
    obtain ⟨text, htext, rfl⟩ := map_eq_ok.1 h
    rw [saysError_some_iff]
    obtain hcalculate | ⟨f, c, hcalculate, hcode, rfl⟩ := reported_eq_ok_iff.1 htext
    · rw [beginsWithError_calculate_iff hcalculate]
      constructor
      · rintro ⟨name, expression, hsplit, hname⟩
        have hassign := splitAssignment_eq_some_iff.1 hsplit
        exact .inr ⟨name, expression, hassign, hname, completes_of_isAssignment hassign hcalculate⟩
      · rintro (⟨-, f, c, hf, -⟩ | ⟨name, expression, hassign, hname, -⟩)
        · rw [hcalculate] at hf
          cases hf
        · exact ⟨name, expression, splitAssignment_eq_some_iff.2 hassign, hname⟩
    · exact iff_of_true (beginsWithError_report c) (.inl ⟨hcommand, f, c, hcalculate, hcode⟩)

/-- Every numeric failure is reported, so the line has an answer. -/
theorem FailsNumerically.reports {s : Session} {line : String} (h : s.FailsNumerically line) :
    Reports (s.execute line).2 := by
  obtain ⟨hcommand, f, c, hf, hcode⟩ := h
  refine ⟨c, ?_⟩
  rw [execute_of_notMem_commands hcommand, hf]
  simp only [reported, hcode]
  rfl

theorem FailsNumerically.not_raises {s : Session} {line : String} (h : s.FailsNumerically line) :
    ¬ Raises (s.execute line).2 := by
  rintro ⟨f, hf⟩
  obtain ⟨c, hc⟩ := h.reports
  rw [hc] at hf
  cases hf

/-- No other answer is a report. -/
theorem reports_execute_iff {line : String} :
    Reports (empty.execute line).2 ↔ empty.FailsNumerically line := by
  constructor
  · rintro ⟨c, hc⟩
    have hbegins := saysError_some_iff.2 (beginsWithError_report c)
    obtain hfails | ⟨name, expression, -, -, text, htext, hreport⟩ := (saysError_execute_iff hc).1 hbegins
    · exact hfails
    · exact absurd (Option.some.inj (Except.ok.inj (htext.symm.trans hc))) (hreport c)
  · exact FailsNumerically.reports

end Session

namespace CommandLine

open Session

/-! ## The exit status -/

/-- The program ends with the status. -/
def ExitsWith (args : List String) (input : String) (status : Nat) : Prop :=
  ∃ shown, run args input = .ok (some status, shown)

theorem single_eq_ok_iff {text shown : String} {status : Nat} : single text = .ok (status, shown) ↔
    ∃ answer, (empty.execute text).2 = .ok answer ∧ status = (if saysError answer then 1 else 0) ∧
      shown = printed answer := by
  unfold single
  rw [bind_eq_ok]
  refine exists_congr fun answer => and_congr_right fun _ => ?_
  rw [Except.ok.injEq, Prod.mk.injEq]
  exact and_congr eq_comm eq_comm

/-- The text of an expression is taken as it stands, except for the one that is taken for an option. -/
theorem request_expression {text : String} (h : text ≠ "--verbose") : request ["-e", text] = .expression text := by
  have herase : ["-e", text].erase "--verbose" = ["-e", text] := by
    rw [List.erase_cons_tail (by decide), List.erase_cons_tail (by simpa using h), List.erase_nil]
  unfold request
  rw [herase]
  rfl

theorem run_expression {text : String} (h : text ≠ "--verbose") (input : String) :
    run ["-e", text] input = (single text).map fun (status, shown) => (some status, shown) := by
  unfold run
  rw [request_expression h]

theorem exitsWith_iff {text : String} (h : text ≠ "--verbose") (input : String) (status : Nat) :
    ExitsWith ["-e", text] input status ↔
      ∃ answer, (empty.execute text).2 = .ok answer ∧ status = if saysError answer then 1 else 0 := by
  unfold ExitsWith
  rw [run_expression h]
  constructor
  · rintro ⟨shown, hshown⟩
    obtain ⟨⟨status', shown'⟩, hsingle, heq⟩ := map_eq_ok.1 hshown
    obtain ⟨rfl, rfl⟩ : status' = status ∧ shown' = shown := by simpa using heq
    obtain ⟨answer, hanswer, hstatus, -⟩ := single_eq_ok_iff.1 hsingle
    exact ⟨answer, hanswer, hstatus⟩
  · rintro ⟨answer, hanswer, hstatus⟩
    exact ⟨printed answer, map_eq_ok.2 ⟨_, single_eq_ok_iff.2 ⟨answer, hanswer, hstatus, rfl⟩, rfl⟩⟩

/-- The text that is taken for an option would fail as an expression: it negates an unknown name. -/
theorem failsNumerically_verbose : empty.FailsNumerically "--verbose" :=
  ⟨by decide +kernel, .numeric (.unknownName "verbose"), .invalidFormat, by decide +kernel, rfl⟩

theorem run_verbose (input : String) : run ["-e", "--verbose"] input = .ok (some 1, usage) := rfl

theorem exitsWith_one_iff (text input : String) : ExitsWith ["-e", text] input 1 ↔
    empty.FailsNumerically text ∨ empty.ShowsErrorName text := by
  by_cases htext : text = "--verbose"
  · subst htext
    exact iff_of_true ⟨usage, run_verbose input⟩ (.inl failsNumerically_verbose)
  rw [exitsWith_iff htext]
  constructor
  · rintro ⟨answer, hanswer, hstatus⟩
    refine (saysError_execute_iff hanswer).1 ?_
    by_contra hbegins
    rw [if_neg hbegins] at hstatus
    cases hstatus
  · intro h
    obtain ⟨answer, hanswer⟩ : ∃ answer, (empty.execute text).2 = .ok answer := by
      obtain hfails | ⟨name, expression, -, -, shown, hshown, -⟩ := h
      · obtain ⟨c, hc⟩ := hfails.reports
        exact ⟨_, hc⟩
      · exact ⟨_, hshown⟩
    exact ⟨answer, hanswer, by rw [if_pos ((saysError_execute_iff hanswer).2 h)]⟩

theorem exitsWith_zero_iff (text input : String) : ExitsWith ["-e", text] input 0 ↔
    (∃ answer, (empty.execute text).2 = .ok answer) ∧ ¬ empty.FailsNumerically text ∧ ¬ empty.ShowsErrorName text := by
  by_cases htext : text = "--verbose"
  · subst htext
    refine iff_of_false ?_ fun h => h.2.1 failsNumerically_verbose
    rintro ⟨shown, hshown⟩
    rw [run_verbose] at hshown
    simp at hshown
  rw [exitsWith_iff htext, ← not_or]
  constructor
  · rintro ⟨answer, hanswer, hstatus⟩
    refine ⟨⟨answer, hanswer⟩, fun h => ?_⟩
    rw [if_pos ((saysError_execute_iff hanswer).2 h)] at hstatus
    cases hstatus
  · rintro ⟨⟨answer, hanswer⟩, h⟩
    exact ⟨answer, hanswer, by rw [if_neg fun hbegins => h ((saysError_execute_iff hanswer).1 hbegins)]⟩

theorem run_expression_error_iff (text input : String) :
    (∃ f, run ["-e", text] input = .error f) ↔ Raises (empty.execute text).2 := by
  by_cases htext : text = "--verbose"
  · subst htext
    refine iff_of_false ?_ failsNumerically_verbose.not_raises
    rintro ⟨f, hf⟩
    cases hf
  rw [run_expression htext]
  unfold single Raises
  refine exists_congr fun f => ?_
  rw [map_eq_error, bind_eq_error]
  constructor
  · rintro (h | ⟨answer, -, h⟩)
    · exact h
    · cases h
  · exact .inl

/-- The status of a single expression in a new session is 1 if the line fails with a numeric error, which is
then reported, and also if it assigns a value to a name that begins with `error`; it is 0 if the line has any
other answer or none. There is no status exactly if the line fails outside the numeric channel. -/
theorem exitsWith_expression (text input : String) :
    (ExitsWith ["-e", text] input 1 ↔ empty.FailsNumerically text ∨ empty.ShowsErrorName text) ∧
    (ExitsWith ["-e", text] input 0 ↔ (∃ answer, (empty.execute text).2 = .ok answer) ∧
      ¬ empty.FailsNumerically text ∧ ¬ empty.ShowsErrorName text) ∧
    ((∃ f, run ["-e", text] input = .error f) ↔ Raises (empty.execute text).2) ∧
    (Reports (empty.execute text).2 ↔ empty.FailsNumerically text) :=
  ⟨exitsWith_one_iff text input, exitsWith_zero_iff text input, run_expression_error_iff text input, reports_execute_iff⟩

/-- An assignment can succeed and end with the status of a failure. -/
theorem exitsWith_one_of_error_name : ExitsWith ["-e", "error = 5"] "" 1 ∧
    (empty.execute "error = 5").2 = .ok (some "error = 5") ∧ ¬ empty.FailsNumerically "error = 5" := by
  have hanswer : (empty.execute "error = 5").2 = .ok (some "error = 5") := by decide +kernel
  refine ⟨⟨"error = 5\n", by decide +kernel⟩, hanswer, fun h => ?_⟩
  obtain ⟨c, hc⟩ := h.reports
  have htext : "error = 5" = report c := Option.some.inj (Except.ok.inj (hanswer.symm.trans hc))
  revert htext
  cases c <;> decide +kernel

end CommandLine

end Reckon.Calculator
