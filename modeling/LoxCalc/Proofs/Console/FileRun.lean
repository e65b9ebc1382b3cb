import LoxCalc.Proofs.Console.Prompt
import LoxCalc.Proofs.Session

/-!
Contract: the exit code of a call on a file tells how the run of its text ended.

Owns:
- `Ending`, what such a call shows for each way in which a run can end;
- `ending_runFile`, that every text ends in one of these ways;
- `file_exit_faithful`, that the exit code says which one it was.

The code is chosen by the reports on record and not by the value. That the two agree is
due to the phases: a syntax error ends a run, static errors hold evaluation back, and an
evaluation that fails files one report and yields no value.
-/

set_option autoImplicit false

namespace LoxCalc.Console

open LoxCalc.Log

variable {s : Settings} {source : String}

/-! ## The ways to end -/

/-- How the run of a text from a file may end, with the exit that it is shown as. Besides
the reports of the run, one per line, nothing but log records goes to the error stream. -/
inductive Ending (s : Settings) (source : String) : Exit → Prop where
  /-- There is a value and nothing to report. -/
  | value {e : Expr} {value : Value} (clean : (scan source).errors = [])
      (parsed : Run.parseScan (scan source) = .ok e) (evaluated : e.eval = .ok value)
      (isValue : (Diagnostics.empty.run source).1 = some value)
      (noReports : (Diagnostics.empty.run source).2.reports = []) :
      Ending s source ⟨0, value.text ++ "\n", s.lines (runRecords (Run.fresh source))⟩
  /-- Lexical errors come first, and at most one syntax error behind them. -/
  | static {lexical last : List Report}
      (faulty : (scan source).errors ≠ [] ∨ ∃ fault, Run.parseScan (scan source) = .error fault)
      (noValue : (Diagnostics.empty.run source).1 = none)
      (reported : (Diagnostics.empty.run source).2.reports = lexical ++ last)
      (nonempty : lexical ++ last ≠ [])
      (areLexical : ∀ r ∈ lexical, ∃ line message, r = .lexical line message)
      (isSyntactic : last = [] ∨ ∃ line location message,
        last = [.syntactic line location message]) :
      Ending s source ⟨65, "", s.lines (runRecords (Run.fresh source)) ++
        String.join ((lexical ++ last).map fun r => r.text ++ "\n")⟩
  /-- The text is without errors, and its evaluation failed. -/
  | runtime {e : Expr} {fault : EvalError} (clean : (scan source).errors = [])
      (parsed : Run.parseScan (scan source) = .ok e) (evaluated : e.eval = .error fault)
      (noValue : (Diagnostics.empty.run source).1 = none)
      (reported : (Diagnostics.empty.run source).2.reports =
        [.runtime fault.operator fault.message]) :
      Ending s source ⟨70, "", s.lines (runRecords (Run.fresh source)) ++
        ((Report.runtime fault.operator fault.message).text ++ "\n")⟩

theorem lexical_of_mem_lexicalReports {r : Report} (member : r ∈ lexicalReports source) :
    ∃ line message, r = .lexical line message := by
  obtain ⟨e, _, rfl⟩ := List.mem_map.mp member
  exact ⟨e.line, e.fault.message, rfl⟩

theorem errors_ne_nil (unclean : lexicalReports source ≠ []) : (scan source).errors ≠ [] := by
  intro clean
  rw [lexicalReports, clean] at unclean
  contradiction

theorem errors_eq_nil (clean : lexicalReports source = []) : (scan source).errors = [] :=
  List.map_eq_nil_iff.mp clean

theorem exitCode_of_static {reports : List Report} {r : Report} (member : r ∈ reports)
    (isStatic : r.isStatic = true) : exitCode ⟨reports⟩ = 65 := by
  have static : (⟨reports⟩ : Diagnostics).hasStatic = true :=
    List.any_eq_true.mpr ⟨r, member, isStatic⟩
  rw [exitCode, if_pos static]
  rfl

/-- The exit that a value and some reports are shown as. -/
def shown (s : Settings) (source : String) (value : Option Value) (reports : List Report) :
    Exit where
  code := exitCode ⟨reports⟩
  stdout :=
    match value with
    | some value => value.text ++ "\n"
    | none => ""
  stderr := s.lines (runRecords (Run.fresh source)) ++ reportLines ⟨reports⟩

theorem runFile_ok (s : Settings) (path source : String) :
    runFile s path (.ok source) =
      shown s source (Diagnostics.empty.run source).1 (Diagnostics.empty.run source).2.reports :=
  rfl

/-- Every text ends in one of the ways, by what its run can come to. -/
theorem ending_runFile (s : Settings) (path source : String) :
    Ending s source (runFile s path (.ok source)) := by
  have outcome := Diagnostics.empty.outcome_run source
  have reported := Diagnostics.empty.run_reports source
  rw [show Diagnostics.empty.reports = [] from rfl, List.nil_append] at reported
  rw [runFile_ok]
  generalize isValue : (Diagnostics.empty.run source).1 = value at outcome
  generalize isFiled : Diagnostics.empty.filed source = filed at outcome reported
  rw [reported]
  cases outcome with
  | @unparsed fault parse =>
      have ends : Ending s source _ := .static (.inr ⟨fault, parse⟩) isValue reported (by simp)
        (fun r member => lexical_of_mem_lexicalReports member) (.inr ⟨_, _, _, rfl⟩)
      have code := exitCode_of_static (List.mem_append_right (lexicalReports source)
        (List.mem_singleton_self (Report.ofParse fault))) rfl
      rw [shown, code]
      exact ends
  | heldBack parse held =>
      have unclean := held.resolve_left Bool.false_ne_true
      have whole : lexicalReports source ++ [] = lexicalReports source := List.append_nil _
      have ends : Ending s source _ := .static (.inl (errors_ne_nil unclean)) isValue
        (reported.trans whole.symm) (whole.symm ▸ unclean)
        (fun r member => lexical_of_mem_lexicalReports member) (.inl rfl)
      obtain ⟨r, member⟩ := List.exists_mem_of_ne_nil _ unclean
      obtain ⟨line, message, isLexical⟩ := lexical_of_mem_lexicalReports member
      rw [shown, exitCode_of_static member (isLexical ▸ rfl)]
      rw [whole] at ends
      exact ends
  | failed parse free clean eval =>
      have ends : Ending s source _ := .runtime (errors_eq_nil clean) parse eval isValue reported
      simpa [shown, reportLines, exitCode, codeRuntime, Diagnostics.hasStatic,
        Diagnostics.hasRuntime, Report.ofEval, Report.isStatic, Report.isRuntime] using ends
  | value parse free clean eval =>
      have ends : Ending s source _ := .value (errors_eq_nil clean) parse eval isValue reported
      simpa [shown, reportLines, exitCode, codeOk, Diagnostics.hasStatic,
        Diagnostics.hasRuntime] using ends

/-! ## What the code tells -/

theorem Ending.code_eq_zero_iff {call : Exit} (ending : Ending s source call) :
    call.code = 0 ↔ ∃ value, (Diagnostics.empty.run source).1 = some value := by
  cases ending with
  | value _ _ _ isValue _ => exact iff_of_true rfl ⟨_, isValue⟩
  | static _ noValue _ _ _ _ => simp [noValue]
  | runtime _ _ _ noValue _ => simp [noValue]

theorem Ending.code_eq_static_iff {call : Exit} (ending : Ending s source call) :
    call.code = 65 ↔
      (scan source).errors ≠ [] ∨ ∃ fault, Run.parseScan (scan source) = .error fault := by
  cases ending with
  | value clean parsed _ _ _ => simp [clean, parsed]
  | static faulty _ _ _ _ _ => exact iff_of_true rfl faulty
  | runtime clean parsed _ _ _ => simp [clean, parsed]

theorem Ending.code_eq_runtime_iff {call : Exit} (ending : Ending s source call) :
    call.code = 70 ↔ (scan source).errors = [] ∧
      ∃ e fault, Run.parseScan (scan source) = .ok e ∧ e.eval = .error fault := by
  cases ending with
  | value clean parsed evaluated _ _ => simp [parsed, evaluated]
  | static faulty _ _ _ _ _ =>
      refine iff_of_false (show (65 : UInt32) ≠ 70 by decide) ?_
      rintro ⟨clean, e, _, parsed, _⟩
      rcases faulty with unclean | ⟨fault, unparsed⟩
      · exact unclean clean
      · rw [parsed] at unparsed
        contradiction
  | runtime clean parsed evaluated _ _ => exact iff_of_true rfl ⟨clean, _, _, parsed, evaluated⟩

/-! ## Calls -/

theorem textOf_toUTF8 (source : String) : textOf (.ok source.toUTF8) = .ok source := by
  have isText : String.fromUTF8? source.toUTF8 = some source :=
    (fromUTF8?_eq_some_iff (utf8 source) source).mpr rfl
  rw [textOf, isText]

theorem command_file {folder : Folder} {path source : String}
    (isFile : folder.read path = .ok source.toUTF8) (s : Settings) (input : List UInt8) :
    command s folder input [path] = runFile s path (.ok source) := by
  rw [command, isFile, textOf_toUTF8]

/-- **Exit codes are faithful.** A call on a file that holds a text shows how a run of the
text with a new record of reports ended: with code 0 and its value, with code 65 and its
lexical and syntax errors, or with code 70 and its runtime error. Log settings change
neither the code nor the standard output. -/
theorem file_exit_faithful (s : Settings) (folder : Folder) (input : List UInt8)
    (path source : String) (isFile : folder.read path = .ok source.toUTF8) :
    let call := command s folder input [path]
    Ending s source call ∧
      (call.code = 0 ↔ ∃ value, (Diagnostics.empty.run source).1 = some value) ∧
      (call.code = 65 ↔
        (scan source).errors ≠ [] ∨ ∃ fault, Run.parseScan (scan source) = .error fault) ∧
      (call.code = 70 ↔ (scan source).errors = [] ∧
        ∃ e fault, Run.parseScan (scan source) = .ok e ∧ e.eval = .error fault) ∧
      ∀ other : Settings, (command other folder input [path]).code = call.code ∧
        (command other folder input [path]).stdout = call.stdout := by
  intro call
  have isRun : call = runFile s path (.ok source) := command_file isFile s input
  have ending : Ending s source call := isRun ▸ ending_runFile s path source
  refine ⟨ending, ending.code_eq_zero_iff, ending.code_eq_static_iff,
    ending.code_eq_runtime_iff, ?_⟩
  intro other
  rw [isRun, command_file isFile other input]
  exact ⟨rfl, rfl⟩

/-- A stray character and a missing operand in one file: nothing is evaluated, whatever is
logged. -/
theorem file_exit_faithful_static :
    let folder : Folder := ⟨[⟨["f"], "1 @ +".toUTF8⟩]⟩
    let call := command ⟨.upTo .warn, false⟩ folder [] ["f"]
    folder.read "f" = .ok "1 @ +".toUTF8 ∧ Ending ⟨.upTo .warn, false⟩ "1 @ +" call ∧
      call.code = 65 ∧ (command ⟨.upTo .trace, true⟩ folder [] ["f"]).code = 65 := by
  intro folder call
  have oneStep : pathSteps "f" = ["f"] := by
    unfold pathSteps String.splitOn
    rw [String.splitOnAux, String.splitOnAux]
    rfl
  have isFile : folder.read "f" = .ok "1 @ +".toUTF8 := by
    rw [Folder.read, oneStep]
    rfl
  obtain ⟨ending, _, isStatic, _, same⟩ :=
    file_exit_faithful ⟨.upTo .warn, false⟩ folder [] "f" "1 @ +" isFile
  have static : call.code = 65 := isStatic.mpr (.inl (by decide +kernel))
  exact ⟨isFile, ending, static, (same ⟨.upTo .trace, true⟩).1.trans static⟩

end LoxCalc.Console
