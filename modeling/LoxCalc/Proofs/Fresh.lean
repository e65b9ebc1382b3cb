import LoxCalc.Proofs.Parse.Acceptance
import LoxCalc.Proofs.Source.Lines
import LoxCalc.Run

/-!
Contract: what a run of its own comes to on a text without lexical errors.

Owns:
- `ofTokens_scan` and `parseScan_of_read`, that a text is parsed as its tokens are read;
- `fresh_unparsed`, `fresh_failed` and `fresh_value`, the value and the reports by what
  parsing and evaluation yield;
- `Ends`, what the run of a text comes to that can be read.
-/

set_option autoImplicit false

namespace LoxCalc

open Parse

theorem ofTokens_scan (source : String) :
    ∃ mark, TokenStream.ofTokens (scan source).tokens =
      ⟨tokensOn 1 (segments source.toList), mark⟩ := by
  have unmarked : ∀ t ∈ tokensOn 1 (segments source.toList), t.isEof = false :=
    fun t member => not_isEof_of_mem_tokensOn member
  rw [scan_tokens]
  exact ⟨_, TokenStream.ofTokens_marked [] unmarked rfl⟩

theorem parseScan_of_read {source : String} {e : Expr} {rest : List Token}
    (reads : State.start.read (tokensOn 1 (segments source.toList)) = (.ok e, rest)) :
    Run.parseScan (scan source) = .ok e := by
  obtain ⟨mark, isStream⟩ := ofTokens_scan source
  have parses : (TokenStream.ofTokens (scan source).tokens).parse = (.ok e, ⟨rest, mark⟩) := by
    rw [isStream]
    exact (parse_eq_ok_iff _ _ e).mpr ⟨reads, rfl⟩
  rw [Run.parseScan, parses]

/-- A run of its own comes to a value and no report, or to an evaluation error alone. -/
inductive Ends (source : String) : Except EvalError Value → Prop where
  | value {value : Value} (isValue : (Run.fresh source).value? = some value)
      (noReports : (Run.fresh source).reports = []) : Ends source (.ok value)
  | error {fault : EvalError} (noValue : (Run.fresh source).value? = none)
      (reported : (Run.fresh source).reports = [Report.ofEval fault]) :
      Ends source (.error fault)

/-- A run that has a value comes to that value. -/
theorem Ends.eq_ok {source : String} {result : Except EvalError Value}
    (ends : Ends source result) {value : Value} (isValue : (Run.fresh source).value? = some value) :
    result = .ok value := by
  cases ends with
  | value own _ => rw [Option.some.inj (own.symm.trans isValue)]
  | error noValue _ => exact absurd (noValue.symm.trans isValue) (by simp)

variable {source : String} (clean : (scan source).errors = [])

include clean

theorem fresh_unparsed {fault : Parse.Error}
    (parse : Run.parseScan (scan source) = .error fault) :
    (Run.fresh source).value? = none ∧ (Run.fresh source).reports = [Report.ofParse fault] := by
  simp [Run.fresh, Run.ofSource, Run.value?, Run.reports, Run.lexicalReports, Run.parseReports,
    Run.evalReports, clean, parse]

theorem fresh_failed {e : Expr} {fault : EvalError}
    (parse : Run.parseScan (scan source) = .ok e) (eval : e.eval = .error fault) :
    (Run.fresh source).value? = none ∧ (Run.fresh source).reports = [Report.ofEval fault] := by
  simp [Run.fresh, Run.ofSource, Run.value?, Run.reports, Run.lexicalReports, Run.parseReports,
    Run.evalReports, clean, parse, eval]

theorem fresh_value {e : Expr} {value : Value}
    (parse : Run.parseScan (scan source) = .ok e) (eval : e.eval = .ok value) :
    (Run.fresh source).value? = some value ∧ (Run.fresh source).reports = [] := by
  simp [Run.fresh, Run.ofSource, Run.value?, Run.reports, Run.lexicalReports, Run.parseReports,
    Run.evalReports, clean, parse, eval]

theorem ends_eval {e : Expr} (parse : Run.parseScan (scan source) = .ok e) : Ends source e.eval := by
  cases eval : e.eval with
  | ok value =>
      obtain ⟨isValue, noReports⟩ := fresh_value clean parse eval
      exact .value isValue noReports
  | error fault =>
      obtain ⟨noValue, reported⟩ := fresh_failed clean parse eval
      exact .error noValue reported

end LoxCalc
