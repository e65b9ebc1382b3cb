import LoxCalc.Report

/-!
Contract: running a source text.

Owns:
- `Run`, what scanning, parsing and evaluating one text came to;
- `Diagnostics.run`, a run that files its reports;
- `Diagnostics.interpret`, the evaluation of one tree that files its error;
- `Step` and `Diagnostics.play`, sequences of runs over one record of reports.

Evaluation is held back as long as a lexical or syntax error is on record, be it
from this run or from an earlier one.
-/

set_option autoImplicit false

namespace LoxCalc

/-- What one run came to. -/
structure Run where
  scanned : Scan
  parsed : Except Parse.Error Expr
  /-- The outcome of evaluation, unless it was held back. -/
  outcome : Option (Except EvalError Value)

namespace Run

/-- The tree of a scanned text, or why there is none. -/
def parseScan (s : Scan) : Except Parse.Error Expr :=
  (Parse.TokenStream.ofTokens s.tokens).parse.1

/-- Scans and parses a text, and evaluates its tree unless that is `blocked` or the
text has lexical errors. -/
def ofSource (blocked : Bool) (source : String) : Run :=
  let scanned := scan source
  let parsed := parseScan scanned
  let outcome :=
    match parsed with
    | .error _ => none
    | .ok e => if blocked || !scanned.errors.isEmpty then none else some e.eval
  ⟨scanned, parsed, outcome⟩

def value? (r : Run) : Option Value :=
  match r.outcome with
  | some (.ok value) => some value
  | _ => none

def lexicalReports (r : Run) : List Report := r.scanned.errors.map Report.ofLexical

def parseReports (r : Run) : List Report :=
  match r.parsed with
  | .error e => [Report.ofParse e]
  | .ok _ => []

def evalReports (r : Run) : List Report :=
  match r.outcome with
  | some (.error e) => [Report.ofEval e]
  | _ => []

def reports (r : Run) : List Report := r.lexicalReports ++ r.parseReports ++ r.evalReports

/-- A run of its own, with no earlier reports. -/
def fresh (source : String) : Run := ofSource false source

end Run

/-- Runs a text over the reports so far, and files its own behind them. -/
def Diagnostics.run (d : Diagnostics) (source : String) : Option Value × Diagnostics :=
  let r := Run.ofSource d.hasStatic source
  (r.value?, d.append r.reports)

/-- Evaluates a tree over the reports so far, and files the error behind them if there is
one. -/
def Diagnostics.interpret (d : Diagnostics) (e : Expr) : Option Value × Diagnostics :=
  match e.eval with
  | .ok value => (some value, d)
  | .error err => (none, d.add (Report.ofEval err))

inductive Step where
  | run (source : String)
  | clear
deriving DecidableEq, Repr

/-- The value of a step, if it has one, and the reports after it. -/
def Diagnostics.perform (d : Diagnostics) : Step → Option Value × Diagnostics
  | .run source => d.run source
  | .clear => (none, .empty)

/-- What each of a list of steps yields, with the reports after it. -/
def Diagnostics.play (d : Diagnostics) : List Step → List (Option Value × Diagnostics)
  | [] => []
  | s :: rest => d.perform s :: (d.perform s).2.play rest

end LoxCalc
