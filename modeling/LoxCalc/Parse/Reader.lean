import LoxCalc.Report

/-!
Contract: a sequence of parsing steps with the reports they file.

Owns:
- `Move`, a step of a reader;
- `Reader`, a token stream with the reports so far;
- `Reader.play`, the states after each of a list of moves.
-/

set_option autoImplicit false

namespace LoxCalc.Parse

/-- A step of a reader: read an expression, or skip to where reading may resume. -/
inductive Move where
  | parse
  | synchronize
deriving DecidableEq, Repr

/-- A token stream with the reports so far. -/
structure Reader where
  stream : TokenStream
  reports : List Report
deriving DecidableEq, Repr

namespace Reader

/-- A reader at the start of a list of tokens, with earlier reports. -/
def ofTokens (tokens : List Token) (reports : List Report) : Reader :=
  ⟨TokenStream.ofTokens tokens, reports⟩

/-- A reader at the start of a source text, with its lexical errors reported. -/
def ofSource (source : String) : Reader :=
  ofTokens (scan source).tokens ((scan source).errors.map Report.ofLexical)

/-- One step: the expression that was read, if any, and the reader after it. A
failed read files one report. -/
def move (r : Reader) : Move → Option Expr × Reader
  | .parse =>
      match r.stream.parse with
      | (.ok e, rest) => (some e, ⟨rest, r.reports⟩)
      | (.error err, rest) => (none, ⟨rest, r.reports ++ [Report.ofParse err]⟩)
  | .synchronize => (none, ⟨r.stream.synchronize, r.reports⟩)

/-- What each of a list of moves yields, with the reader after it. -/
def play (r : Reader) : List Move → List (Option Expr × Reader)
  | [] => []
  | m :: rest => r.move m :: (r.move m).2.play rest

end Reader

end LoxCalc.Parse
