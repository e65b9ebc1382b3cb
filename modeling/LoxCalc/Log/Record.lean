import LoxCalc.Log.Verbosity
import LoxCalc.Run
import LoxCalc.Text.Quoted

/-!
Contract: what is logged.

Owns:
- `Record`, a log record, and `Settings`, how records are written;
- `wantsColour`, the choice of colours made by the environment and the kind of output;
- `Run.records`, the records of a run, in order.
-/

set_option autoImplicit false

namespace LoxCalc.Log

/-- A log record: its weight, the part of the program it comes from, and its
message. -/
structure Record where
  severity : Severity
  target : String
  message : String
deriving DecidableEq, Repr

/-- How log records are shown. -/
structure Settings where
  verbosity : Verbosity
  colour : Bool
deriving DecidableEq, Repr

namespace Settings

/-- The label of a severity, wrapped in the bold colour of the severity if colours
are on. -/
def label (s : Settings) (severity : Severity) : String :=
  if s.colour then "\x1b[1;" ++ severity.colour ++ "m" ++ severity.label ++ "\x1b[0m"
  else severity.label

/-- A record as a line of its own. -/
def line (s : Settings) (r : Record) : String :=
  s.label r.severity ++ " [" ++ r.target ++ "] " ++ r.message ++ "\n"

/-- The lines of those records that are shown. -/
def lines (s : Settings) (records : List Record) : String :=
  String.join ((records.filter (fun r => s.verbosity.admits r.severity)).map s.line)

end Settings

/-! ## Colours -/

/-- A switch in the environment is on unless it is `0`. -/
def switchedOn (setting : String) : Bool := setting ≠ "0"

/-- Whether labels are coloured. A force switch that is on wins; any other setting
of it does not count. The mere presence of a refusal turns colours off. Otherwise
they are on for a terminal, unless the plain switch is off. -/
def wantsColour (force refusal plain : Option String) (terminal : Bool) : Bool :=
  if (force.map switchedOn).getD false then true
  else if refusal.isSome then false
  else (plain.map switchedOn).getD true && terminal

/-! ## The records of a run -/

def runTarget : String := "lox_expr"

def scanTarget : String := "lox_expr::scanner"

def reportTarget : String := "lox_expr::error"

def reportMessage : Report → String
  | .lexical line message => "lexical error on line " ++ lineText line ++ ": " ++ message
  | .syntactic line location message =>
      "syntax error on line " ++ lineText line ++ location.text ++ ": " ++ message
  | .runtime operator message =>
      "runtime error on line " ++ lineText operator.line ++ ": " ++ message

def reportRecords (reports : List Report) : List Record :=
  reports.map (fun r => ⟨.debug, reportTarget, reportMessage r⟩)

def scanRecords (r : Run) : List Record :=
  let count := String.ofList (Nat.toDigits 10 r.scanned.tokens.length)
  let message := "scanned " ++ count ++ " tokens over " ++ lineText r.scanned.lastLine ++ " lines"
  [⟨.info, runTarget, "Scanning..."⟩] ++ reportRecords r.lexicalReports
    ++ [⟨.trace, scanTarget, message⟩,
      ⟨.debug, runTarget, "Tokens: " ++ Text.quotedList (r.scanned.tokens.map Token.text)⟩]

def parseRecords (r : Run) : List Record :=
  let result : List Record :=
    match r.parsed with
    | .error _ => []
    | .ok e => [⟨.debug, runTarget, "Expression: " ++ e.text⟩]
  [⟨.info, runTarget, "Parsing..."⟩] ++ reportRecords r.parseReports ++ result

/-- The records of evaluation, if there was one. -/
def evalRecords (r : Run) : List Record :=
  match r.outcome with
  | none => []
  | some _ => [⟨.info, runTarget, "Interpreting..."⟩] ++ reportRecords r.evalReports

def runRecords (r : Run) : List Record := scanRecords r ++ parseRecords r ++ evalRecords r

end LoxCalc.Log
