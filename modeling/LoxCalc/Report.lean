import LoxCalc.Expr.Eval
import LoxCalc.Parse.TokenStream
import LoxCalc.Source.Scan

/-!
Contract: reported errors and the record of them.

Owns:
- `Report`, an error as it is shown, and `Location`, where a syntax error stands;
- the reports of lexical errors, parse errors and evaluation errors;
- `Diagnostics`, the reports so far, in order.

Reports may be filed with any wording; what this library itself reports is worded
by the faults.
-/

set_option autoImplicit false

namespace LoxCalc

/-! ## Reports -/

/-- Where a syntax error stands. -/
inductive Location where
  | atEnd
  | atLexeme (lexeme : String)
deriving DecidableEq, Repr

def Location.ofToken (t : Token) : Location :=
  if t.isEof then .atEnd else .atLexeme t.lexeme

/-- How a place is shown, with the blank in front of it. -/
def Location.text : Location → String
  | .atEnd => " at end"
  | .atLexeme lexeme => " at '" ++ lexeme ++ "'"

/-- An error as it is shown. -/
inductive Report where
  | lexical (line : UInt32) (message : String)
  | syntactic (line : UInt32) (location : Location) (message : String)
  | runtime (operator : Token) (message : String)
deriving DecidableEq, Repr

def lineText (line : UInt32) : String := String.ofList (Nat.toDigits 10 line.toNat)

namespace Report

def text : Report → String
  | .lexical line message => "[line " ++ lineText line ++ "] Error: " ++ message
  | .syntactic line location message =>
      "[line " ++ lineText line ++ "] Error" ++ location.text ++ ": " ++ message
  | .runtime operator message => message ++ "\n[line " ++ lineText operator.line ++ "]"

/-- Whether a report is about the text of a program and not about its evaluation. -/
def isStatic : Report → Bool
  | .lexical _ _ => true
  | .syntactic _ _ _ => true
  | .runtime _ _ => false

def isRuntime : Report → Bool
  | .runtime _ _ => true
  | _ => false

def atToken (t : Token) (message : String) : Report :=
  .syntactic t.line (Location.ofToken t) message

def ofLexical (e : LexicalError) : Report := .lexical e.line e.fault.message

def ofParse (e : Parse.Error) : Report := .atToken e.token e.fault.message

def ofEval (e : EvalError) : Report := .runtime e.operator e.message

end Report

/-! ## Diagnostics -/

/-- The reports so far, the oldest first. -/
structure Diagnostics where
  reports : List Report
deriving DecidableEq, Repr

namespace Diagnostics

def empty : Diagnostics := ⟨[]⟩

def add (d : Diagnostics) (r : Report) : Diagnostics := ⟨d.reports ++ [r]⟩

def append (d : Diagnostics) (rs : List Report) : Diagnostics := ⟨d.reports ++ rs⟩

/-- Whether a lexical or syntax error is on record. -/
def hasStatic (d : Diagnostics) : Bool := d.reports.any Report.isStatic

def hasRuntime (d : Diagnostics) : Bool := d.reports.any Report.isRuntime

end Diagnostics

end LoxCalc
