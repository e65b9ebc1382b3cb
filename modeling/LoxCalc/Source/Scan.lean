import LoxCalc.Double.Numeral
import LoxCalc.Source.Segment
import LoxCalc.Token

/-!
Contract: the tokens and lexical errors of a source text.

Owns:
- `placed`, segments with the lines they end on;
- `LexicalError`, a fault of the text with its line;
- `Scan` and `scan`, what scanning a text yields.

Does **not** own: the cutting of the text, which is `segments`.

Faulty segments are reported and skipped, so a scan always yields a token list,
and the list always ends with one end mark.
-/

set_option autoImplicit false

namespace LoxCalc

/-! ## Segments on lines -/

/-- How many lines further a segment ends than it starts. -/
def Segment.lines (s : Segment) : UInt32 := UInt32.ofNat (s.text.count '\n')

/-- Each segment with the line it ends on, when the first starts on `line`. -/
def placed (line : UInt32) : List Segment → List (Segment × UInt32)
  | [] => []
  | s :: rest => (s, line + s.lines) :: placed (line + s.lines) rest

/-- The line on which a list of segments ends, when the first starts on `line`. -/
def endLine (line : UInt32) (segs : List Segment) : UInt32 :=
  segs.foldl (fun current s => current + s.lines) line

@[simp] theorem endLine_nil (line : UInt32) : endLine line [] = line := rfl

@[simp] theorem endLine_cons (line : UInt32) (s : Segment) (rest : List Segment) :
    endLine line (s :: rest) = endLine (line + s.lines) rest :=
  rfl

@[simp] theorem endLine_append (line : UInt32) (first second : List Segment) :
    endLine line (first ++ second) = endLine (endLine line first) second :=
  List.foldl_append

/-- Segments that follow others start where those end. -/
@[simp] theorem placed_append (first : List Segment) :
    ∀ (line : UInt32) (second : List Segment),
      placed line (first ++ second) = placed line first ++ placed (endLine line first) second := by
  induction first with
  | nil =>
      intro line second
      rfl
  | cons s rest inductionHypothesis =>
      intro line second
      simp only [List.cons_append, placed, inductionHypothesis]
      rfl

/-! ## Tokens -/

/-- The literal of a token: the text between the quotes of a string, the double
that a number denotes. -/
def literalOf (kind : Kind) (text : List Char) : Option Value :=
  match kind with
  | .string => some (.string (String.ofList text.tail.dropLast))
  | .number => some (.number (Double.Numeral.ofChars text).toFloat)
  | _ => none

/-- The token of a segment on a line, if its class is one of tokens. -/
def Segment.token? (s : Segment) (line : UInt32) : Option Token :=
  match s.cls with
  | .token kind => some ⟨kind, String.ofList s.text, literalOf kind s.text, line⟩
  | _ => none

/-! ## Lexical errors -/

inductive LexicalFault where
  | unexpectedCharacter
  | unterminatedString
deriving DecidableEq, Repr

def LexicalFault.message : LexicalFault → String
  | .unexpectedCharacter => "Unexpected character."
  | .unterminatedString => "Unterminated string."

structure LexicalError where
  line : UInt32
  fault : LexicalFault
deriving DecidableEq, Repr

/-- The error of a segment on a line, if its class is a fault. -/
def Segment.error? (s : Segment) (line : UInt32) : Option LexicalError :=
  match s.cls with
  | .unexpected => some ⟨line, .unexpectedCharacter⟩
  | .unterminated => some ⟨line, .unterminatedString⟩
  | _ => none

/-! ## Scanning -/

/-- The tokens of a text, the end mark last, and its lexical errors. -/
structure Scan where
  tokens : List Token
  errors : List LexicalError
deriving DecidableEq, Repr

/-- Scans a list of characters that starts on `line`. -/
def scanFrom (line : UInt32) (text : List Char) : Scan :=
  let segs := segments text
  let onLines := placed line segs
  { tokens := onLines.filterMap (fun p => p.1.token? p.2) ++ [Token.eof (endLine line segs)]
    errors := onLines.filterMap (fun p => p.1.error? p.2) }

def scan (source : String) : Scan := scanFrom 1 source.toList

/-- The line of the end mark, which is the number of lines scanned. -/
def Scan.lastLine (s : Scan) : UInt32 := (s.tokens.getLast?.map Token.line).getD 1

end LoxCalc
