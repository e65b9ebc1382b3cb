import LoxCalc.Source.Scan

/-!
Contract: scanning a text in place, with a cursor that is moved by single characters.

Owns:
- `indexed`, the characters of a text with their byte offsets, and `byteSlice?`, the text
  between two byte offsets;
- `Cursor`, the places of a scan and what it has found so far;
- `Call` and `Recording`, the operations of a scan as they are called, one after the other;
- `Scanning` and `scanTokens`, the scan of a whole text.

Does **not** own: what a scan yields, which is `scan`.

Places are counted in characters, and texts are cut at byte offsets. Cutting at offsets that
are out of order or inside a character has no result, nor has a loop that stays where it is,
and then the whole scan has none. Nothing checks that a cursor stays inside its text.
-/

set_option autoImplicit false

namespace LoxCalc

/-! ## Bytes -/

/-- Characters with the byte offsets at which they start, when the first starts at `offset`. -/
def indexed (offset : Nat) : List Char → List (Nat × Char)
  | [] => []
  | c :: rest => (offset, c) :: indexed (offset + c.utf8Size) rest

/-- The byte offset of a place in a text; at the end and behind it, the size of the text. -/
def byteOffset (source : String) (place : Nat) : Nat :=
  ((indexed 0 source.toList)[place]?).elim source.utf8ByteSize Prod.fst

/-- The text between two byte offsets, if they are in order and both stand where a character
starts or the text ends. -/
def byteSlice? (source : String) (first last : Nat) : Option String :=
  if first ≤ last ∧ String.Pos.Raw.IsValid source ⟨first⟩ ∧ String.Pos.Raw.IsValid source ⟨last⟩
  then some (String.Pos.Raw.extract source ⟨first⟩ ⟨last⟩)
  else none

/-- A scan on its way: what it has found, where the lexeme at hand starts, where the cursor
stands, and the line there. -/
structure Cursor where
  tokens : List Token
  errors : List LexicalError
  start : Nat
  current : Nat
  line : UInt32
deriving DecidableEq, Repr

namespace Cursor

/-! ## Calls -/

/-- The operations of a scan, with what they are given. -/
inductive Op where
  | isAtEnd
  | peek
  | peekNext
  | advance
  | accept (expected : Char)
  | slice (first last : Nat)
  | addToken (kind : Kind)
  | word
  | number
  | string
  | scanToken
deriving DecidableEq, Repr

/-- A call of an operation: the places of the scan when it is made, and where the cursor
stands when it returns. -/
structure Call where
  op : Op
  start : Nat
  current : Nat
  behind : Nat
deriving DecidableEq, Repr

/-- Whether a call scans one token. -/
def Call.isTurn (call : Call) : Bool := call.op = .scanToken

/-- A scan with the calls that have returned, the latest first. -/
structure Recording where
  cursor : Cursor
  calls : List Call
deriving DecidableEq, Repr

/-- A step of a scan, which may have no result. -/
abbrev Scanning := StateT Recording Option

def look : Scanning Cursor := do return (← get).cursor

def move (change : Cursor → Cursor) : Scanning Unit :=
  modify fun s => { s with cursor := change s.cursor }

/-- Records a call that was made at `before` and returns now. -/
def record (op : Op) (before : Cursor) : Scanning Unit :=
  modify fun s => { s with
    calls := ⟨op, before.start, before.current, s.cursor.current⟩ :: s.calls }

/-- Carries out a step as a call of an operation. -/
def called {α : Type} (op : Op) (body : Scanning α) : Scanning α := do
  let before ← look
  let value ← body
  record op before
  return value

section

variable (source : String)

/-- Repeats a step as long as a test holds. A round that does not bring the cursor nearer to
the end of the text leaves the loop without a result, so a loop with a result has ended. -/
def repeatWhile (test : Scanning Bool) (step : Scanning Unit) (s : Recording) :
    Option (Unit × Recording) :=
  match test.run s with
  | none => none
  | some (false, tested) => some ((), tested)
  | some (true, tested) =>
      match step.run tested with
      | none => none
      | some ((), next) =>
          if source.length - next.cursor.current < source.length - s.cursor.current then
            repeatWhile test step next
          else none
termination_by source.length - s.cursor.current

/-! ## Single characters -/

/-- The character at a place; at the end and behind it, the character zero. -/
def charAt (place : Nat) : Char := ((indexed 0 source.toList)[place]?).elim '\x00' Prod.snd

def isAtEnd : Scanning Bool := called .isAtEnd do
  return decide ((indexed 0 source.toList).length ≤ (← look).current)

def peek : Scanning Char := called .peek do return charAt source (← look).current

def peekNext : Scanning Char := called .peekNext do return charAt source ((← look).current + 1)

def advance : Scanning Char := called .advance do
  let c ← peek source
  move fun p => { p with current := p.current + 1 }
  return c

/-- Passes the next character if it is the expected one. -/
def accept (expected : Char) : Scanning Bool := called (.accept expected) do
  if (← peek source) ≠ expected then return false
  else if ← isAtEnd source then return false
  else
    move fun p => { p with current := p.current + 1 }
    return true

/-- Passes characters as long as the next one is of a class. -/
def passWhile (ofClass : Char → Bool) : Scanning Unit :=
  repeatWhile source (do return ofClass (← peek source)) (discard (advance source))

/-- Whether the next character is there and is not `stop`. -/
def staysBefore (stop : Char) : Scanning Bool := do
  if (← peek source) = stop then return false
  else return !(← isAtEnd source)

/-! ## Tokens and errors -/

/-- The text between two places. -/
def slice (first last : Nat) : Scanning String := called (.slice first last)
  (StateT.lift (byteSlice? source (byteOffset source first) (byteOffset source last)))

/-- The text of the lexeme at hand. -/
def lexeme : Scanning String := do
  let p ← look
  slice source p.start p.current

def addToken (kind : Kind) (literal : Option Value) : Scanning Unit := called (.addToken kind) do
  let text ← lexeme source
  move fun p => { p with tokens := p.tokens ++ [⟨kind, text, literal, p.line⟩] }

def report (fault : LexicalFault) : Scanning Unit :=
  move fun p => { p with errors := p.errors ++ [⟨p.line, fault⟩] }

def nextLine : Scanning Unit := move fun p => { p with line := p.line + 1 }

/-! ## Lexemes -/

def word : Scanning Unit := called .word do
  passWhile source Segment.isWordPart
  let text ← lexeme source
  addToken source (Kind.ofWord text) none

/-- Passes a point and the digits behind it, if there are any. -/
def fraction : Scanning Unit := do
  if (← peek source) = '.' then
    if (← peekNext source).isDigit then
      discard (advance source)
      passWhile source Char.isDigit

def number : Scanning Unit := called .number do
  passWhile source Char.isDigit
  fraction source
  let text ← lexeme source
  addToken source .number (some (.number (Double.Numeral.ofChars text.toList).toFloat))

/-- Passes a character inside quotes. -/
def passQuoted : Scanning Unit := do
  let c ← peek source
  (if c = '\n' then nextLine else pure ())
  discard (advance source)

def string : Scanning Unit := called .string do
  repeatWhile source (staysBefore source '"') (passQuoted source)
  if ← isAtEnd source then report .unterminatedString
  else
    discard (advance source)
    let p ← look
    let body ← slice source (p.start + 1) (p.current - 1)
    addToken source .string (some (.string body))

/-- Scans on behind the first character of a lexeme. -/
def scanBehind (c : Char) : Scanning Unit :=
  match Segment.symbol? c, Segment.joinable? c with
  | some kind, _ => addToken source kind none
  | none, some (alone, joined) => do
      if ← accept source '=' then addToken source joined none
      else addToken source alone none
  | none, none =>
      if c = '/' then do
        if ← accept source '/' then
          repeatWhile source (staysBefore source '\n') (discard (advance source))
        else addToken source .slash none
      else if c = '\n' then nextLine
      else if Segment.isBlank c then pure ()
      else if c = '"' then string source
      else if c.isDigit then number source
      else if Segment.isWordStart c then word source
      else report .unexpectedCharacter

def scanToken : Scanning Unit := called .scanToken do
  let c ← advance source
  scanBehind source c

/-! ## The whole text -/

/-- Scans one token after the other and adds the end mark. -/
def scanTokens : Scanning Unit := do
  repeatWhile source (do return !(← isAtEnd source)) (do
    move fun p => { p with start := p.current }
    scanToken source)
  move fun p => { p with tokens := p.tokens ++ [Token.eof p.line] }

end

/-- A scan that has not started. -/
def unstarted : Recording := ⟨⟨[], [], 0, 0, 1⟩, []⟩

end Cursor

end LoxCalc
