import LoxCalc.Parse.Reader

/-!
Contract: reading in place, by descent through the levels of the grammar.

Owns:
- `Descent`, where a reading stands in a list of tokens, with the reports so far;
- `Descent.Call`, the calls that look at a token or move on, recorded when they return;
- the operations of a reading, each under the name of what it does;
- `Descent.expression` with the levels below it, and `Descent.synchronize`;
- `Descent.play`, the moves of a reader in place.

Does **not** own: what is read, which is `TokenStream.parse`.

Looking at a place outside the list has no result, nor has a reading that stays where it is,
and then the whole has none. Nothing checks that a descent stays inside its list.
-/

set_option autoImplicit false

namespace LoxCalc.Parse

/-- A reading on its way: the place of the token that is next, and the reports so far. -/
structure Descent where
  current : Nat
  reports : List Report
deriving DecidableEq, Repr

namespace Descent

/-! ## Calls -/

/-- The operations that look at a token. -/
inductive Op where
  | peek
  | previous
  | advance
  | refuse
deriving DecidableEq, Repr

/-- The place that an operation looks at. Before the first token there is none, and the first
one stands for it. -/
def Op.place (current : Nat) : Op → Nat
  | .previous => current - 1
  | _ => current

/-- A call of an operation: where the reading stands when it is made, and when it returns. -/
structure Call where
  op : Op
  current : Nat
  behind : Nat
deriving DecidableEq, Repr

/-- A reading with the calls that have returned, the latest first. -/
structure Recording where
  descent : Descent
  calls : List Call
deriving DecidableEq, Repr

/-- A step of a reading, which may have no result. -/
abbrev Walking := StateT Recording Option

/-- A step that yields nothing once a fault is reported. -/
abbrev Reading := OptionT Walking

def stand : Walking Descent := do return (← get).descent

def change (next : Descent → Descent) : Walking Unit :=
  modify fun s => { s with descent := next s.descent }

/-- Carries out a step as a call of an operation. -/
def called {α : Type} (op : Op) (body : Walking α) : Walking α := do
  let before ← stand
  let value ← body
  modify fun s => { s with calls := ⟨op, before.current, s.descent.current⟩ :: s.calls }
  return value

section

variable (tokens : List Token)

/-! ## Single tokens -/

def lookAt (place : Nat) : Walking Token := StateT.lift tokens[place]?

def peek : Walking Token := called .peek do lookAt tokens (← stand).current

def previous : Walking Token := called .previous do lookAt tokens ((← stand).current - 1)

def isAtEnd : Walking Bool := do return (← peek tokens).isEof

/-- Passes a token, but no end mark. -/
def advance : Walking Token := called .advance do
  if ← isAtEnd tokens then previous tokens
  else
    change fun d => { d with current := d.current + 1 }
    previous tokens

def check (kind : Kind) : Walking Bool := do
  if ← isAtEnd tokens then return false
  else return decide ((← peek tokens).kind = kind)

/-- Passes the next token if it is of one of the kinds. -/
def accept : List Kind → Walking Bool
  | [] => return false
  | kind :: others => do
      if ← check tokens kind then
        discard (advance tokens)
        return true
      else accept others

/-- Reports a fault at the next token. -/
def report (fault : Fault) : Walking Unit := called .refuse do
  let t ← lookAt tokens (← stand).current
  change fun d => { d with reports := d.reports ++ [Report.atToken t fault.message] }

def refuse {α : Type} (fault : Fault) : Reading α := do
  report tokens fault
  failure

/-- Passes a token of the kind that has to come next. -/
def consume (kind : Kind) (fault : Fault) : Reading Token := do
  if ← check tokens kind then advance tokens
  else refuse tokens fault

/-- Repeats a step on a value as long as a test holds. A round that does not come nearer to
the end of the list leaves the loop without a result, so a loop with a result has ended. -/
def repeatWhile {α : Type} (test : Walking Bool) (round : α → Reading α) (value : α)
    (s : Recording) : Option (Option α × Recording) :=
  match test.run s with
  | none => none
  | some (false, tested) => some (some value, tested)
  | some (true, tested) =>
      match (round value).run.run tested with
      | none => none
      | some (none, failed) => some (none, failed)
      | some (some next, behind) =>
          if tokens.length - behind.descent.current < tokens.length - s.descent.current then
            repeatWhile test round next behind
          else none
termination_by tokens.length - s.descent.current

/-! ## Levels -/

/-- Behind an operator with its left operand, reads the right one. -/
def rightOf (operand : Reading Expr) (left : Expr) : Reading Expr := do
  let operator ← previous tokens
  let right ← operand
  return .binary left operator right

/-- A level of infix operators: operands with operators between them, which group to the
left. -/
def infixLevel (operators : List Kind) (operand : Reading Expr) : Reading Expr := do
  let first ← operand
  repeatWhile tokens (accept tokens operators) (rightOf tokens operand) first

/-! The levels are given the reading of operands, which closes the circle below. -/

def factor (operand : Reading Expr) : Reading Expr := infixLevel tokens [.slash, .star] operand

def term (operand : Reading Expr) : Reading Expr :=
  infixLevel tokens [.minus, .plus] (factor tokens operand)

def comparison (operand : Reading Expr) : Reading Expr :=
  infixLevel tokens [.greater, .greaterEqual, .less, .lessEqual] (term tokens operand)

def equality (operand : Reading Expr) : Reading Expr :=
  infixLevel tokens [.bangEqual, .equalEqual] (comparison tokens operand)

def expressionOver (operand : Reading Expr) : Reading Expr := equality tokens operand

def primary (operand : Reading Expr) : Reading Expr := do
  if ← accept tokens [.kwFalse] then return .literal (.bool false)
  else if ← accept tokens [.kwTrue] then return .literal (.bool true)
  else if ← accept tokens [.kwNil] then return .literal .nil
  else if ← accept tokens [.number, .string] then
    return .literal ((← previous tokens).literal.getD .nil)
  else if ← accept tokens [.leftParen] then
    let inner ← expressionOver tokens operand
    let _ ← consume tokens .rightParen .expectedClosing
    return .grouping inner
  else refuse tokens .expectedExpression

def unaryOver (operand : Reading Expr) : Reading Expr := do
  if ← accept tokens [.bang, .minus] then
    let operator ← previous tokens
    let right ← operand
    return .unary operator right
  else primary tokens operand

/-- Reads an operand. An operand inside it that does not start further on has no result, so
a reading with a result has ended. -/
def unary (s : Recording) : Option (Option Expr × Recording) :=
  (unaryOver tokens fun inner =>
    if tokens.length - inner.descent.current < tokens.length - s.descent.current then unary inner
    else none) s
termination_by tokens.length - s.descent.current

def expression : Reading Expr := expressionOver tokens (unary tokens)

/-! ## Moves -/

def parse : Walking (Option Expr) := (expression tokens).run

/-- Whether no place to resume at is reached. -/
def skips : Walking Bool := do
  if ← isAtEnd tokens then return false
  else if (← previous tokens).kind = .semicolon then return false
  else return !(← peek tokens).kind.opensStatement

def synchronize : Walking Unit := do
  discard (advance tokens)
  discard (OptionT.run
    (repeatWhile tokens (skips tokens) (fun _ => OptionT.lift (discard (advance tokens))) ()))

def perform : Move → Walking (Option Expr)
  | .parse => parse tokens
  | .synchronize => do
      synchronize tokens
      return none

/-- What each of a list of moves yields, with where the reading stands behind it. -/
def play : List Move → Walking (List (Option Expr × Descent))
  | [] => return []
  | m :: rest => do
      let result ← perform tokens m
      let behind ← stand
      return (result, behind) :: (← play rest)

end

/-- A list of moves from the start of a list of tokens, with earlier reports. -/
def playFrom (tokens : List Token) (reports : List Report) (moves : List Move) :
    Option (List (Option Expr × Descent) × Recording) :=
  (play (completed tokens) moves).run ⟨⟨0, reports⟩, []⟩

end Descent

end LoxCalc.Parse
