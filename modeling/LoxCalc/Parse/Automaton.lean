import LoxCalc.Expr
import LoxCalc.Operator

/-!
Contract: building the tree of an expression token by token.

Owns:
- `Frame` and `State`, an expression read in part;
- `State.step`, the effect of one more token;
- `State.finish`, the result when no further token is taken;
- `State.read`, the longest stretch of tokens that continues a state.

The grammar, from loose to tight, with the operators of one level grouping to the
left:

```text
expression → equality
equality   → comparison ( ( "!=" | "==" ) comparison )*
comparison → term ( ( ">" | ">=" | "<" | "<=" ) term )*
term       → factor ( ( "-" | "+" ) factor )*
factor     → unary ( ( "/" | "*" ) unary )*
unary      → ( "!" | "-" ) unary | primary
primary    → NUMBER | STRING | "true" | "false" | "nil" | "(" expression ")"
```

A state never looks ahead: whether a token is taken depends only on the tokens
before it, so a fault is found at the first token that no expression can have
there.
-/

set_option autoImplicit false

namespace LoxCalc.Parse

/-- A construct that waits for the operand being read. -/
inductive Frame where
  /-- An open parenthesis. -/
  | group
  /-- A prefix operator. -/
  | unary (operator : Token)
  /-- An infix operator with its left operand. -/
  | binary (left : Expr) (operator : Token) (level : Level)
deriving DecidableEq, Repr

/-- An expression read in part; the innermost open construct comes first. -/
inductive State where
  /-- The next token has to start an operand. -/
  | awaiting (frames : List Frame)
  /-- An operand is complete; an infix operator may continue it. -/
  | holding (frames : List Frame) (operand : Expr)
deriving DecidableEq, Repr

/-- Why no expression could be read. -/
inductive Fault where
  | expectedExpression
  | expectedClosing
deriving DecidableEq, Repr

/-- The wording of a fault. -/
def Fault.message : Fault → String
  | .expectedExpression => "Expect expression."
  | .expectedClosing => "Expect ')' after expression"

/-- The value of a token that is an operand by itself. A number or string token
that carries no literal stands for `nil`. -/
def operandValue? (t : Token) : Option Value :=
  match t.kind with
  | .kwFalse => some (.bool false)
  | .kwTrue => some (.bool true)
  | .kwNil => some .nil
  | .number | .string => some (t.literal.getD .nil)
  | _ => none

/-! ## Closing frames -/

/-- Prefix operators bind tightest, so they close as soon as an operand is
complete. -/
def closeUnary : List Frame → Expr → State
  | .unary operator :: frames, operand => closeUnary frames (.unary operator operand)
  | frames, operand => .holding frames operand

/-- Infix operators of at least the given level close before an operator of that
level, which makes operators of one level group to the left. -/
def closeBinary (level : Level) : List Frame → Expr → List Frame × Expr
  | .binary left operator own :: frames, operand =>
      if level.rank ≤ own.rank then closeBinary level frames (.binary left operator operand)
      else (.binary left operator own :: frames, operand)
  | frames, operand => (frames, operand)

/-- All infix operators down to the innermost open parenthesis close. -/
def closeAll (frames : List Frame) (operand : Expr) : List Frame × Expr :=
  closeBinary .equality frames operand

/-! ## Reading -/

/-- The state after one more token, or `none` if the token is not taken. -/
def State.step : State → Token → Option State
  | .awaiting frames, t =>
      match operandValue? t with
      | some value => some (closeUnary frames (.literal value))
      | none =>
          if t.kind = .leftParen then some (.awaiting (.group :: frames))
          else if t.kind.unary?.isSome then some (.awaiting (.unary t :: frames))
          else none
  | .holding frames operand, t =>
      match t.kind.level? with
      | some level =>
          let closed := closeBinary level frames operand
          some (.awaiting (.binary closed.2 t level :: closed.1))
      | none =>
          if t.kind = .rightParen then
            match closeAll frames operand with
            | (.group :: outer, inner) => some (closeUnary outer (.grouping inner))
            | _ => none
          else none

/-- The result when no further token is taken: a complete expression, or the
reason why there is none. -/
def State.finish : State → Except Fault Expr
  | .awaiting _ => .error .expectedExpression
  | .holding frames operand =>
      match closeAll frames operand with
      | ([], whole) => .ok whole
      | _ => .error .expectedClosing

/-- Takes tokens as long as the state allows, and returns the result with the
tokens left over. -/
def State.read (s : State) : List Token → Except Fault Expr × List Token
  | [] => (s.finish, [])
  | t :: rest =>
      match s.step t with
      | some next => next.read rest
      | none => (s.finish, t :: rest)

/-- Before the first token. -/
def State.start : State := .awaiting []

/-- Reading only drops tokens from the front. -/
theorem State.read_suffix (tokens : List Token) :
    ∀ s : State, (s.read tokens).2 <:+ tokens := by
  induction tokens with
  | nil =>
      intro s
      exact List.suffix_refl []
  | cons t rest inductionHypothesis =>
      intro s
      unfold State.read
      split
      · rename_i next _
        exact (inductionHypothesis next).trans (List.suffix_cons t rest)
      · exact List.suffix_refl (t :: rest)

end LoxCalc.Parse
