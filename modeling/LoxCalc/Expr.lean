import LoxCalc.Token

/-!
Contract: expression trees.

Owns:
- `Expr`, and its fully parenthesized written form `Expr.text`.

Operators are kept as tokens, so that a fault found later can name the line and
the lexeme. A tree may be built with tokens of any kind.
-/

set_option autoImplicit false

namespace LoxCalc

/-- An expression. -/
inductive Expr where
  | literal (value : Value)
  | grouping (inner : Expr)
  | unary (operator : Token) (operand : Expr)
  | binary (left : Expr) (operator : Token) (right : Expr)
deriving DecidableEq, Repr, Inhabited

/-- The tree in parentheses, operators first by their lexemes; a grouping is
written like an operator named `group`. -/
def Expr.text : Expr → String
  | .literal value => value.text
  | .grouping inner => "(group " ++ inner.text ++ ")"
  | .unary operator operand => "(" ++ operator.lexeme ++ " " ++ operand.text ++ ")"
  | .binary left operator right =>
      "(" ++ operator.lexeme ++ " " ++ left.text ++ " " ++ right.text ++ ")"

end LoxCalc
