import LoxCalc.Expr
import LoxCalc.Operator

/-!
Contract: the value of an expression.

Owns:
- `RuntimeFault`, why an operator rejects its operands;
- `UnaryOp.apply` and `BinaryOp.apply`, what the operators compute;
- `EvalError`, a fault at an operator token;
- `Expr.eval`, strict evaluation from left to right.

An operator is chosen by the kind of its token alone. A token that is no operator
of the form it stands in is a fault too, found after its operands are evaluated.
-/

set_option autoImplicit false

namespace LoxCalc

/-! ## Faults -/

/-- Why an operator yields no value. -/
inductive RuntimeFault where
  | operandNotNumber
  | operandsNotNumbers
  | operandsNotAddable
  | unsupportedOperator
deriving DecidableEq, Repr

/-- A fault and the operator token that ran into it. -/
structure EvalError where
  operator : Token
  fault : RuntimeFault
deriving DecidableEq, Repr

/-- The wording of an evaluation error. -/
def EvalError.message (e : EvalError) : String :=
  match e.fault with
  | .operandNotNumber => "Operand must be a number"
  | .operandsNotNumbers => "Operands must be numbers"
  | .operandsNotAddable => "Operands must be two numbers or two strings."
  | .unsupportedOperator => "Unsupported operator '" ++ e.operator.lexeme ++ "'."

/-! ## Operators -/

/-- What a prefix operator makes of its operand. -/
def UnaryOp.apply : UnaryOp → Value → Except RuntimeFault Value
  | .not, operand => .ok (.bool (!operand.truthy))
  | .negate, .number x => .ok (.number (-x))
  | .negate, _ => .error .operandNotNumber

/-- A result computed from two numbers; no other operands are accepted. -/
def onNumbers (compute : Float → Float → Value) : Value → Value → Except RuntimeFault Value
  | .number x, .number y => .ok (compute x y)
  | _, _ => .error .operandsNotNumbers

/-- The sum of two numbers or the concatenation of two strings. -/
def addValues : Value → Value → Except RuntimeFault Value
  | .number x, .number y => .ok (.number (x + y))
  | .string s, .string t => .ok (.string (s ++ t))
  | _, _ => .error .operandsNotAddable

/-- What an infix operator makes of its operands. Any two values can be tested for
equality; the order and the arithmetic of doubles are those of IEEE 754. -/
def BinaryOp.apply : BinaryOp → Value → Value → Except RuntimeFault Value
  | .notEqual, left, right => .ok (.bool (decide (left ≠ right)))
  | .equal, left, right => .ok (.bool (decide (left = right)))
  | .greater, left, right => onNumbers (fun x y => .bool (decide (y < x))) left right
  | .greaterEqual, left, right => onNumbers (fun x y => .bool (decide (y ≤ x))) left right
  | .less, left, right => onNumbers (fun x y => .bool (decide (x < y))) left right
  | .lessEqual, left, right => onNumbers (fun x y => .bool (decide (x ≤ y))) left right
  | .subtract, left, right => onNumbers (fun x y => .number (x - y)) left right
  | .add, left, right => addValues left right
  | .divide, left, right => onNumbers (fun x y => .number (x / y)) left right
  | .multiply, left, right => onNumbers (fun x y => .number (x * y)) left right

/-- The prefix operator of a token applied to a value. -/
def Token.applyUnary (operator : Token) (operand : Value) : Except EvalError Value :=
  match operator.kind.unary? with
  | none => .error ⟨operator, .unsupportedOperator⟩
  | some op =>
      match op.apply operand with
      | .ok value => .ok value
      | .error fault => .error ⟨operator, fault⟩

/-- The infix operator of a token applied to two values. -/
def Token.applyBinary (operator : Token) (left right : Value) : Except EvalError Value :=
  match operator.kind.binary? with
  | none => .error ⟨operator, .unsupportedOperator⟩
  | some op =>
      match op.apply left right with
      | .ok value => .ok value
      | .error fault => .error ⟨operator, fault⟩

/-! ## Evaluation -/

/-- The value of an expression: operands first, the left before the right, and
the first error ends the evaluation. -/
def Expr.eval : Expr → Except EvalError Value
  | .literal value => .ok value
  | .grouping inner => inner.eval
  | .unary operator operand =>
      match operand.eval with
      | .error e => .error e
      | .ok value => operator.applyUnary value
  | .binary left operator right =>
      match left.eval with
      | .error e => .error e
      | .ok leftValue =>
          match right.eval with
          | .error e => .error e
          | .ok rightValue => operator.applyBinary leftValue rightValue

end LoxCalc
