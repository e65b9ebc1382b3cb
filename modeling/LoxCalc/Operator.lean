import LoxCalc.Token.Kind

/-!
Contract: which kinds of tokens are operators, and how tightly they bind.

Owns:
- `UnaryOp` and `BinaryOp`, the operators;
- `Level`, the binding levels of binary operators.

Does **not** own: what the operators compute.
-/

set_option autoImplicit false

namespace LoxCalc

/-- The prefix operators. -/
inductive UnaryOp where
  | not
  | negate
deriving DecidableEq, Repr

/-- The infix operators. -/
inductive BinaryOp where
  | notEqual
  | equal
  | greater
  | greaterEqual
  | less
  | lessEqual
  | subtract
  | add
  | divide
  | multiply
deriving DecidableEq, Repr

/-- The binding levels of infix operators, loosest first. -/
inductive Level where
  | equality
  | comparison
  | term
  | factor
deriving DecidableEq, Repr

/-- The place of a level in the order from loose to tight. -/
def Level.rank : Level → Nat
  | .equality => 0
  | .comparison => 1
  | .term => 2
  | .factor => 3

/-- The level of an infix operator. -/
def BinaryOp.level : BinaryOp → Level
  | .notEqual | .equal => .equality
  | .greater | .greaterEqual | .less | .lessEqual => .comparison
  | .subtract | .add => .term
  | .divide | .multiply => .factor

namespace Kind

/-- The prefix operator that a kind of token stands for. -/
def unary? : Kind → Option UnaryOp
  | .bang => some .not
  | .minus => some .negate
  | _ => none

/-- The infix operator that a kind of token stands for. -/
def binary? : Kind → Option BinaryOp
  | .bangEqual => some .notEqual
  | .equalEqual => some .equal
  | .greater => some .greater
  | .greaterEqual => some .greaterEqual
  | .less => some .less
  | .lessEqual => some .lessEqual
  | .minus => some .subtract
  | .plus => some .add
  | .slash => some .divide
  | .star => some .multiply
  | _ => none

/-- The binding level of a kind of token, if it is an infix operator. -/
def level? (kind : Kind) : Option Level := kind.binary?.map BinaryOp.level

end Kind

end LoxCalc
