import LoxCalc.Expr

/-!
Contract: trees as flat lists of nodes.

Owns:
- `Expr.Node`, a tree node without its children;
- `Expr.preorder`, the nodes of a tree, each before its children;
- `Expr.ofPreorder?`, the tree that a list of nodes spells.

Every node fixes the number of its children, so the list needs no brackets.
-/

set_option autoImplicit false

namespace LoxCalc.Expr

/-- A tree node without its children. -/
inductive Node where
  | literal (value : Value)
  | grouping
  | unary (operator : Token)
  | binary (operator : Token)
deriving DecidableEq, Repr

/-- The nodes of a tree in preorder, in front of `rest`. -/
def preorderOnto : Expr → List Node → List Node
  | .literal value, rest => .literal value :: rest
  | .grouping inner, rest => .grouping :: inner.preorderOnto rest
  | .unary operator operand, rest => .unary operator :: operand.preorderOnto rest
  | .binary left operator right, rest =>
      .binary operator :: left.preorderOnto (right.preorderOnto rest)

/-- The nodes of a tree, each before its children. -/
def preorder (e : Expr) : List Node := e.preorderOnto []

/-- A node joined with its children, which are the first of the trees behind it. -/
def Node.join : Node → List Expr → Option (List Expr)
  | .literal value, trees => some (.literal value :: trees)
  | .grouping, inner :: trees => some (.grouping inner :: trees)
  | .unary operator, operand :: trees => some (.unary operator operand :: trees)
  | .binary operator, left :: right :: trees => some (.binary left operator right :: trees)
  | _, _ => none

/-- The trees that a list of nodes spells one after the other. -/
def forest? : List Node → Option (List Expr)
  | [] => some []
  | node :: rest => (forest? rest).bind node.join

/-- The tree that a list of nodes spells, if it spells exactly one. -/
def ofPreorder? (nodes : List Node) : Option Expr :=
  match forest? nodes with
  | some [e] => some e
  | _ => none

/-- The nodes of a tree spell that tree in front of whatever follows. -/
theorem forest?_preorderOnto (e : Expr) :
    ∀ rest : List Node, forest? (e.preorderOnto rest) = (forest? rest).map (e :: ·) := by
  induction e with
  | literal value =>
      intro rest
      cases h : forest? rest <;> simp [preorderOnto, forest?, Node.join, h]
  | grouping inner ih =>
      intro rest
      cases h : forest? rest <;> simp [preorderOnto, forest?, Node.join, ih, h]
  | unary operator operand ih =>
      intro rest
      cases h : forest? rest <;> simp [preorderOnto, forest?, Node.join, ih, h]
  | binary left operator right leftIH rightIH =>
      intro rest
      cases h : forest? rest <;>
        simp [preorderOnto, forest?, Node.join, leftIH, rightIH, h]

/-- A tree is recovered from its nodes. -/
theorem ofPreorder?_preorder (e : Expr) : ofPreorder? e.preorder = some e := by
  simp [ofPreorder?, preorder, forest?_preorderOnto, forest?]

end LoxCalc.Expr
