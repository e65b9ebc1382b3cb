import LoxCalc.Expr.Eval
import LoxCalc.Proofs.Parse.Shape

/-!
Contract: where an evaluation fails, and why.

Owns:
- the inversions of a failed evaluation, one for each construct that can fail;
- `Spells.operator_mem`, that an error stands at a token of the tree;
- `WellShaped.fault_ne`, that a tree that can be read fails at operands only, and
  `operandMessages`, what such a failure is reported as.
-/

set_option autoImplicit false

namespace LoxCalc

/-! ## One operator -/

theorem UnaryOp.apply_ne_unsupported (op : UnaryOp) (operand : Value) :
    op.apply operand ≠ .error .unsupportedOperator := by
  cases op with
  | not => simp [UnaryOp.apply]
  | negate => cases operand <;> simp [UnaryOp.apply]

theorem onNumbers_ne_unsupported (compute : Float → Float → Value) (left right : Value) :
    onNumbers compute left right ≠ .error .unsupportedOperator := by
  unfold onNumbers
  split <;> simp

theorem addValues_ne_unsupported (left right : Value) :
    addValues left right ≠ .error .unsupportedOperator := by
  unfold addValues
  split <;> simp

theorem BinaryOp.apply_ne_unsupported (op : BinaryOp) (left right : Value) :
    op.apply left right ≠ .error .unsupportedOperator := by
  cases op with
  | notEqual => simp [BinaryOp.apply]
  | equal => simp [BinaryOp.apply]
  | add => exact addValues_ne_unsupported left right
  | greater => exact onNumbers_ne_unsupported _ left right
  | greaterEqual => exact onNumbers_ne_unsupported _ left right
  | less => exact onNumbers_ne_unsupported _ left right
  | lessEqual => exact onNumbers_ne_unsupported _ left right
  | subtract => exact onNumbers_ne_unsupported _ left right
  | divide => exact onNumbers_ne_unsupported _ left right
  | multiply => exact onNumbers_ne_unsupported _ left right

theorem applyUnary_eq_error {operator : Token} {operand : Value} {err : EvalError}
    (fails : operator.applyUnary operand = .error err) :
    err.operator = operator ∧
      (operator.kind.unary? = none ∨
        ∃ op, operator.kind.unary? = some op ∧ op.apply operand = .error err.fault) := by
  unfold Token.applyUnary at fails
  split at fails
  · rename_i isNone
    rw [← Except.error.inj fails]
    exact ⟨rfl, .inl isNone⟩
  split at fails
  · contradiction
  · rename_i op isOp _ fault isFault
    rw [← Except.error.inj fails]
    exact ⟨rfl, .inr ⟨op, isOp, isFault⟩⟩

theorem applyBinary_eq_error {operator : Token} {left right : Value} {err : EvalError}
    (fails : operator.applyBinary left right = .error err) :
    err.operator = operator ∧
      (operator.kind.binary? = none ∨
        ∃ op, operator.kind.binary? = some op ∧ op.apply left right = .error err.fault) := by
  unfold Token.applyBinary at fails
  split at fails
  · rename_i isNone
    rw [← Except.error.inj fails]
    exact ⟨rfl, .inl isNone⟩
  split at fails
  · contradiction
  · rename_i op isOp _ fault isFault
    rw [← Except.error.inj fails]
    exact ⟨rfl, .inr ⟨op, isOp, isFault⟩⟩

/-! ## One construct -/

/-- A prefix tree fails in its operand or at its operator. -/
theorem eval_unary_eq_error {operator : Token} {operand : Expr} {err : EvalError}
    (fails : (Expr.unary operator operand).eval = .error err) :
    operand.eval = .error err ∨ ∃ value, operator.applyUnary value = .error err := by
  simp only [Expr.eval] at fails
  split at fails
  · rename_i isError
    exact .inl (isError.trans fails)
  · exact .inr ⟨_, fails⟩

/-- An infix tree fails in one of its operands or at its operator. -/
theorem eval_binary_eq_error {left right : Expr} {operator : Token} {err : EvalError}
    (fails : (Expr.binary left operator right).eval = .error err) :
    left.eval = .error err ∨ right.eval = .error err ∨
      ∃ first second, operator.applyBinary first second = .error err := by
  simp only [Expr.eval] at fails
  split at fails
  · rename_i isError
    exact .inl (isError.trans fails)
  split at fails
  · rename_i isError
    exact .inr (.inl (isError.trans fails))
  · exact .inr (.inr ⟨_, _, fails⟩)

/-! ## Whole trees -/

/-- An error stands at one of the tokens of the tree. -/
theorem Spells.operator_mem {e : Expr} {word : List Token} (spells : Spells e word)
    {err : EvalError} (fails : e.eval = .error err) : err.operator ∈ word := by
  induction spells with
  | falseWord _ => contradiction
  | trueWord _ => contradiction
  | nilWord _ => contradiction
  | datum _ => contradiction
  | grouping _ _ _ inductionHypothesis =>
      apply List.mem_cons_of_mem
      exact List.mem_append_left _ (inductionHypothesis fails)
  | @unary operator operand word _ inductionHypothesis =>
      rcases eval_unary_eq_error fails with inside | ⟨value, atOperator⟩
      · exact List.mem_cons_of_mem _ (inductionHypothesis inside)
      · rw [(applyUnary_eq_error atOperator).1]
        exact List.mem_cons_self
  | @binary left right operator leftWord rightWord _ _ leftHypothesis rightHypothesis =>
      rcases eval_binary_eq_error fails with inLeft | inRight | ⟨first, second, atOperator⟩
      · exact List.mem_append_left _ (leftHypothesis inLeft)
      · apply List.mem_append_right
        exact List.mem_cons_of_mem _ (rightHypothesis inRight)
      · rw [(applyBinary_eq_error atOperator).1]
        exact List.mem_append_right _ List.mem_cons_self

theorem unary?_ne_none {kind : Kind} (isPrefix : kind = .bang ∨ kind = .minus) :
    kind.unary? ≠ none :=
  Option.isSome_iff_ne_none.mp ((unary?_isSome_iff kind).mpr isPrefix)

theorem binary?_ne_none {kind : Kind} {level : Level} (isInfix : kind ∈ operatorsOf level) :
    kind.binary? ≠ none := by
  intro isNone
  rw [← level?_eq_some_iff, Kind.level?, isNone] at isInfix
  contradiction

/-- In a well-shaped tree every operator stands in its form, so only operands can be at
fault. -/
theorem WellShaped.fault_ne {e : Expr} (shaped : WellShaped e) {err : EvalError}
    (fails : e.eval = .error err) : err.fault ≠ .unsupportedOperator := by
  induction shaped with
  | literal value => contradiction
  | grouping _ inductionHypothesis => exact inductionHypothesis fails
  | @unary operator operand isPrefix _ _ inductionHypothesis =>
      rcases eval_unary_eq_error fails with inside | ⟨value, atOperator⟩
      · exact inductionHypothesis inside
      rcases (applyUnary_eq_error atOperator).2 with isNone | ⟨op, _, isFault⟩
      · exact absurd isNone (unary?_ne_none isPrefix)
      · intro unsupported
        exact op.apply_ne_unsupported value (unsupported ▸ isFault)
  | @binary left right operator level isInfix _ _ _ _ leftHypothesis rightHypothesis =>
      rcases eval_binary_eq_error fails with inLeft | inRight | ⟨first, second, atOperator⟩
      · exact leftHypothesis inLeft
      · exact rightHypothesis inRight
      rcases (applyBinary_eq_error atOperator).2 with isNone | ⟨op, _, isFault⟩
      · exact absurd isNone (binary?_ne_none isInfix)
      · intro unsupported
        exact op.apply_ne_unsupported first second (unsupported ▸ isFault)

/-- The wordings of faults of operands. -/
def operandMessages : List String :=
  ["Operand must be a number", "Operands must be numbers",
    "Operands must be two numbers or two strings."]

theorem message_mem_of_fault_ne {err : EvalError} (supported : err.fault ≠ .unsupportedOperator) :
    err.message ∈ operandMessages := by
  unfold EvalError.message operandMessages
  split <;> simp_all

end LoxCalc
