import LoxCalc.Expr.Eval

/-!
Contract: evaluation fails or not by the kinds of the literals alone.

Owns:
- `ValueKind`, the kinds of values, and `KindExpr`, trees that hold a kind for each literal;
- `KindExpr.analyse`, the kind that a tree evaluates to, found without any value;
- `eval_kinds`, that the analysis is neither too strict nor too lax;
- `kinds_decide_evaluation`, that no particular literal causes or avoids an error.

Does **not** own: the values that operators compute.
-/

set_option autoImplicit false

namespace LoxCalc

/-! ## Kinds in place of values -/

inductive ValueKind where
  | nil
  | bool
  | number
  | string
deriving DecidableEq, Repr

def Value.kind : Value → ValueKind
  | .nil => .nil
  | .bool _ => .bool
  | .number _ => .number
  | .string _ => .string

/-- An expression of whose literals only the kinds are known. -/
inductive KindExpr where
  | literal (kind : ValueKind)
  | grouping (inner : KindExpr)
  | unary (operator : Token) (operand : KindExpr)
  | binary (left : KindExpr) (operator : Token) (right : KindExpr)
deriving DecidableEq, Repr

def Expr.kinds : Expr → KindExpr
  | .literal value => .literal value.kind
  | .grouping inner => .grouping inner.kinds
  | .unary operator operand => .unary operator operand.kinds
  | .binary left operator right => .binary left.kinds operator right.kinds

/-! ## The analysis -/

/-- The kind that a prefix operator makes of a kind. -/
def UnaryOp.resultKind : UnaryOp → ValueKind → Except RuntimeFault ValueKind
  | .not, _ => .ok .bool
  | .negate, .number => .ok .number
  | .negate, _ => .error .operandNotNumber

/-- A result of the given kind for two numbers only. -/
def numberKinds (result : ValueKind) : ValueKind → ValueKind → Except RuntimeFault ValueKind
  | .number, .number => .ok result
  | _, _ => .error .operandsNotNumbers

def addKinds : ValueKind → ValueKind → Except RuntimeFault ValueKind
  | .number, .number => .ok .number
  | .string, .string => .ok .string
  | _, _ => .error .operandsNotAddable

/-- The kind that an infix operator makes of two kinds. -/
def BinaryOp.resultKind (op : BinaryOp) (left right : ValueKind) :
    Except RuntimeFault ValueKind :=
  match op with
  | .notEqual | .equal => .ok .bool
  | .greater | .greaterEqual | .less | .lessEqual => numberKinds .bool left right
  | .subtract | .divide | .multiply => numberKinds .number left right
  | .add => addKinds left right

/-- What a token makes of kinds by the operator that it stands for, if it stands for one. -/
def Token.resultKind {Op : Type} (operator : Token) (op? : Option Op)
    (result : Op → Except RuntimeFault ValueKind) : Except EvalError ValueKind :=
  match op? with
  | none => .error ⟨operator, .unsupportedOperator⟩
  | some op => (result op).mapError fun fault => ⟨operator, fault⟩

/-- The kind of the value of an expression, or the error that its evaluation ends with. -/
def KindExpr.analyse : KindExpr → Except EvalError ValueKind
  | .literal kind => .ok kind
  | .grouping inner => inner.analyse
  | .unary operator operand =>
      match operand.analyse with
      | .error e => .error e
      | .ok kind => operator.resultKind operator.kind.unary? fun op => op.resultKind kind
  | .binary left operator right =>
      match left.analyse with
      | .error e => .error e
      | .ok leftKind =>
          match right.analyse with
          | .error e => .error e
          | .ok rightKind =>
              operator.resultKind operator.kind.binary? fun op => op.resultKind leftKind rightKind

/-! ## One operator -/

/-- Both are the same error, or a value and its kind. -/
inductive OfKind {ε : Type} : Except ε Value → Except ε ValueKind → Prop where
  | error (e : ε) : OfKind (.error e) (.error e)
  | ok {value : Value} {kind : ValueKind} (isKind : value.kind = kind) :
      OfKind (.ok value) (.ok kind)

theorem UnaryOp.apply_ofKind (op : UnaryOp) (operand : Value) :
    OfKind (op.apply operand) (op.resultKind operand.kind) := by
  cases op with
  | not => exact .ok rfl
  | negate =>
      cases operand with
      | number x => exact .ok rfl
      | nil => exact .error _
      | bool b => exact .error _
      | string s => exact .error _

theorem onNumbers_ofKind {compute : Float → Float → Value} {result : ValueKind}
    (isKind : ∀ x y, (compute x y).kind = result) (left right : Value) :
    OfKind (onNumbers compute left right) (numberKinds result left.kind right.kind) := by
  cases left with
  | number x =>
      cases right with
      | number y => exact .ok (isKind x y)
      | nil => exact .error _
      | bool b => exact .error _
      | string s => exact .error _
  | nil => exact .error _
  | bool b => exact .error _
  | string s => exact .error _

theorem addValues_ofKind (left right : Value) :
    OfKind (addValues left right) (addKinds left.kind right.kind) := by
  cases left with
  | number x => cases right <;> first | exact .ok rfl | exact .error _
  | string s => cases right <;> first | exact .ok rfl | exact .error _
  | nil => exact .error _
  | bool b => exact .error _

theorem BinaryOp.apply_ofKind (op : BinaryOp) (left right : Value) :
    OfKind (op.apply left right) (op.resultKind left.kind right.kind) := by
  cases op with
  | notEqual => exact .ok rfl
  | equal => exact .ok rfl
  | add => exact addValues_ofKind left right
  -- The others take numbers only.
  | _ =>
      apply onNumbers_ofKind
      exact fun _ _ => rfl

theorem applyUnary_ofKind (operator : Token) (operand : Value) :
    OfKind (operator.applyUnary operand)
      (operator.resultKind operator.kind.unary? fun op => op.resultKind operand.kind) := by
  unfold Token.applyUnary Token.resultKind
  cases operator.kind.unary? with
  | none => exact .error _
  | some op =>
      dsimp only
      have results := op.apply_ofKind operand
      generalize op.apply operand = value, op.resultKind operand.kind = kind at results
      cases results with
      | error fault => exact .error (EvalError.mk operator fault)
      | ok isKind => exact .ok isKind

theorem applyBinary_ofKind (operator : Token) (left right : Value) :
    OfKind (operator.applyBinary left right)
      (operator.resultKind operator.kind.binary? fun op => op.resultKind left.kind right.kind) := by
  unfold Token.applyBinary Token.resultKind
  cases operator.kind.binary? with
  | none => exact .error _
  | some op =>
      dsimp only
      have results := op.apply_ofKind left right
      generalize op.apply left right = value,
        op.resultKind left.kind right.kind = kind at results
      cases results with
      | error fault => exact .error (EvalError.mk operator fault)
      | ok isKind => exact .ok isKind

/-! ## Whole trees -/

/-- **The analysis finds the kind of every value and every error.** Induction on the tree:
the analysis goes through it as evaluation does, so that the first error is the same. -/
theorem eval_kinds (e : Expr) : OfKind e.eval e.kinds.analyse := by
  induction e with
  | literal value => exact .ok rfl
  | grouping inner inductionHypothesis => exact inductionHypothesis
  | unary operator operand inductionHypothesis =>
      simp only [Expr.eval, Expr.kinds, KindExpr.analyse]
      generalize operand.eval = result, operand.kinds.analyse = kind at inductionHypothesis
      cases inductionHypothesis with
      | error e => exact .error e
      | @ok value kind isKind =>
          subst isKind
          exact applyUnary_ofKind operator value
  | binary left operator right leftHypothesis rightHypothesis =>
      simp only [Expr.eval, Expr.kinds, KindExpr.analyse]
      generalize left.eval = first, left.kinds.analyse = firstKind at leftHypothesis
      generalize right.eval = second, right.kinds.analyse = secondKind at rightHypothesis
      cases leftHypothesis with
      | error e => exact .error e
      | @ok leftValue leftKind isLeft =>
          cases rightHypothesis with
          | error e => exact .error e
          | @ok rightValue rightKind isRight =>
              subst isLeft isRight
              exact applyBinary_ofKind operator leftValue rightValue

/-- Trees that differ in their literals only, and by values of one kind. -/
inductive Expr.SameKinds : Expr → Expr → Prop where
  | literal {value other : Value} (sameKind : value.kind = other.kind) :
      SameKinds (.literal value) (.literal other)
  | grouping {inner inner' : Expr} (inside : SameKinds inner inner') :
      SameKinds (.grouping inner) (.grouping inner')
  | unary (operator : Token) {operand operand' : Expr} (inside : SameKinds operand operand') :
      SameKinds (.unary operator operand) (.unary operator operand')
  | binary {left left' right right' : Expr} (before : SameKinds left left') (operator : Token)
      (after : SameKinds right right') :
      SameKinds (.binary left operator right) (.binary left' operator right')

theorem Expr.SameKinds.kinds_eq {e e' : Expr} (same : Expr.SameKinds e e') :
    e.kinds = e'.kinds := by
  induction same with
  | literal sameKind => exact congrArg KindExpr.literal sameKind
  | grouping _ inductionHypothesis => exact congrArg KindExpr.grouping inductionHypothesis
  | unary operator _ inductionHypothesis =>
      exact congrArg (KindExpr.unary operator) inductionHypothesis
  | binary _ operator _ leftHypothesis rightHypothesis =>
      rw [Expr.kinds, Expr.kinds, leftHypothesis, rightHypothesis]

theorem OfKind.ok_iff {ε : Type} {result : Except ε Value} {analysed : Except ε ValueKind}
    (ofKind : OfKind result analysed) (kind : ValueKind) :
    (∃ value, result = .ok value ∧ value.kind = kind) ↔ analysed = .ok kind := by
  cases ofKind with
  | error _ => simp
  | ok isKind => simp [isKind]

theorem OfKind.error_iff {ε : Type} {result : Except ε Value} {analysed : Except ε ValueKind}
    (ofKind : OfKind result analysed) (e : ε) : result = .error e ↔ analysed = .error e := by
  cases ofKind with
  | error _ => simp
  | ok _ => simp

/-- **Evaluation fails by kinds.** A tree evaluates to a value of a kind exactly if that is
its analysed kind, and fails with an error exactly if the analysis does; the analysis knows
of the literals only their kinds. So trees whose literals differ within their kinds evaluate
to values of one kind, or fail at one operator with one message. -/
theorem kinds_decide_evaluation :
    (∀ (e : Expr) (kind : ValueKind),
        (∃ value, e.eval = .ok value ∧ value.kind = kind) ↔ e.kinds.analyse = .ok kind) ∧
      (∀ (e : Expr) (err : EvalError), e.eval = .error err ↔ e.kinds.analyse = .error err) ∧
      (∀ e e' : Expr, Expr.SameKinds e e' →
        (∃ value value', e.eval = .ok value ∧ e'.eval = .ok value' ∧ value.kind = value'.kind) ∨
          ∃ err, e.eval = .error err ∧ e'.eval = .error err) := by
  refine ⟨fun e kind => OfKind.ok_iff (eval_kinds e) kind,
    fun e err => OfKind.error_iff (eval_kinds e) err, ?_⟩
  intro e e' same
  have first := eval_kinds e
  have second := eval_kinds e'
  rw [← same.kinds_eq] at second
  generalize e.eval = result, e'.eval = result', e.kinds.analyse = analysed at first second
  cases first with
  | error err =>
      cases second with
      | error _ => exact .inr ⟨err, rfl, rfl⟩
  | ok isKind =>
      cases second with
      | ok isKind' => exact .inl ⟨_, _, rfl, rfl, isKind.trans isKind'.symm⟩

/-- Comparing a number with a string fails whatever the two are, a NaN and the empty string
included. -/
theorem kinds_decide_evaluation_compared :
    let operator : Token := ⟨.less, "<", none, 1⟩
    let e : Expr := .binary (.literal (.number 1)) operator (.literal (.string "a"))
    let e' : Expr := .binary (.literal (.number (0 / 0))) operator (.literal (.string ""))
    Expr.SameKinds e e' ∧ e.eval = .error ⟨operator, .operandsNotNumbers⟩ ∧
      e'.eval = .error ⟨operator, .operandsNotNumbers⟩ := by
  intro operator e e'
  have same : Expr.SameKinds e e' := by
    refine .binary (.literal ?_) operator (.literal ?_)
    · rfl
    · rfl
  have fails : e.eval = .error ⟨operator, .operandsNotNumbers⟩ :=
    (kinds_decide_evaluation.2.1 e _).mpr rfl
  rcases kinds_decide_evaluation.2.2 e e' same with ⟨_, _, isOk, _⟩ | ⟨err, isError, isError'⟩
  · rw [fails] at isOk
    contradiction
  · rw [fails] at isError
    rw [isError', ← isError]
    exact ⟨same, rfl, rfl⟩

end LoxCalc
