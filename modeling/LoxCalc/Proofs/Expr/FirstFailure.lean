import LoxCalc.Proofs.Expr.Failure
import LoxCalc.Proofs.Expr.Kinds
import LoxCalc.Proofs.Parse.Grammar
import LoxCalc.Run

/-!
Contract: an evaluation fails at the first operator that rejects its operands.

Owns:
- `PrefixRejects` and `InfixRejects`, which operands an operator rejects and why;
- `Expr.operations`, the operator nodes of a tree in the order of evaluation;
- `Rejects`, the nodes that reject the values of their operands, and `FirstRejected`, the
  first of them;
- `eval_fails_first`, that its error is the one of the evaluation, and the one that is filed.

Does **not** own: the values that operators compute.
-/

set_option autoImplicit false

namespace LoxCalc

/-! ## What operators reject -/

/-- The kinds of infix operators that take two numbers only. -/
def numericKinds : List Kind :=
  [.greater, .greaterEqual, .less, .lessEqual, .minus, .slash, .star]

/-- Why a token of a kind yields no value as a prefix operator. -/
inductive PrefixRejects : Kind → Value → RuntimeFault → Prop where
  | negated {operand : Value} (notNumber : operand.kind ≠ .number) :
      PrefixRejects .minus operand .operandNotNumber
  | unsupported {kind : Kind} {operand : Value} (noPrefix : kind ≠ .bang ∧ kind ≠ .minus) :
      PrefixRejects kind operand .unsupportedOperator

/-- Why a token of a kind yields no value as an infix operator. -/
inductive InfixRejects : Kind → Value → Value → RuntimeFault → Prop where
  | numbers {kind : Kind} {left right : Value} (takesNumbers : kind ∈ numericKinds)
      (notNumbers : ¬ (left.kind = .number ∧ right.kind = .number)) :
      InfixRejects kind left right .operandsNotNumbers
  | addends {left right : Value} (notNumbers : ¬ (left.kind = .number ∧ right.kind = .number))
      (notStrings : ¬ (left.kind = .string ∧ right.kind = .string)) :
      InfixRejects .plus left right .operandsNotAddable
  | unsupported {kind : Kind} {left right : Value} (noInfix : kind ∉ Grammar.infixKinds) :
      InfixRejects kind left right .unsupportedOperator

theorem onNumbers_eq_error_iff (compute : Float → Float → Value) (left right : Value)
    (fault : RuntimeFault) :
    onNumbers compute left right = .error fault ↔
      ¬ (left.kind = .number ∧ right.kind = .number) ∧ fault = .operandsNotNumbers := by
  cases left <;> cases right <;> simp [onNumbers, Value.kind, eq_comm]

theorem addValues_eq_error_iff (left right : Value) (fault : RuntimeFault) :
    addValues left right = .error fault ↔
      (¬ (left.kind = .number ∧ right.kind = .number) ∧
        ¬ (left.kind = .string ∧ right.kind = .string)) ∧ fault = .operandsNotAddable := by
  cases left <;> cases right <;> simp [addValues, Value.kind, eq_comm]

theorem unary?_eq_none_iff (kind : Kind) :
    kind.unary? = none ↔ kind ≠ .bang ∧ kind ≠ .minus := by
  cases kind <;> decide

theorem binary?_eq_none_iff (kind : Kind) :
    kind.binary? = none ↔ kind ∉ Grammar.infixKinds := by
  cases kind <;> decide

theorem binary?_of_numeric {kind : Kind} (takesNumbers : kind ∈ numericKinds) :
    ∃ op compute, kind.binary? = some op ∧ op.apply = onNumbers compute := by
  simp only [numericKinds, List.mem_cons, List.not_mem_nil, or_false] at takesNumbers
  rcases takesNumbers with rfl | rfl | rfl | rfl | rfl | rfl | rfl <;> exact ⟨_, _, rfl, rfl⟩

/-- An infix operator takes numbers only, or it is the sum, or it tests for equality. -/
theorem binary?_cases {kind : Kind} {op : BinaryOp} (isOp : kind.binary? = some op) :
    kind ∈ numericKinds ∨ (kind = .plus ∧ op = .add) ∨ op = .equal ∨ op = .notEqual := by
  cases kind <;> simp_all [Kind.binary?, numericKinds]

/-- A token fails on an operand exactly if it rejects it as a prefix operator. -/
theorem applyUnary_eq_error_iff (operator : Token) (operand : Value) (err : EvalError) :
    operator.applyUnary operand = .error err ↔
      err.operator = operator ∧ PrefixRejects operator.kind operand err.fault := by
  constructor
  · intro fails
    obtain ⟨isOperator, reason⟩ := applyUnary_eq_error fails
    refine ⟨isOperator, ?_⟩
    rcases reason with isNone | ⟨op, isOp, isFault⟩
    · have fault : err.fault = .unsupportedOperator := by
        rw [Token.applyUnary, isNone] at fails
        rw [← Except.error.inj fails]
      rw [fault]
      exact .unsupported ((unary?_eq_none_iff _).mp isNone)
    · cases op with
      | not => contradiction
      | negate =>
          have isMinus : operator.kind = .minus := by
            cases kind : operator.kind <;> simp_all [Kind.unary?]
          rw [isMinus]
          cases operand with
          | number x => contradiction
          | nil | bool b | string s =>
              rw [← Except.error.inj isFault]
              exact .negated (by simp [Value.kind])
  · rintro ⟨rfl, rejected⟩
    obtain ⟨operator, fault⟩ := err
    dsimp only at rejected ⊢
    generalize isKind : operator.kind = kind at rejected
    unfold Token.applyUnary
    cases rejected with
    | negated notNumber =>
        rw [isKind]
        cases operand with
        | number x => exact absurd rfl notNumber
        | nil => rfl
        | bool b => rfl
        | string s => rfl
    | unsupported noPrefix => rw [isKind, (unary?_eq_none_iff _).mpr noPrefix]

/-- A token fails on two operands exactly if it rejects them as an infix operator. -/
theorem applyBinary_eq_error_iff (operator : Token) (left right : Value) (err : EvalError) :
    operator.applyBinary left right = .error err ↔
      err.operator = operator ∧ InfixRejects operator.kind left right err.fault := by
  constructor
  · intro fails
    obtain ⟨isOperator, reason⟩ := applyBinary_eq_error fails
    refine ⟨isOperator, ?_⟩
    rcases reason with isNone | ⟨op, isOp, isFault⟩
    · have fault : err.fault = .unsupportedOperator := by
        rw [Token.applyBinary, isNone] at fails
        rw [← Except.error.inj fails]
      rw [fault]
      exact .unsupported ((binary?_eq_none_iff _).mp isNone)
    · rcases binary?_cases isOp with numeric | ⟨isPlus, rfl⟩ | rfl | rfl
      · obtain ⟨other, compute, isOther, applies⟩ := binary?_of_numeric numeric
        obtain rfl : op = other := Option.some.inj (isOp.symm.trans isOther)
        rw [applies] at isFault
        obtain ⟨notNumbers, fault⟩ := (onNumbers_eq_error_iff _ _ _ _).mp isFault
        rw [fault]
        exact .numbers numeric notNumbers
      · obtain ⟨⟨notNumbers, notStrings⟩, fault⟩ := (addValues_eq_error_iff _ _ _).mp isFault
        rw [fault, isPlus]
        exact .addends notNumbers notStrings
      · contradiction
      · contradiction
  · rintro ⟨rfl, rejected⟩
    obtain ⟨operator, fault⟩ := err
    dsimp only at rejected ⊢
    generalize isKind : operator.kind = kind at rejected
    unfold Token.applyBinary
    cases rejected with
    | numbers takesNumbers notNumbers =>
        obtain ⟨op, compute, isOp, applies⟩ := binary?_of_numeric takesNumbers
        simp only [isKind, isOp, applies,
          (onNumbers_eq_error_iff compute left right _).mpr ⟨notNumbers, rfl⟩]
    | addends notNumbers notStrings =>
        have fails := (addValues_eq_error_iff left right _).mpr ⟨⟨notNumbers, notStrings⟩, rfl⟩
        simp only [isKind, Kind.binary?, BinaryOp.apply, fails]
    | unsupported noInfix => rw [isKind, (binary?_eq_none_iff _).mpr noInfix]

/-! ## The nodes of a tree -/

/-- The operator nodes of a tree with what stands below them: those of the left operand,
those of the right one, then the node itself. -/
def Expr.operations : Expr → List Expr
  | .literal _ => []
  | .grouping inner => inner.operations
  | .unary operator operand => operand.operations ++ [.unary operator operand]
  | .binary left operator right =>
      left.operations ++ right.operations ++ [.binary left operator right]

/-- A node all of whose operands have values, which its operator rejects. The error names
that operator. -/
inductive Rejects : Expr → EvalError → Prop where
  | unary {operator : Token} {operand : Expr} {value : Value} {fault : RuntimeFault}
      (isValue : operand.eval = .ok value) (rejected : PrefixRejects operator.kind value fault) :
      Rejects (.unary operator operand) ⟨operator, fault⟩
  | binary {operator : Token} {left right : Expr} {first second : Value} {fault : RuntimeFault}
      (isFirst : left.eval = .ok first) (isSecond : right.eval = .ok second)
      (rejected : InfixRejects operator.kind first second fault) :
      Rejects (.binary left operator right) ⟨operator, fault⟩

/-- No node of a list rejects its operands. -/
def NoneRejected (nodes : List Expr) : Prop := ∀ node ∈ nodes, ∀ err, ¬ Rejects node err

/-- The error of the first node of a list that rejects its operands. -/
def FirstRejected (nodes : List Expr) (err : EvalError) : Prop :=
  ∃ before node after, nodes = before ++ node :: after ∧ Rejects node err ∧ NoneRejected before

theorem rejects_unary_iff {operator : Token} {operand : Expr} {value : Value}
    (isValue : operand.eval = .ok value) (err : EvalError) :
    Rejects (.unary operator operand) err ↔ operator.applyUnary value = .error err := by
  rw [applyUnary_eq_error_iff]
  constructor
  · intro rejects
    cases rejects with
    | unary isOther rejected =>
        rw [isValue] at isOther
        obtain rfl := Except.ok.inj isOther
        exact ⟨rfl, rejected⟩
  · rintro ⟨rfl, rejected⟩
    exact .unary isValue rejected

theorem rejects_binary_iff {operator : Token} {left right : Expr} {first second : Value}
    (isFirst : left.eval = .ok first) (isSecond : right.eval = .ok second) (err : EvalError) :
    Rejects (.binary left operator right) err ↔
      operator.applyBinary first second = .error err := by
  rw [applyBinary_eq_error_iff]
  constructor
  · intro rejects
    cases rejects with
    | binary isOther alsoOther rejected =>
        rw [isFirst] at isOther
        rw [isSecond] at alsoOther
        obtain rfl := Except.ok.inj isOther
        obtain rfl := Except.ok.inj alsoOther
        exact ⟨rfl, rejected⟩
  · rintro ⟨rfl, rejected⟩
    exact .binary isFirst isSecond rejected

/-- A node that rejects its operands does not evaluate to a value; its error is the only one. -/
theorem Rejects.eval_eq {node : Expr} {err : EvalError} (rejects : Rejects node err) :
    node.eval = .error err := by
  cases rejects with
  | unary isValue rejected =>
      have fails := (rejects_unary_iff isValue _).mp (.unary isValue rejected)
      simp only [Expr.eval, isValue, fails]
  | binary isFirst isSecond rejected =>
      have fails := (rejects_binary_iff isFirst isSecond _).mp (.binary isFirst isSecond rejected)
      simp only [Expr.eval, isFirst, isSecond, fails]

/-! ## The first of a list -/

theorem FirstRejected.append {nodes : List Expr} {err : EvalError}
    (first : FirstRejected nodes err) (others : List Expr) :
    FirstRejected (nodes ++ others) err := by
  obtain ⟨before, node, after, rfl, rejects, passed⟩ := first
  exact ⟨before, node, after ++ others, by simp, rejects, passed⟩

theorem FirstRejected.behind {nodes others : List Expr} {err : EvalError}
    (first : FirstRejected others err) (passed : NoneRejected nodes) :
    FirstRejected (nodes ++ others) err := by
  obtain ⟨before, node, after, rfl, rejects, alsoPassed⟩ := first
  refine ⟨nodes ++ before, node, after, by simp, rejects, ?_⟩
  exact List.forall_mem_append.mpr ⟨passed, alsoPassed⟩

theorem FirstRejected.not_none {nodes : List Expr} {err : EvalError}
    (first : FirstRejected nodes err) : ¬ NoneRejected nodes := by
  obtain ⟨before, node, after, rfl, rejects, _⟩ := first
  intro passed
  exact passed node (by simp) err rejects

/-- Of two first nodes neither stands in front of the other. -/
theorem FirstRejected.unique {nodes : List Expr} {err other : EvalError}
    (first : FirstRejected nodes err) (again : FirstRejected nodes other) : err = other := by
  obtain ⟨before, node, after, rfl, rejects, passed⟩ := first
  obtain ⟨otherBefore, otherNode, otherAfter, split, otherRejects, otherPassed⟩ := again
  have sameNode : node = otherNode := by
    rcases List.append_eq_append_iff.mp split with ⟨between, isBefore, isBehind⟩ |
      ⟨between, isBefore, isBehind⟩
    · cases between with
      | nil => exact (List.cons.inj isBehind).1
      | cons head rest =>
          obtain ⟨rfl, _⟩ := List.cons.inj isBehind
          exact absurd rejects (otherPassed node (by simp [isBefore]) err)
    · cases between with
      | nil => exact (List.cons.inj isBehind).1.symm
      | cons head rest =>
          obtain ⟨rfl, _⟩ := List.cons.inj isBehind
          exact absurd otherRejects (passed otherNode (by simp [isBefore]) other)
  subst sameNode
  exact Except.error.inj (rejects.eval_eq.symm.trans otherRejects.eval_eq)

/-! ## Evaluation -/

/-- What an evaluation comes to by the operator nodes it passes. -/
inductive Passes (nodes : List Expr) : Except EvalError Value → Prop where
  | value (value : Value) (passed : NoneRejected nodes) : Passes nodes (.ok value)
  | error {err : EvalError} (first : FirstRejected nodes err) : Passes nodes (.error err)

/-- A node behind nodes that reject nothing decides by itself. -/
theorem passes_snoc {nodes : List Expr} {node : Expr} {result : Except EvalError Value}
    (passed : NoneRejected nodes) (rejects : ∀ err, Rejects node err ↔ result = .error err) :
    Passes (nodes ++ [node]) result := by
  cases result with
  | ok value =>
      refine .value value (List.forall_mem_append.mpr ⟨passed, ?_⟩)
      exact List.forall_mem_singleton.mpr fun err fails => by cases (rejects err).mp fails
  | error err =>
      have own : FirstRejected [node] err :=
        ⟨[], node, [], rfl, (rejects err).mpr rfl, List.forall_mem_nil _⟩
      exact .error (own.behind passed)

/-- Induction on the tree: evaluation goes through the operands in the order of the list and
stops at the first error, and a node is reached only if none of its operands has failed. -/
theorem passes_eval (e : Expr) : Passes e.operations e.eval := by
  induction e with
  | literal value => exact .value value (List.forall_mem_nil _)
  | grouping inner inductionHypothesis => exact inductionHypothesis
  | unary operator operand inductionHypothesis =>
      simp only [Expr.operations, Expr.eval]
      cases isResult : operand.eval with
      | error err =>
          rw [isResult] at inductionHypothesis
          cases inductionHypothesis with
          | error first => exact .error (first.append _)
      | ok value =>
          rw [isResult] at inductionHypothesis
          cases inductionHypothesis with
          | value _ passed => exact passes_snoc passed (rejects_unary_iff isResult)
  | binary left operator right leftHypothesis rightHypothesis =>
      simp only [Expr.operations, Expr.eval]
      cases isFirst : left.eval with
      | error err =>
          rw [isFirst] at leftHypothesis
          cases leftHypothesis with
          | error first => exact .error ((first.append _).append _)
      | ok first =>
          rw [isFirst] at leftHypothesis
          cases leftHypothesis with
          | value _ leftPassed =>
              cases isSecond : right.eval with
              | error err =>
                  rw [isSecond] at rightHypothesis
                  cases rightHypothesis with
                  | error inRight => exact .error ((inRight.behind leftPassed).append _)
              | ok second =>
                  rw [isSecond] at rightHypothesis
                  cases rightHypothesis with
                  | value _ rightPassed =>
                      have passed := List.forall_mem_append.mpr ⟨leftPassed, rightPassed⟩
                      exact passes_snoc passed (rejects_binary_iff isFirst isSecond)

/-- A run without earlier errors of the text interprets its tree. -/
theorem run_eq_interpret {d : Diagnostics} {source : String} {e : Expr}
    (unblocked : d.hasStatic = false) (clean : (scan source).errors = [])
    (parse : Run.parseScan (scan source) = .ok e) : d.run source = d.interpret e := by
  simp only [Diagnostics.run, Diagnostics.interpret, Run.ofSource, Run.value?, Run.reports,
    Run.lexicalReports, Run.parseReports, Run.evalReports, unblocked, clean, parse]
  cases e.eval with
  | ok value => simp [Diagnostics.append]
  | error err => simp [Diagnostics.append, Diagnostics.add]

/-- **The first failing operator decides.** An evaluation fails with an error exactly if that
is the error of the first node, operands before operators and left before right, whose
operands all have values that its operator rejects; without such a node it comes to a value.
Over any reports so far, the error of that node is filed and nothing is returned, or the value
is returned and nothing is filed. -/
theorem eval_fails_first (e : Expr) :
    (∀ err, e.eval = .error err ↔ FirstRejected e.operations err) ∧
      ((∃ value, e.eval = .ok value) ↔ NoneRejected e.operations) ∧
      (∀ d : Diagnostics,
        (∃ value, e.eval = .ok value ∧ d.interpret e = (some value, d)) ∨
          ∃ err, FirstRejected e.operations err ∧
            d.interpret e = (none, d.add (.runtime err.operator err.message))) := by
  have passes := passes_eval e
  generalize isResult : e.eval = result at passes
  cases passes with
  | value value passed =>
      refine ⟨?_, iff_of_true ⟨value, rfl⟩ passed, ?_⟩
      · intro err
        exact iff_of_false (by simp) fun first => first.not_none passed
      · intro d
        exact .inl ⟨value, rfl, by rw [Diagnostics.interpret, isResult]⟩
  | @error own first =>
      refine ⟨?_, iff_of_false (by simp) first.not_none, ?_⟩
      · intro err
        constructor
        · rintro ⟨rfl⟩
          exact first
        · exact fun other => congrArg Except.error (first.unique other)
      · intro d
        refine .inr ⟨own, first, ?_⟩
        rw [Diagnostics.interpret, isResult]
        rfl

end LoxCalc
