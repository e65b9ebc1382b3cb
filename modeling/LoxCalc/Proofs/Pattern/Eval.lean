import LoxCalc.Proofs.Parse.Alike
import LoxCalc.Proofs.Pattern.Tree

/-!
Contract: evaluation and the written form respect equality, whatever the bits of a NaN.

Owns:
- `Arithmetic`, operations on bit patterns that pass NaN on, in any of its patterns, with
  `Arithmetic.ieee`, those of doubles;
- `Pattern.Expr.eval`, evaluation over an arithmetic, with `eval_decode`, that over that of
  doubles it is the evaluation of the library;
- `eval_same`, that equal trees evaluate to equal values or fail with equal errors;
- `EqualityLaws` with `equality_respected`.

The arithmetic is free in the sign and the payload of every NaN that it makes, so a law that
holds for all of them shows that no operator looks at these.
-/

set_option autoImplicit false

namespace LoxCalc.Pattern

open Double

/-! ## Arithmetic -/

/-- Operations and comparisons on bit patterns for which one NaN operand is enough. -/
structure Arithmetic where
  neg : UInt64 → UInt64
  add : UInt64 → UInt64 → UInt64
  sub : UInt64 → UInt64 → UInt64
  mul : UInt64 → UInt64 → UInt64
  div : UInt64 → UInt64 → UInt64
  lt : UInt64 → UInt64 → Bool
  le : UInt64 → UInt64 → Bool
  neg_strict : ∀ x, encodesNaN x = true → encodesNaN (neg x) = true
  add_strict : Strict add
  sub_strict : Strict sub
  mul_strict : Strict mul
  div_strict : Strict div
  lt_unordered : Unordered lt
  le_unordered : Unordered le

/-- The arithmetic of doubles, by the bits of the results. -/
def Arithmetic.ieee : Arithmetic where
  neg := fun x => (-Float.ofBits x).toBits
  add := fun x y => (Float.ofBits x + Float.ofBits y).toBits
  sub := fun x y => (Float.ofBits x - Float.ofBits y).toBits
  mul := fun x y => (Float.ofBits x * Float.ofBits y).toBits
  div := fun x y => (Float.ofBits x / Float.ofBits y).toBits
  lt := fun x y => decide (Float.ofBits x < Float.ofBits y)
  le := fun x y => decide (Float.ofBits x ≤ Float.ofBits y)
  neg_strict := fun _ => encodesNaN_neg
  add_strict := strict_add
  sub_strict := strict_sub
  mul_strict := strict_mul
  div_strict := strict_div
  lt_unordered := unordered_lt
  le_unordered := unordered_le

/-! ## Evaluation -/

def Value.truthy : Value → Bool
  | .nil => false
  | .bool b => b
  | .number _ => true
  | .string _ => true

/-- A fault and the operator token that ran into it. -/
structure EvalError where
  operator : Token
  fault : RuntimeFault
deriving DecidableEq, Repr

def EvalError.decode (err : EvalError) : LoxCalc.EvalError := ⟨err.operator.decode, err.fault⟩

def EvalError.message (err : EvalError) : String := err.decode.message

/-- Equality of errors: of their tokens and of their wordings. -/
def EvalError.Same (err other : EvalError) : Prop :=
  err.operator.Same other.operator ∧ err.message = other.message

def prefixResult (a : Arithmetic) : UnaryOp → Value → Except RuntimeFault Value
  | .not, operand => .ok (.bool (!operand.truthy))
  | .negate, .number x => .ok (.number (a.neg x))
  | .negate, _ => .error .operandNotNumber

def onNumbers (compute : UInt64 → UInt64 → Value) : Value → Value → Except RuntimeFault Value
  | .number x, .number y => .ok (compute x y)
  | _, _ => .error .operandsNotNumbers

def addValues (a : Arithmetic) : Value → Value → Except RuntimeFault Value
  | .number x, .number y => .ok (.number (a.add x y))
  | .string s, .string t => .ok (.string (s ++ t))
  | _, _ => .error .operandsNotAddable

def infixResult (a : Arithmetic) : BinaryOp → Value → Value → Except RuntimeFault Value
  | .notEqual, left, right => .ok (.bool (!left.same right))
  | .equal, left, right => .ok (.bool (left.same right))
  | .greater, left, right => onNumbers (fun x y => .bool (a.lt y x)) left right
  | .greaterEqual, left, right => onNumbers (fun x y => .bool (a.le y x)) left right
  | .less, left, right => onNumbers (fun x y => .bool (a.lt x y)) left right
  | .lessEqual, left, right => onNumbers (fun x y => .bool (a.le x y)) left right
  | .subtract, left, right => onNumbers (fun x y => .number (a.sub x y)) left right
  | .add, left, right => addValues a left right
  | .divide, left, right => onNumbers (fun x y => .number (a.div x y)) left right
  | .multiply, left, right => onNumbers (fun x y => .number (a.mul x y)) left right

/-- The result of the operator that a token stands for, if it stands for one. -/
def Token.result {Op : Type} (operator : Token) (op? : Option Op)
    (result : Op → Except RuntimeFault Value) : Except EvalError Value :=
  match op? with
  | none => .error ⟨operator, .unsupportedOperator⟩
  | some op => (result op).mapError fun fault => ⟨operator, fault⟩

/-- The value of a tree over an arithmetic: operands first, the left before the right, and the
first error ends the evaluation. -/
def Expr.eval (a : Arithmetic) : Expr → Except EvalError Value
  | .literal value => .ok value
  | .grouping inner => inner.eval a
  | .unary operator operand =>
      match operand.eval a with
      | .error e => .error e
      | .ok value => operator.result operator.kind.unary? fun op => prefixResult a op value
  | .binary left operator right =>
      match left.eval a with
      | .error e => .error e
      | .ok first =>
          match right.eval a with
          | .error e => .error e
          | .ok second =>
              operator.result operator.kind.binary? fun op => infixResult a op first second

/-! ## Equal numbers -/

/-- The same number, by the patterns. -/
def SameNumber (x y : UInt64) : Prop := x = y ∨ (encodesNaN x = true ∧ encodesNaN y = true)

theorem sameNumber_of_strict {op : UInt64 → UInt64 → UInt64} (strict : Strict op)
    {x x' y y' : UInt64} (first : SameNumber x x') (second : SameNumber y y') :
    SameNumber (op x y) (op x' y') := by
  rcases first with rfl | ⟨isNaN, isNaN'⟩
  · rcases second with rfl | ⟨isNaN, isNaN'⟩
    · exact .inl rfl
    · exact .inr ⟨strict _ _ (.inr isNaN), strict _ _ (.inr isNaN')⟩
  · exact .inr ⟨strict _ _ (.inl isNaN), strict _ _ (.inl isNaN')⟩

theorem eq_of_unordered {compares : UInt64 → UInt64 → Bool} (unordered : Unordered compares)
    {x x' y y' : UInt64} (first : SameNumber x x') (second : SameNumber y y') :
    compares x y = compares x' y' := by
  rcases first with rfl | ⟨isNaN, isNaN'⟩
  · rcases second with rfl | ⟨isNaN, isNaN'⟩
    · rfl
    · rw [unordered _ _ (.inr isNaN), unordered _ _ (.inr isNaN')]
  · rw [unordered _ _ (.inl isNaN), unordered _ _ (.inl isNaN')]

/-! ## Equal values -/

/-- The values that equal another one. -/
inductive Value.SameAs : Value → Value → Prop where
  | nil : SameAs .nil .nil
  | bool (b : Bool) : SameAs (.bool b) (.bool b)
  | number {x y : UInt64} (same : SameNumber x y) : SameAs (.number x) (.number y)
  | string (s : String) : SameAs (.string s) (.string s)

theorem Value.Same.cases {v w : Value} (same : v.Same w) : v.SameAs w := by
  cases v <;> cases w <;> simp only [Value.Same, Value.same, Bool.false_eq_true,
    decide_eq_true_eq] at same
  · exact .nil
  · exact same ▸ .bool _
  · exact .number ((Value.same_number_iff _ _).mp same)
  · exact same ▸ .string _

theorem Value.Same.truthy_eq {v w : Value} (same : v.Same w) : v.truthy = w.truthy := by
  cases same.cases <;> rfl

/-- Testing for equality does not tell equal values apart. -/
theorem same_congr {v v' w w' : Value} (first : v.Same v') (second : w.Same w') :
    v.same w = v'.same w' := by
  rw [Bool.eq_iff_iff]
  constructor
  · intro same
    exact Value.same_equivalence.trans (Value.same_equivalence.symm first)
      (Value.same_equivalence.trans same second)
  · intro same
    exact Value.same_equivalence.trans first
      (Value.same_equivalence.trans same (Value.same_equivalence.symm second))

section

variable (a : Arithmetic) {v v' w w' : Value} (first : v.Same v')

include first

theorem prefixResult_same (op : UnaryOp) :
    Matching Eq Value.Same (prefixResult a op v) (prefixResult a op v') := by
  cases op with
  | not =>
      rw [prefixResult, prefixResult, first.truthy_eq]
      exact .ok (Value.same_equivalence.refl _)
  | negate =>
      cases first.cases with
      | nil | bool b | string s => exact .error rfl
      | number same =>
          refine .ok ((Value.same_number_iff _ _).mpr ?_)
          rcases same with rfl | ⟨isNaN, isNaN'⟩
          · exact .inl rfl
          · exact .inr ⟨a.neg_strict _ isNaN, a.neg_strict _ isNaN'⟩

variable (second : w.Same w')

include second

theorem onNumbers_same {compute : UInt64 → UInt64 → Value}
    (respects : ∀ {x x' y y'}, SameNumber x x' → SameNumber y y' →
      (compute x y).Same (compute x' y')) :
    Matching Eq Value.Same (onNumbers compute v w) (onNumbers compute v' w') := by
  cases first.cases with
  | number same =>
      cases second.cases with
      | number same' => exact .ok (respects same same')
      | nil | bool b | string s => exact .error rfl
  | nil | bool b | string s => exact .error rfl

theorem computed_same {op : UInt64 → UInt64 → UInt64} (strict : Strict op) :
    Matching Eq Value.Same (onNumbers (fun x y => .number (op x y)) v w)
      (onNumbers (fun x y => .number (op x y)) v' w') := by
  apply onNumbers_same first second
  intro x x' y y' same same'
  exact (Value.same_number_iff _ _).mpr (sameNumber_of_strict strict same same')

theorem compared_same {compares : UInt64 → UInt64 → Bool} (unordered : Unordered compares) :
    Matching Eq Value.Same (onNumbers (fun x y => .bool (compares x y)) v w)
      (onNumbers (fun x y => .bool (compares x y)) v' w') := by
  apply onNumbers_same first second
  intro x x' y y' same same'
  rw [eq_of_unordered unordered same same']
  exact Value.same_equivalence.refl _

theorem addValues_same : Matching Eq Value.Same (addValues a v w) (addValues a v' w') := by
  cases first.cases with
  | number same =>
      cases second.cases with
      | number same' =>
          exact .ok ((Value.same_number_iff _ _).mpr (sameNumber_of_strict a.add_strict same same'))
      | nil | bool b | string s => exact .error rfl
  | string s =>
      cases second.cases with
      | string t => exact .ok (Value.same_equivalence.refl _)
      | nil | bool b | number same' => exact .error rfl
  | nil | bool b => exact .error rfl

theorem infixResult_same (op : BinaryOp) :
    Matching Eq Value.Same (infixResult a op v w) (infixResult a op v' w') := by
  cases op with
  | notEqual =>
      rw [infixResult, infixResult, same_congr first second]
      exact .ok (Value.same_equivalence.refl _)
  | equal =>
      rw [infixResult, infixResult, same_congr first second]
      exact .ok (Value.same_equivalence.refl _)
  | greater => exact compared_same first second fun x y isNaN => a.lt_unordered y x isNaN.symm
  | greaterEqual => exact compared_same first second fun x y isNaN => a.le_unordered y x isNaN.symm
  | less => exact compared_same first second a.lt_unordered
  | lessEqual => exact compared_same first second a.le_unordered
  | subtract => exact computed_same first second a.sub_strict
  | add => exact addValues_same a first second
  | divide => exact computed_same first second a.div_strict
  | multiply => exact computed_same first second a.mul_strict

end

/-! ## Equal trees -/

theorem EvalError.same_mk {t u : Token} (same : t.Same u) (fault : RuntimeFault) :
    EvalError.Same ⟨t, fault⟩ ⟨u, fault⟩ := by
  refine ⟨same, ?_⟩
  rw [EvalError.message, EvalError.message, EvalError.decode, EvalError.decode,
    (Token.same_iff t u).mp same]

theorem result_same {Op : Type} {t u : Token} (same : t.Same u) (op? : Option Op)
    {result result' : Op → Except RuntimeFault Value}
    (alike : ∀ op, Matching Eq Value.Same (result op) (result' op)) :
    Matching EvalError.Same Value.Same (t.result op? result) (u.result op? result') := by
  unfold Token.result
  cases op? with
  | none => exact .error (EvalError.same_mk same _)
  | some op =>
      have matching := alike op
      dsimp only
      generalize result op = outcome, result' op = outcome' at matching
      cases matching with
      | error sameFault =>
          subst sameFault
          exact .error (EvalError.same_mk same _)
      | ok sameValue => exact .ok sameValue

/-- **Evaluation respects equality.** Induction on the pair of trees: operands come to equal
values or fail with equal errors, and no operator tells equal values apart. -/
theorem eval_same (a : Arithmetic) {e e' : Expr} (same : e.Same e') :
    Matching EvalError.Same Value.Same (e.eval a) (e'.eval a) := by
  induction same with
  | literal value => exact .ok value
  | grouping _ inductionHypothesis => exact inductionHypothesis
  | @unary t u operand operand' operator _ inductionHypothesis =>
      simp only [Expr.eval]
      generalize operand.eval a = result, operand'.eval a = result' at inductionHypothesis
      cases inductionHypothesis with
      | error related => exact .error related
      | ok sameValue =>
          rw [← operator.kind]
          exact result_same operator _ fun op => prefixResult_same a sameValue op
  | @binary t u left left' right right' _ operator _ leftHypothesis rightHypothesis =>
      simp only [Expr.eval]
      generalize left.eval a = first, left'.eval a = first' at leftHypothesis
      generalize right.eval a = second, right'.eval a = second' at rightHypothesis
      cases leftHypothesis with
      | error related => exact .error related
      | ok sameFirst =>
          cases rightHypothesis with
          | error related => exact .error related
          | ok sameSecond =>
              rw [← operator.kind]
              exact result_same operator _ fun op => infixResult_same a sameFirst sameSecond op

/-! ## Doubles -/

/-- The result of the library that a result on patterns stands for. -/
def decodeResult : Except EvalError Value → Except LoxCalc.EvalError LoxCalc.Value
  | .error err => .error err.decode
  | .ok value => .ok value.decode

theorem decode_computed (x : Float) : (Value.number x.toBits).decode = .number x := by
  rw [Value.decode, Float.ofBits_toBits]

theorem truthy_decode (v : Value) : v.decode.truthy = v.truthy := by
  cases v <;> rfl

theorem same_eq_decide (v w : Value) : v.same w = decide (v.decode = w.decode) := by
  rw [Bool.eq_iff_iff, decide_eq_true_iff]
  exact Value.same_iff v w

theorem prefixResult_decode (op : UnaryOp) (v : Value) :
    op.apply v.decode = (prefixResult .ieee op v).map Value.decode := by
  cases op with
  | not =>
      rw [prefixResult, UnaryOp.apply, truthy_decode]
      rfl
  | negate =>
      cases v with
      | number x => exact congrArg Except.ok (decode_computed _).symm
      | nil | bool b | string s => rfl

theorem onNumbers_decode {compute : UInt64 → UInt64 → Value}
    {onDoubles : Float → Float → LoxCalc.Value}
    (isDecoded : ∀ x y, (compute x y).decode = onDoubles (Float.ofBits x) (Float.ofBits y))
    (v w : Value) :
    LoxCalc.onNumbers onDoubles v.decode w.decode = (onNumbers compute v w).map Value.decode := by
  cases v with
  | number x =>
      cases w with
      | number y => exact congrArg Except.ok (isDecoded x y).symm
      | nil | bool b | string s => rfl
  | nil | bool b | string s => rfl

theorem addValues_decode (v w : Value) :
    LoxCalc.addValues v.decode w.decode = (addValues .ieee v w).map Value.decode := by
  cases v with
  | number x =>
      cases w with
      | number y => exact congrArg Except.ok (decode_computed _).symm
      | nil | bool b | string s => rfl
  | string s =>
      cases w with
      | nil | bool b | number y | string t => rfl
  | nil | bool b => rfl

theorem infixResult_decode (op : BinaryOp) (v w : Value) :
    op.apply v.decode w.decode = (infixResult .ieee op v w).map Value.decode := by
  cases op with
  | notEqual =>
      simp only [infixResult, BinaryOp.apply, same_eq_decide, ne_eq, decide_not]
      rfl
  | equal =>
      simp only [infixResult, BinaryOp.apply, same_eq_decide]
      rfl
  | greater | greaterEqual | less | lessEqual => exact onNumbers_decode (fun _ _ => rfl) v w
  | subtract | divide | multiply => exact onNumbers_decode (fun _ _ => decode_computed _) v w
  | add => exact addValues_decode v w

theorem applyUnary_decode (operator : Token) (v : Value) :
    operator.decode.applyUnary v.decode =
      decodeResult (operator.result operator.kind.unary? fun op => prefixResult .ieee op v) := by
  have kindIs : operator.decode.kind = operator.kind := rfl
  unfold Token.result LoxCalc.Token.applyUnary
  rw [kindIs]
  cases operator.kind.unary? with
  | none => rfl
  | some op =>
      dsimp only
      rw [prefixResult_decode]
      cases prefixResult .ieee op v <;> rfl

theorem applyBinary_decode (operator : Token) (v w : Value) :
    operator.decode.applyBinary v.decode w.decode =
      decodeResult (operator.result operator.kind.binary? fun op => infixResult .ieee op v w) := by
  have kindIs : operator.decode.kind = operator.kind := rfl
  unfold Token.result LoxCalc.Token.applyBinary
  rw [kindIs]
  cases operator.kind.binary? with
  | none => rfl
  | some op =>
      dsimp only
      rw [infixResult_decode]
      cases infixResult .ieee op v w <;> rfl

/-- Over the arithmetic of doubles, a tree of patterns is evaluated as the tree that it is
decoded to. -/
theorem eval_decode (e : Expr) : e.decode.eval = decodeResult (e.eval .ieee) := by
  induction e with
  | literal value => rfl
  | grouping inner inductionHypothesis => exact inductionHypothesis
  | unary operator operand inductionHypothesis =>
      rw [Expr.decode, LoxCalc.Expr.eval, inductionHypothesis, Expr.eval]
      cases operand.eval .ieee with
      | error err => rfl
      | ok value => exact applyUnary_decode operator value
  | binary left operator right leftHypothesis rightHypothesis =>
      rw [Expr.decode, LoxCalc.Expr.eval, leftHypothesis, rightHypothesis, Expr.eval]
      cases left.eval .ieee with
      | error err => rfl
      | ok first =>
          cases right.eval .ieee with
          | error err => rfl
          | ok second => exact applyBinary_decode operator first second

/-! ## The laws of equality -/

/-- A pattern of every value, with the one pattern of NaN that doubles have. -/
def Value.encode : LoxCalc.Value → Value
  | .nil => .nil
  | .bool b => .bool b
  | .number x => .number x.toBits
  | .string s => .string s

@[simp] theorem Value.decode_encode (v : LoxCalc.Value) : (Value.encode v).decode = v := by
  cases v with
  | number x => exact decode_computed x
  | nil | bool b | string s => rfl

def Token.encode (t : LoxCalc.Token) : Token :=
  ⟨t.kind, t.lexeme, t.literal.map Value.encode, t.line⟩

@[simp] theorem Token.decode_encode (t : LoxCalc.Token) : (Token.encode t).decode = t := by
  rw [Token.encode, Token.decode, Option.map_map, funext (f := Value.decode ∘ Value.encode)
    Value.decode_encode, Option.map_id']

/-- Every tree of the library is decoded from a tree of patterns. -/
theorem exists_decode_eq (tree : LoxCalc.Expr) : ∃ e : Expr, e.decode = tree := by
  induction tree with
  | literal value => exact ⟨.literal (.encode value), by simp [Expr.decode]⟩
  | grouping inner inductionHypothesis =>
      obtain ⟨e, rfl⟩ := inductionHypothesis
      exact ⟨.grouping e, rfl⟩
  | unary operator operand inductionHypothesis =>
      obtain ⟨e, rfl⟩ := inductionHypothesis
      exact ⟨.unary (.encode operator) e, by simp [Expr.decode]⟩
  | binary left operator right leftHypothesis rightHypothesis =>
      obtain ⟨first, rfl⟩ := leftHypothesis
      obtain ⟨second, rfl⟩ := rightHypothesis
      exact ⟨.binary first (.encode operator) second, by simp [Expr.decode]⟩

/-- What equality is to values, tokens and trees, and to evaluation over an arithmetic. -/
structure EqualityLaws (a : Arithmetic) : Prop where
  values : Equivalence Value.Same
  tokens : Equivalence Token.Same
  trees : Equivalence Expr.Same
  /-- Equal trees have equal values, or fail with equal errors. -/
  evaluated : ∀ {e e' : Expr}, e.Same e' →
    Matching EvalError.Same Value.Same (e.eval a) (e'.eval a)
  written : ∀ {e e' : Expr}, e.Same e' → e.text = e'.text
  /-- The trees of the library are these trees up to equality, -/
  decoded : ∀ e e' : Expr, e.Same e' ↔ e.decode = e'.decode
  every : ∀ tree : LoxCalc.Expr, ∃ e : Expr, e.decode = tree
  /-- with the values of the library over the arithmetic of doubles, and its written forms. -/
  evaluates : ∀ e : Expr, e.decode.eval = decodeResult (e.eval .ieee)
  writes : ∀ e : Expr, e.decode.text = e.text

/-- **Equality is an equivalence that evaluation respects.** Whatever signs and payloads the
arithmetic gives to the NaNs that it makes, equal trees evaluate to equal values or fail with
equal errors, and they are written alike. -/
theorem equality_respected (a : Arithmetic) : EqualityLaws a where
  values := Value.same_equivalence
  tokens := Token.same_equivalence
  trees := Expr.same_equivalence
  evaluated := eval_same a
  written := by
    intro e e' same
    rw [← Expr.text_decode, ← Expr.text_decode, same.decode_eq]
  decoded := Expr.same_iff
  every := exists_decode_eq
  evaluates := eval_decode
  writes := Expr.text_decode

/-- Sums that start with NaNs of two signs and payloads are different trees, but equal. -/
theorem equality_respected_nan :
    let sum (bits : UInt64) : Expr :=
      .binary (.literal (.number bits)) ⟨.plus, "+", none, 1⟩ (.literal (.number 0))
    let quiet := sum 0x7FF8000000000000
    let other := sum 0xFFF0000000000001
    quiet ≠ other ∧ quiet.Same other ∧
      Matching EvalError.Same Value.Same (quiet.eval .ieee) (other.eval .ieee) ∧
      quiet.text = other.text := by
  intro sum quiet other
  have sameNumber : (Value.number 0x7FF8000000000000).Same (.number 0xFFF0000000000001) :=
    (Value.same_number_iff _ _).mpr (.inr (by decide))
  have same : quiet.Same other :=
    .binary (.literal sameNumber) (Token.same_equivalence.refl _) (Expr.same_equivalence.refl _)
  have laws := equality_respected .ieee
  exact ⟨by decide, same, laws.evaluated same, laws.written same⟩

/-- Zeros of two signs are not equal. -/
example : ¬ (Value.number 0).Same (.number 0x8000000000000000) := by
  unfold Value.Same
  decide

end LoxCalc.Pattern
