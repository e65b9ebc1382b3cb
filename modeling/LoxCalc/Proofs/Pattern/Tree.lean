import LoxCalc.Expr
import LoxCalc.Proofs.Double.Payload

/-!
Contract: trees whose numbers are bit patterns, and their equality.

Owns:
- `Pattern.Value`, `Pattern.Token` and `Pattern.Expr`, in which the NaNs of different signs and
  payloads are told apart;
- `Same`, the equality of each, which identifies them again;
- `decode`, the values, tokens and trees of the library, with the law that two are the same
  exactly if they are decoded alike;
- `Pattern.Expr.text`, the written form.

Does **not** own: what trees of patterns evaluate to.
-/

set_option autoImplicit false

namespace LoxCalc.Pattern

open Double

/-! ## Values -/

/-- A value whose number is given by its 64 bits. -/
inductive Value where
  | nil
  | bool (b : Bool)
  | number (bits : UInt64)
  | string (s : String)
deriving DecidableEq, Repr

namespace Value

/-- Equality of values. Numbers are compared by their bits, but any two NaNs are equal, and
values of different kinds never are. -/
def same : Value → Value → Bool
  | .nil, .nil => true
  | .bool b, .bool c => decide (b = c)
  | .number x, .number y => (encodesNaN x && encodesNaN y) || decide (x = y)
  | .string s, .string t => decide (s = t)
  | _, _ => false

def Same (v w : Value) : Prop := v.same w = true

def decode : Value → LoxCalc.Value
  | .nil => .nil
  | .bool b => .bool b
  | .number bits => .number (Float.ofBits bits)
  | .string s => .string s

theorem same_number_iff (x y : UInt64) :
    Same (.number x) (.number y) ↔ x = y ∨ (encodesNaN x = true ∧ encodesNaN y = true) := by
  simp only [Same, same, Bool.or_eq_true, Bool.and_eq_true, decide_eq_true_eq]
  exact or_comm

theorem same_iff (v w : Value) : Same v w ↔ v.decode = w.decode := by
  cases v with
  | number x =>
      cases w with
      | number y =>
          rw [same_number_iff, decode, decode, LoxCalc.Value.number.injEq, ofBits_eq_iff]
      | nil | bool c | string t => simp [Same, same, decode]
  | nil => cases w <;> simp [Same, same, decode]
  | bool b => cases w <;> simp [Same, same, decode]
  | string s => cases w <;> simp [Same, same, decode]

/-- The written form of a value, a number by its bits. -/
def text : Value → String
  | .nil => "nil"
  | .bool true => "true"
  | .bool false => "false"
  | .number bits => String.ofList (patternChars bits)
  | .string s => s

theorem text_decode (v : Value) : v.decode.text = v.text := by
  cases v with
  | number bits => rw [decode, LoxCalc.Value.text, Double.text, chars_ofBits, text]
  | bool b => cases b <;> rfl
  | nil => rfl
  | string s => rfl

end Value

/-! ## Tokens -/

/-- A token whose literal holds its number by the bits. -/
structure Token where
  kind : Kind
  lexeme : String
  literal : Option Value
  line : UInt32
deriving DecidableEq, Repr

namespace Token

/-- Equality of tokens, part by part. -/
structure Same (t u : Token) : Prop where
  kind : t.kind = u.kind
  lexeme : t.lexeme = u.lexeme
  literal : Option.Rel Value.Same t.literal u.literal
  line : t.line = u.line

def decode (t : Token) : LoxCalc.Token :=
  ⟨t.kind, t.lexeme, t.literal.map Value.decode, t.line⟩

theorem sameLiteral_iff (v w : Option Value) :
    Option.Rel Value.Same v w ↔ v.map Value.decode = w.map Value.decode := by
  cases v <;> cases w <;> simp [Value.same_iff]

theorem same_iff (t u : Token) : Same t u ↔ t.decode = u.decode := by
  simp only [decode, LoxCalc.Token.mk.injEq, ← sameLiteral_iff]
  exact ⟨fun same => ⟨same.kind, same.lexeme, same.literal, same.line⟩,
    fun ⟨kind, lexeme, literal, line⟩ => ⟨kind, lexeme, literal, line⟩⟩

end Token

/-! ## Trees -/

/-- An expression over values and tokens with bit patterns. -/
inductive Expr where
  | literal (value : Value)
  | grouping (inner : Expr)
  | unary (operator : Token) (operand : Expr)
  | binary (left : Expr) (operator : Token) (right : Expr)
deriving DecidableEq, Repr

namespace Expr

/-- Equality of trees, part by part. -/
inductive Same : Expr → Expr → Prop where
  | literal {v w : Value} (value : v.Same w) : Same (.literal v) (.literal w)
  | grouping {inner inner' : Expr} (inside : Same inner inner') :
      Same (.grouping inner) (.grouping inner')
  | unary {t u : Token} {operand operand' : Expr} (operator : t.Same u)
      (inside : Same operand operand') : Same (.unary t operand) (.unary u operand')
  | binary {t u : Token} {left left' right right' : Expr} (before : Same left left')
      (operator : t.Same u) (after : Same right right') :
      Same (.binary left t right) (.binary left' u right')

def decode : Expr → LoxCalc.Expr
  | .literal value => .literal value.decode
  | .grouping inner => .grouping inner.decode
  | .unary operator operand => .unary operator.decode operand.decode
  | .binary left operator right => .binary left.decode operator.decode right.decode

theorem Same.decode_eq {e e' : Expr} (same : Same e e') : e.decode = e'.decode := by
  induction same with
  | literal value => rw [decode, decode, (Value.same_iff _ _).mp value]
  | grouping _ inductionHypothesis => rw [decode, decode, inductionHypothesis]
  | unary operator _ inductionHypothesis =>
      rw [decode, decode, (Token.same_iff _ _).mp operator, inductionHypothesis]
  | binary _ operator _ leftHypothesis rightHypothesis =>
      rw [decode, decode, (Token.same_iff _ _).mp operator, leftHypothesis, rightHypothesis]

theorem same_of_decode_eq (e : Expr) : ∀ e' : Expr, e.decode = e'.decode → Same e e' := by
  induction e with
  | literal value =>
      intro e' alike
      cases e' <;> simp only [decode, reduceCtorEq, LoxCalc.Expr.literal.injEq] at alike
      exact .literal ((Value.same_iff _ _).mpr alike)
  | grouping inner inductionHypothesis =>
      intro e' alike
      cases e' <;> simp only [decode, reduceCtorEq, LoxCalc.Expr.grouping.injEq] at alike
      exact .grouping (inductionHypothesis _ alike)
  | unary operator operand inductionHypothesis =>
      intro e' alike
      cases e' <;> simp only [decode, reduceCtorEq, LoxCalc.Expr.unary.injEq] at alike
      exact .unary ((Token.same_iff _ _).mpr alike.1) (inductionHypothesis _ alike.2)
  | binary left operator right leftHypothesis rightHypothesis =>
      intro e' alike
      cases e' <;> simp only [decode, reduceCtorEq, LoxCalc.Expr.binary.injEq] at alike
      exact .binary (leftHypothesis _ alike.1) ((Token.same_iff _ _).mpr alike.2.1)
        (rightHypothesis _ alike.2.2)

/-- Trees are the same exactly if they are decoded alike. -/
theorem same_iff (e e' : Expr) : Same e e' ↔ e.decode = e'.decode :=
  ⟨Same.decode_eq, same_of_decode_eq e e'⟩

/-- The tree in parentheses, operators first by their lexemes. -/
def text : Expr → String
  | .literal value => value.text
  | .grouping inner => "(group " ++ inner.text ++ ")"
  | .unary operator operand => "(" ++ operator.lexeme ++ " " ++ operand.text ++ ")"
  | .binary left operator right =>
      "(" ++ operator.lexeme ++ " " ++ left.text ++ " " ++ right.text ++ ")"

/-- A tree is written as the one it is decoded to. -/
theorem text_decode (e : Expr) : e.decode.text = e.text := by
  induction e with
  | literal value => rw [decode, LoxCalc.Expr.text, Value.text_decode, text]
  | grouping inner inductionHypothesis =>
      rw [decode, LoxCalc.Expr.text, inductionHypothesis, text]
  | unary operator operand inductionHypothesis =>
      rw [decode, LoxCalc.Expr.text, inductionHypothesis, text, Token.decode]
  | binary left operator right leftHypothesis rightHypothesis =>
      rw [decode, LoxCalc.Expr.text, leftHypothesis, rightHypothesis, text, Token.decode]

end Expr

/-! ## Equivalences -/

/-- What is equality up to a function is an equivalence. -/
theorem equivalence_of_iff {α β : Type} {related : α → α → Prop} {view : α → β}
    (isView : ∀ x y, related x y ↔ view x = view y) : Equivalence related := by
  have isComap : related = Function.onFun Eq view :=
    funext₂ fun x y => propext (isView x y)
  rw [isComap]
  exact eq_equivalence.comap view

theorem Value.same_equivalence : Equivalence Value.Same := equivalence_of_iff Value.same_iff

theorem Token.same_equivalence : Equivalence Token.Same := equivalence_of_iff Token.same_iff

theorem Expr.same_equivalence : Equivalence Expr.Same := equivalence_of_iff Expr.same_iff

end LoxCalc.Pattern
