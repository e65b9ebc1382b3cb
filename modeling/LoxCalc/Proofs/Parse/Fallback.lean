import LoxCalc.Proofs.Expr.Failure
import LoxCalc.Proofs.Parse.Acceptance
import LoxCalc.Proofs.Source.Literal
import Mathlib.Data.List.Forall2

/-!
Contract: no fallback is taken on what is scanned and read.

Owns:
- `Expr.leaves` and `Spells.leaves_eq`, the literal nodes of a tree in order, which are the
  values of the operand tokens in order;
- `LeafOf`, the token of a literal node where no token lacks its literal;
- `fallbacks_unreached`, that neither these nor operators in a wrong form occur.
-/

set_option autoImplicit false

namespace LoxCalc

open Parse

/-! ## Literal nodes -/

/-- The values of the literal nodes of a tree, from left to right. -/
def Expr.leaves : Expr → List Value
  | .literal value => [value]
  | .grouping inner => inner.leaves
  | .unary _ operand => operand.leaves
  | .binary left _ right => left.leaves ++ right.leaves

/-- Whether a token is an operand by itself. -/
def Token.isOperand (t : Token) : Bool := (operandValue? t).isSome

theorem operandValue?_of_kind {t : Token} {kind : Kind} (isKind : t.kind = kind)
    (noOperand : kind ∉ [Kind.kwFalse, .kwTrue, .kwNil, .number, .string]) :
    operandValue? t = none := by
  unfold operandValue?
  split <;> rename_i isOperand <;> rw [isKind] at isOperand <;>
    first | rfl | exact absurd (isOperand ▸ noOperand) (by decide)

theorem operandValue?_of_infix {t : Token} {level : Level} (isInfix : t.kind ∈ operatorsOf level) :
    operandValue? t = none := by
  have noOperands : ∀ listed : Level, ∀ kind ∈ operatorsOf listed,
      kind ∉ [Kind.kwFalse, .kwTrue, .kwNil, .number, .string] := by
    intro listed
    cases listed <;> decide
  exact operandValue?_of_kind rfl (noOperands level t.kind isInfix)

/-- The literal nodes of a tree are the operand tokens of its spelling, in order. -/
theorem Spells.leaves_eq {e : Expr} {word : List Token} (spells : Spells e word)
    (shaped : WellShaped e) : e.leaves = word.filterMap operandValue? := by
  induction shaped generalizing word with
  | literal value =>
      obtain ⟨t, rfl, isValue⟩ := (spells_literal_iff value word).mp spells
      simp [Expr.leaves, isValue]
  | grouping _ inductionHypothesis =>
      cases spells with
      | grouping opens inside closes =>
          have noOpening := operandValue?_of_kind opens (by decide)
          have noClosing := operandValue?_of_kind closes (by decide)
          simp [Expr.leaves, inductionHypothesis inside, noOpening, noClosing]
  | @unary operator operand isPrefix _ _ inductionHypothesis =>
      cases spells with
      | unary inside =>
          have noOperator : operandValue? operator = none := by
            rcases isPrefix with kind | kind <;> exact operandValue?_of_kind kind (by decide)
          simp [Expr.leaves, inductionHypothesis inside, noOperator]
  | binary isInfix _ _ _ _ leftHypothesis rightHypothesis =>
      cases spells with
      | binary before after =>
          have noOperator := operandValue?_of_infix isInfix
          simp [Expr.leaves, leftHypothesis before, rightHypothesis after, noOperator]

/-- The token of a literal node where every number and string token carries its literal:
a `nil` comes from the word alone. -/
inductive LeafOf : Value → Token → Prop where
  | nilWord {t : Token} (kind : t.kind = .kwNil) : LeafOf .nil t
  | trueWord {t : Token} (kind : t.kind = .kwTrue) : LeafOf (.bool true) t
  | falseWord {t : Token} (kind : t.kind = .kwFalse) : LeafOf (.bool false) t
  | datum {t : Token} {value : Value} (kind : t.kind = .number ∨ t.kind = .string)
      (carried : t.literal = some value) (notNil : value ≠ .nil) : LeafOf value t

theorem leafOf_of_operandValue? {t : Token} {value : Value} (law : LiteralLaw t)
    (isValue : operandValue? t = some value) : LeafOf value t := by
  unfold operandValue? at isValue
  split at isValue
  · rename_i kind
    cases isValue
    exact .falseWord kind
  · rename_i kind
    cases isValue
    exact .trueWord kind
  · rename_i kind
    cases isValue
    exact .nilWord kind
  · rename_i kind
    obtain ⟨n, _, _, carried, _⟩ := law.number kind
    rw [carried] at isValue
    cases isValue
    exact .datum (.inl kind) carried (by simp)
  · rename_i kind
    obtain ⟨body, _, carried⟩ := law.string kind
    rw [carried] at isValue
    cases isValue
    exact .datum (.inr kind) carried (by simp)
  · contradiction

theorem forall₂_leafOf {word : List Token} (laws : ∀ t ∈ word, LiteralLaw t) :
    List.Forall₂ LeafOf (word.filterMap operandValue?) (word.filter Token.isOperand) := by
  induction word with
  | nil => exact .nil
  | cons t rest inductionHypothesis =>
      obtain ⟨law, others⟩ := List.forall_mem_cons.mp laws
      have tail := inductionHypothesis others
      cases isValue : operandValue? t with
      | none => simpa [Token.isOperand, isValue] using tail
      | some value =>
          have head := leafOf_of_operandValue? law isValue
          simpa [Token.isOperand, isValue] using ⟨head, tail⟩

/-! ## Both together -/

/-- A scanned text needs no further end mark. -/
theorem completed_scan (source : String) :
    completed (scan source).tokens = (scan source).tokens := by
  have ends : (scan source).tokens.getLast?.any Token.isEof = true := by
    rw [scan_tokens, List.getLast?_concat]
    rfl
  rw [completed, if_pos ends]

/-- **No fallback is taken.** Every scanned number carries an unsigned double and every
scanned string its text, and no other token has a literal; so a tree that is read from a
scanned text has a `nil` only where the word stands. And a tree that is read from any
tokens fails at operands only, never for want of an operator. -/
theorem fallbacks_unreached :
    (∀ source, ∀ t ∈ (scan source).tokens, LiteralLaw t) ∧
      (∀ source start e stop, Reads (scan source).tokens start e stop →
        List.Forall₂ LeafOf e.leaves
          (((scan source).tokens.extract start stop).filter Token.isOperand)) ∧
      (∀ tokens start e stop err, Reads tokens start e stop → e.eval = .error err →
        err.fault ≠ .unsupportedOperator ∧ err.message ∈ operandMessages) := by
  refine ⟨fun source t member => literalLaw_of_mem_scan member, ?_, ?_⟩
  · intro source start e stop reads
    obtain ⟨_, shaped, spells, _⟩ := (reads_iff _ start e stop).mp reads
    rw [completed_scan] at spells
    rw [spells.leaves_eq shaped]
    apply forall₂_leafOf
    intro t member
    rw [List.extract_eq_take_drop] at member
    exact literalLaw_of_mem_scan (List.mem_of_mem_drop (List.mem_of_mem_take member))
  · intro tokens start e stop err reads fails
    obtain ⟨_, shaped, _, _⟩ := (reads_iff tokens start e stop).mp reads
    have supported := shaped.fault_ne fails
    exact ⟨supported, message_mem_of_fault_ne supported⟩

/-- `"a" - nil` holds a `nil` by its word, and fails at its operands. -/
theorem fallbacks_unreached_difference :
    Reads (scan "\"a\" - nil").tokens 0
        (.binary (.literal (.string "a")) ⟨.minus, "-", none, 1⟩ (.literal .nil)) 3 ∧
      List.Forall₂ LeafOf [.string "a", .nil]
        [⟨.string, "\"a\"", some (.string "a"), 1⟩, ⟨.kwNil, "nil", none, 1⟩] ∧
      (⟨⟨.minus, "-", none, 1⟩, .operandsNotNumbers⟩ : EvalError).message ∈ operandMessages := by
  have reads : Reads (scan "\"a\" - nil").tokens 0
      (.binary (.literal (.string "a")) ⟨.minus, "-", none, 1⟩ (.literal .nil)) 3 := by
    refine ⟨[⟨.string, "\"a\"", some (.string "a"), 1⟩, ⟨.minus, "-", none, 1⟩,
      ⟨.kwNil, "nil", none, 1⟩], ⟨[], .eof 1⟩, ?_, ?_, rfl⟩
    · decide +kernel
    · decide +kernel
  have leaves := fallbacks_unreached.2.1 _ _ _ _ reads
  have operands : ((scan "\"a\" - nil").tokens.extract 0 3).filter Token.isOperand =
      [⟨.string, "\"a\"", some (.string "a"), 1⟩, ⟨.kwNil, "nil", none, 1⟩] := by
    decide +kernel
  rw [operands] at leaves
  exact ⟨reads, leaves, (fallbacks_unreached.2.2 _ _ _ _ _ reads rfl).2⟩

end LoxCalc
