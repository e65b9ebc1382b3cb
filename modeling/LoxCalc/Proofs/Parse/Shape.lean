import LoxCalc.Parse.Automaton

/-!
Contract: the trees of the grammar and the tokens that spell them.

Owns:
- `Spells`, the tokens of a tree in the order in which they are written;
- `operatorsOf` and `looseToTight`, the infix operators by level and the order of the levels;
- `Expr.tightness` and `WellShaped`, the trees that precedence and grouping to the
  left allow.

Does **not** own: any reading of tokens.
-/

set_option autoImplicit false

namespace LoxCalc

open Parse

/-! ## Spelling -/

/-- The tokens of a tree from left to right. A literal is spelled by its word, or by a
number or string token that carries it; such a token without a literal spells `nil`. -/
inductive Spells : Expr → List Token → Prop where
  | falseWord {t : Token} (kind : t.kind = .kwFalse) : Spells (.literal (.bool false)) [t]
  | trueWord {t : Token} (kind : t.kind = .kwTrue) : Spells (.literal (.bool true)) [t]
  | nilWord {t : Token} (kind : t.kind = .kwNil) : Spells (.literal .nil) [t]
  | datum {t : Token} (kind : t.kind = .number ∨ t.kind = .string) :
      Spells (.literal (t.literal.getD .nil)) [t]
  | grouping {inner : Expr} {opening closing : Token} {word : List Token}
      (opens : opening.kind = .leftParen) (inside : Spells inner word)
      (closes : closing.kind = .rightParen) :
      Spells (.grouping inner) (opening :: (word ++ [closing]))
  | unary {operator : Token} {operand : Expr} {word : List Token}
      (inside : Spells operand word) : Spells (.unary operator operand) (operator :: word)
  | binary {left right : Expr} {operator : Token} {leftWord rightWord : List Token}
      (before : Spells left leftWord) (after : Spells right rightWord) :
      Spells (.binary left operator right) (leftWord ++ operator :: rightWord)

theorem spells_literal_iff (value : Value) (word : List Token) :
    Spells (.literal value) word ↔ ∃ t, word = [t] ∧ operandValue? t = some value := by
  constructor
  · intro spells
    cases spells with
    | @falseWord t kind => exact ⟨t, rfl, by simp only [operandValue?, kind]⟩
    | @trueWord t kind => exact ⟨t, rfl, by simp only [operandValue?, kind]⟩
    | @nilWord t kind => exact ⟨t, rfl, by simp only [operandValue?, kind]⟩
    | @datum t kind =>
        refine ⟨t, rfl, ?_⟩
        rcases kind with kind | kind <;> simp only [operandValue?, kind]
  · intro spelling
    rcases spelling with ⟨t, rfl, isValue⟩
    unfold operandValue? at isValue
    split at isValue
    · rename_i kind
      cases isValue
      exact .falseWord kind
    · rename_i kind
      cases isValue
      exact .trueWord kind
    · rename_i kind
      cases isValue
      exact .nilWord kind
    · rename_i kind
      cases isValue
      exact .datum (.inl kind)
    · rename_i kind
      cases isValue
      exact .datum (.inr kind)
    · contradiction

theorem Spells.ne_nil {e : Expr} {word : List Token} (spells : Spells e word) : word ≠ [] := by
  cases spells <;> simp

/-! ## Levels -/

/-- The infix operators of each level. -/
def operatorsOf : Level → List Kind
  | .equality => [.bangEqual, .equalEqual]
  | .comparison => [.greater, .greaterEqual, .less, .lessEqual]
  | .term => [.minus, .plus]
  | .factor => [.slash, .star]

/-- The levels in the order in which their operators bind. -/
def looseToTight : List Level := [.equality, .comparison, .term, .factor]

/-- The place of an infix operator in the order from loose to tight, which is that of its
level. -/
def Kind.place (kind : Kind) : Nat :=
  looseToTight.findIdx (fun level => kind ∈ operatorsOf level)

theorem level?_eq_some_iff (kind : Kind) (level : Level) :
    kind.level? = some level ↔ kind ∈ operatorsOf level := by
  cases level <;> cases kind <;> decide

theorem Kind.place_eq_rank {kind : Kind} {level : Level} (isInfix : kind.level? = some level) :
    kind.place = level.rank := by
  have agree : ∀ listed : Level, ∀ kind ∈ operatorsOf listed, kind.place = listed.rank := by
    intro listed
    cases listed <;> decide
  exact agree level kind ((level?_eq_some_iff kind level).mp isInfix)

theorem Level.rank_lt (level : Level) : level.rank < 4 := by
  cases level <;> decide

theorem Level.eq_of_rank_eq {first second : Level} (same : first.rank = second.rank) :
    first = second := by
  cases first <;> cases second <;> first | rfl | contradiction

/-! ## Shape -/

/-- How tightly the root of a tree binds: an infix tree by the place of its operator, a
prefix tree tighter than all of these, and operands tightest. -/
def Expr.tightness : Expr → Nat
  | .binary _ operator _ => operator.kind.place
  | .unary _ _ => 4
  | .literal _ => 5
  | .grouping _ => 5

theorem Expr.tightness_binary (left right : Expr) {operator : Token} {level : Level}
    (isInfix : operator.kind.level? = some level) :
    (Expr.binary left operator right).tightness = level.rank :=
  Kind.place_eq_rank isInfix

/-- The trees in which every operator stands in its form and every operand that is
not in parentheses binds tightly enough: an operand on the left at least as tightly
as the operator, one on the right more tightly, and that of a prefix operator more
tightly than every infix operator. -/
inductive WellShaped : Expr → Prop where
  | literal (value : Value) : WellShaped (.literal value)
  | grouping {inner : Expr} (inside : WellShaped inner) : WellShaped (.grouping inner)
  | unary {operator : Token} {operand : Expr}
      (isPrefix : operator.kind = .bang ∨ operator.kind = .minus)
      (tight : looseToTight.length ≤ operand.tightness) (inside : WellShaped operand) :
      WellShaped (.unary operator operand)
  | binary {left right : Expr} {operator : Token} {level : Level}
      (isInfix : operator.kind ∈ operatorsOf level)
      (leftTight : operator.kind.place ≤ left.tightness)
      (rightTight : operator.kind.place < right.tightness)
      (before : WellShaped left) (after : WellShaped right) :
      WellShaped (.binary left operator right)

/-- An infix tree is well shaped if its operands bind tightly enough for the level that its
operator is read at. -/
theorem WellShaped.of_level {left right : Expr} {operator : Token} {level : Level}
    (isInfix : operator.kind.level? = some level) (leftTight : level.rank ≤ left.tightness)
    (rightTight : level.rank < right.tightness) (before : WellShaped left)
    (after : WellShaped right) : WellShaped (.binary left operator right) := by
  rw [← Kind.place_eq_rank isInfix] at leftTight rightTight
  exact .binary ((level?_eq_some_iff operator.kind level).mp isInfix) leftTight rightTight before
    after

theorem unary?_isSome_iff (kind : Kind) :
    kind.unary?.isSome = true ↔ kind = .bang ∨ kind = .minus := by
  cases kind <;> decide

/-- No end mark spells a part of a well-shaped tree. -/
theorem Spells.not_isEof {e : Expr} {word : List Token} (spells : Spells e word)
    (shaped : WellShaped e) : ∀ t ∈ word, t.isEof = false := by
  have differs : ∀ {t : Token} {kind : Kind}, t.kind = kind → kind ≠ .eof → t.isEof = false := by
    intro t kind isKind notEof
    exact decide_eq_false (isKind ▸ notEof)
  induction spells with
  | falseWord kind => exact List.forall_mem_singleton.mpr (differs kind (by decide))
  | trueWord kind => exact List.forall_mem_singleton.mpr (differs kind (by decide))
  | nilWord kind => exact List.forall_mem_singleton.mpr (differs kind (by decide))
  | datum kind =>
      rcases kind with kind | kind <;>
        exact List.forall_mem_singleton.mpr (differs kind (by decide))
  | grouping opens _ closes inductionHypothesis =>
      cases shaped with
      | grouping inside =>
          refine List.forall_mem_cons.mpr ⟨differs opens (by decide), ?_⟩
          refine List.forall_mem_append.mpr ⟨inductionHypothesis inside, ?_⟩
          exact List.forall_mem_singleton.mpr (differs closes (by decide))
  | unary _ inductionHypothesis =>
      cases shaped with
      | unary isPrefix _ inside =>
          refine List.forall_mem_cons.mpr ⟨?_, inductionHypothesis inside⟩
          rcases isPrefix with kind | kind <;> exact differs kind (by decide)
  | @binary left right operator _ _ _ _ leftHypothesis rightHypothesis =>
      cases shaped with
      | binary isInfix _ _ before after =>
          refine List.forall_mem_append.mpr ⟨leftHypothesis before, ?_⟩
          refine List.forall_mem_cons.mpr ⟨?_, rightHypothesis after⟩
          refine differs (rfl : operator.kind = operator.kind) ?_
          intro isEof
          rw [isEof, ← level?_eq_some_iff] at isInfix
          contradiction

end LoxCalc
