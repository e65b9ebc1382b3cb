import LoxCalc.Proofs.Parse.Shape

/-!
Contract: the grammar of expressions as a set of token kinds in a row.

Owns:
- `Form`, the right-hand sides of rules, with `Derives` as their meaning;
- `grammar`, the rules themselves, from loose to tight;
- `derives_expression_iff`, that the grammar derives exactly the spellings of
  well-shaped trees.

The grammar has no trees in it: a chain of operators of one level is a plain
repetition, and that it groups to the left is a matter of the trees.
-/

set_option autoImplicit false

namespace LoxCalc.Grammar

/-! ## Rules -/

inductive Rule where
  | expression
  | equality
  | comparison
  | term
  | factor
  | unary
  | primary
deriving DecidableEq, Repr

/-- The right-hand sides of rules. -/
inductive Form where
  | anyOf (kinds : List Kind)
  | rule (name : Rule)
  | seq (first second : Form)
  | either (left right : Form)
  | many (body : Form)

/-- `operand ( operator operand )*` -/
def Form.chain (operand : Rule) (operators : List Kind) : Form :=
  .seq (.rule operand) (.many (.seq (.anyOf operators) (.rule operand)))

def grammar : Rule → Form
  | .expression => .rule .equality
  | .equality => .chain .comparison [.bangEqual, .equalEqual]
  | .comparison => .chain .term [.greater, .greaterEqual, .less, .lessEqual]
  | .term => .chain .factor [.minus, .plus]
  | .factor => .chain .unary [.slash, .star]
  | .unary => .either (.seq (.anyOf [.bang, .minus]) (.rule .unary)) (.rule .primary)
  | .primary =>
      .either (.anyOf [.number, .string, .kwTrue, .kwFalse, .kwNil])
        (.seq (.anyOf [.leftParen]) (.seq (.rule .expression) (.anyOf [.rightParen])))

/-- The kinds in a row that a form stands for. -/
inductive Derives : Form → List Kind → Prop where
  | anyOf {kinds : List Kind} {kind : Kind} (listed : kind ∈ kinds) :
      Derives (.anyOf kinds) [kind]
  | rule {name : Rule} {word : List Kind} (body : Derives (grammar name) word) :
      Derives (.rule name) word
  | seq {first second : Form} {word rest : List Kind} (before : Derives first word)
      (after : Derives second rest) : Derives (.seq first second) (word ++ rest)
  | left {left right : Form} {word : List Kind} (body : Derives left word) :
      Derives (.either left right) word
  | right {left right : Form} {word : List Kind} (body : Derives right word) :
      Derives (.either left right) word
  | none {body : Form} : Derives (.many body) []
  | more {body : Form} {word rest : List Kind} (once : Derives body word)
      (again : Derives (.many body) rest) : Derives (.many body) (word ++ rest)

/-! ## Levels as rules -/

def Rule.ofLevel : Level → Rule
  | .equality => .equality
  | .comparison => .comparison
  | .term => .term
  | .factor => .factor

def Rule.operandOf : Level → Rule
  | .equality => .comparison
  | .comparison => .term
  | .term => .factor
  | .factor => .unary

theorem grammar_ofLevel (level : Level) :
    grammar (.ofLevel level) = .chain (.operandOf level) (operatorsOf level) := by
  cases level <;> rfl

def infixKinds : List Kind :=
  [.bangEqual, .equalEqual, .greater, .greaterEqual, .less, .lessEqual, .minus, .plus,
    .slash, .star]

theorem mem_infixKinds {kind : Kind} {level : Level} (isInfix : kind ∈ operatorsOf level) :
    kind ∈ infixKinds := by
  have listed : ∀ level : Level, ∀ kind ∈ operatorsOf level, kind ∈ infixKinds := by
    intro level
    cases level <;> decide
  exact listed level kind isInfix

theorem level?_eq_none_iff (kind : Kind) : kind.level? = none ↔ kind ∉ infixKinds := by
  cases kind <;> decide

/-- The least tightness of a tree that a rule may stand for. -/
def Rule.tightness : Rule → Nat
  | .expression => 0
  | .equality => 0
  | .comparison => 1
  | .term => 2
  | .factor => 3
  | .unary => 4
  | .primary => 5

theorem Rule.tightness_ofLevel (level : Level) : (ofLevel level).tightness = level.rank := by
  cases level <;> rfl

theorem Rule.tightness_operandOf (level : Level) :
    (operandOf level).tightness = level.rank + 1 := by
  cases level <;> rfl

/-! ## From derivations to trees -/

/-- What a form says about tokens: a rule stands for a tree that is tight enough. -/
def Builds : Form → List Token → Prop
  | .anyOf kinds, word => ∃ t, word = [t] ∧ t.kind ∈ kinds
  | .rule name, word => ∃ e, WellShaped e ∧ Spells e word ∧ name.tightness ≤ e.tightness
  | .seq first second, word => ∃ before after, word = before ++ after ∧
      Builds first before ∧ Builds second after
  | .either left right, word => Builds left word ∨ Builds right word
  | .many body, word => ∃ words : List (List Token), word = words.flatten ∧
      ∀ w ∈ words, Builds body w

/-- A chain of operators of one level groups to the left: every further operator takes
the tree so far as its left operand. -/
theorem builds_links {level : Level} {words : List (List Token)} :
    ∀ {left : Expr} {leftWord : List Token}, WellShaped left → Spells left leftWord →
      level.rank ≤ left.tightness →
      (∀ w ∈ words, Builds (.seq (.anyOf (operatorsOf level)) (.rule (.operandOf level))) w) →
      ∃ e, WellShaped e ∧ Spells e (leftWord ++ words.flatten) ∧ level.rank ≤ e.tightness := by
  induction words with
  | nil =>
      intro left leftWord shaped spells tight _
      refine ⟨left, shaped, ?_, tight⟩
      rwa [List.flatten_nil, List.append_nil]
  | cons w words inductionHypothesis =>
      intro left leftWord shaped spells tight links
      obtain ⟨first, others⟩ := List.forall_mem_cons.mp links
      obtain ⟨_, rightWord, rfl, ⟨operator, rfl, listed⟩, right, rightShaped, rightSpells,
        rightTight⟩ := first
      have isInfix := (level?_eq_some_iff operator.kind level).mpr listed
      rw [Rule.tightness_operandOf] at rightTight
      have whole := inductionHypothesis (.of_level isInfix tight rightTight shaped rightShaped)
        (.binary spells rightSpells)
        (Nat.le_of_eq (Expr.tightness_binary left right isInfix).symm) others
      simpa using whole

theorem builds_chain (level : Level) {word : List Token}
    (chain : Builds (.chain (.operandOf level) (operatorsOf level)) word) :
    Builds (.rule (.ofLevel level)) word := by
  obtain ⟨_, _, rfl, ⟨left, shaped, spells, tight⟩, words, rfl, links⟩ := chain
  rw [Rule.tightness_operandOf] at tight
  obtain ⟨e, wholeShaped, wholeSpells, wholeTight⟩ :=
    builds_links shaped spells (by omega) links
  exact ⟨e, wholeShaped, wholeSpells, by rw [Rule.tightness_ofLevel]; exact wholeTight⟩

theorem builds_unary {word : List Token} (body : Builds (grammar .unary) word) :
    Builds (.rule .unary) word := by
  rcases body with ⟨_, operandWord, rfl, ⟨operator, rfl, listed⟩, operand, shaped, spells, tight⟩ |
    ⟨e, shaped, spells, tight⟩
  · have isPrefix : operator.kind = .bang ∨ operator.kind = .minus := by simpa using listed
    exact ⟨.unary operator operand, .unary isPrefix tight shaped, .unary spells, Nat.le_refl 4⟩
  · exact ⟨e, shaped, spells, Nat.le_of_succ_le tight⟩

theorem builds_primary {word : List Token} (body : Builds (grammar .primary) word) :
    Builds (.rule .primary) word := by
  rcases body with ⟨t, rfl, listed⟩ |
    ⟨_, _, rfl, ⟨opening, rfl, opens⟩, _, _, rfl, ⟨inner, shaped, spells, _⟩, closing, rfl, closes⟩
  · have isLiteral : ∃ value, Spells (.literal value) [t] := by
      simp only [List.mem_cons, List.not_mem_nil, or_false] at listed
      rcases listed with kind | kind | kind | kind | kind
      · exact ⟨_, .datum (.inl kind)⟩
      · exact ⟨_, .datum (.inr kind)⟩
      · exact ⟨_, .trueWord kind⟩
      · exact ⟨_, .falseWord kind⟩
      · exact ⟨_, .nilWord kind⟩
    obtain ⟨value, spells⟩ := isLiteral
    exact ⟨.literal value, .literal value, spells, Nat.le_refl 5⟩
  · exact ⟨.grouping inner, .grouping shaped,
      .grouping (List.mem_singleton.mp opens) spells (List.mem_singleton.mp closes),
      Nat.le_refl 5⟩

theorem builds_rule {name : Rule} {word : List Token} (body : Builds (grammar name) word) :
    Builds (.rule name) word := by
  cases name with
  | expression => exact body
  | equality => exact builds_chain .equality body
  | comparison => exact builds_chain .comparison body
  | term => exact builds_chain .term body
  | factor => exact builds_chain .factor body
  | unary => exact builds_unary body
  | primary => exact builds_primary body

theorem Derives.builds {form : Form} {kinds : List Kind} (derives : Derives form kinds) :
    ∀ word : List Token, word.map Token.kind = kinds → Builds form word := by
  induction derives with
  | anyOf listed =>
      intro word sameKinds
      obtain ⟨t, rfl, rfl⟩ := List.map_eq_singleton_iff.mp sameKinds
      exact ⟨t, rfl, listed⟩
  | rule _ inductionHypothesis =>
      intro word sameKinds
      exact builds_rule (inductionHypothesis word sameKinds)
  | seq _ _ beforeIH afterIH =>
      intro word sameKinds
      obtain ⟨before, after, rfl, sameBefore, sameAfter⟩ := List.map_eq_append_iff.mp sameKinds
      exact ⟨before, after, rfl, beforeIH before sameBefore, afterIH after sameAfter⟩
  | left _ inductionHypothesis =>
      intro word sameKinds
      exact .inl (inductionHypothesis word sameKinds)
  | right _ inductionHypothesis =>
      intro word sameKinds
      exact .inr (inductionHypothesis word sameKinds)
  | none =>
      intro word sameKinds
      obtain rfl := List.map_eq_nil_iff.mp sameKinds
      exact ⟨[], rfl, by simp⟩
  | more _ _ onceIH againIH =>
      intro word sameKinds
      obtain ⟨once, again, rfl, sameOnce, sameAgain⟩ := List.map_eq_append_iff.mp sameKinds
      obtain ⟨words, rfl, others⟩ := againIH again sameAgain
      exact ⟨once :: words, rfl, List.forall_mem_cons.mpr ⟨onceIH once sameOnce, others⟩⟩

/-! ## From trees to derivations -/

theorem Derives.many_snoc {body : Form} {word last : List Kind}
    (chain : Derives (.many body) word) (once : Derives body last) :
    Derives (.many body) (word ++ last) := by
  generalize isMany : Form.many body = form at chain
  induction chain with
  | none =>
      cases isMany
      rw [List.nil_append, ← List.append_nil last]
      exact .more once .none
  | more first _ _ inductionHypothesis =>
      cases isMany
      rw [List.append_assoc]
      exact .more first (inductionHypothesis rfl)
  | anyOf _ => contradiction
  | rule _ => contradiction
  | seq _ _ => contradiction
  | left _ => contradiction
  | right _ => contradiction

theorem Derives.unary_of_primary {word : List Kind} (operand : Derives (.rule .primary) word) :
    Derives (.rule .unary) word :=
  .rule (.right operand)

theorem Derives.ofLevel_of_operandOf (level : Level) {word : List Kind}
    (operand : Derives (.rule (.operandOf level)) word) :
    Derives (.rule (.ofLevel level)) word := by
  refine .rule ?_
  rw [grammar_ofLevel, ← List.append_nil word]
  exact .seq operand .none

theorem Derives.link {level : Level} {leftWord rightWord : List Kind} {operator : Kind}
    (before : Derives (.rule (.ofLevel level)) leftWord) (listed : operator ∈ operatorsOf level)
    (after : Derives (.rule (.operandOf level)) rightWord) :
    Derives (.rule (.ofLevel level)) (leftWord ++ operator :: rightWord) := by
  refine .rule ?_
  cases before with
  | rule body =>
      rw [grammar_ofLevel] at body ⊢
      cases body with
      | seq first links =>
          rw [List.append_assoc]
          exact .seq first (links.many_snoc (.seq (.anyOf listed) after))

/-- What a rule derives is derived by every rule that asks for less tightness. -/
theorem Derives.loosen {tight loose : Rule} {word : List Kind}
    (derives : Derives (.rule tight) word) (proper : tight ≠ .expression)
    (atMost : loose.tightness ≤ tight.tightness) : Derives (.rule loose) word := by
  have toUnary : Derives (.rule .primary) word → Derives (.rule .unary) word :=
    Derives.unary_of_primary
  have toFactor : Derives (.rule .unary) word → Derives (.rule .factor) word :=
    ofLevel_of_operandOf .factor
  have toTerm : Derives (.rule .factor) word → Derives (.rule .term) word :=
    ofLevel_of_operandOf .term
  have toComparison : Derives (.rule .term) word → Derives (.rule .comparison) word :=
    ofLevel_of_operandOf .comparison
  have toEquality : Derives (.rule .comparison) word → Derives (.rule .equality) word :=
    ofLevel_of_operandOf .equality
  have toExpression : Derives (.rule .equality) word → Derives (.rule .expression) word :=
    fun body => .rule (show Derives (grammar .expression) word from body)
  cases loose <;> cases tight <;>
    first | exact absurd rfl proper | exact absurd atMost (by decide) | simp_all

/-- The spelling of a well-shaped tree is derived by every rule that the tree is tight
enough for. -/
theorem derives_of_spells {e : Expr} {word : List Token} (shaped : WellShaped e)
    (spells : Spells e word) :
    ∀ name : Rule, name.tightness ≤ e.tightness →
      Derives (.rule name) (word.map Token.kind) := by
  induction shaped generalizing word with
  | literal value =>
      intro name atMost
      have listed : ∃ t, word = [t] ∧
          t.kind ∈ [Kind.number, .string, .kwTrue, .kwFalse, .kwNil] := by
        cases spells with
        | @falseWord t kind => exact ⟨t, rfl, by simp [kind]⟩
        | @trueWord t kind => exact ⟨t, rfl, by simp [kind]⟩
        | @nilWord t kind => exact ⟨t, rfl, by simp [kind]⟩
        | @datum t kind => exact ⟨t, rfl, by rcases kind with kind | kind <;> simp [kind]⟩
      obtain ⟨t, rfl, listed⟩ := listed
      have own : Derives (.rule .primary) [t.kind] := .rule (.left (.anyOf listed))
      exact own.loosen (by decide) atMost
  | grouping _ inductionHypothesis =>
      intro name atMost
      cases spells with
      | @grouping _ opening closing word opens inside closes =>
          have innerWord := inductionHypothesis inside .expression (Nat.zero_le _)
          have own : Derives (.rule .primary)
              ([opening.kind] ++ (word.map Token.kind ++ [closing.kind])) :=
            .rule (.right (.seq (.anyOf (List.mem_singleton.mpr opens))
              (.seq innerWord (.anyOf (List.mem_singleton.mpr closes)))))
          have loosened := own.loosen (by decide) atMost
          simpa using loosened
  | @unary operator operand isPrefix tight _ inductionHypothesis =>
      intro name atMost
      cases spells with
      | @unary _ _ word inside =>
          have operandWord := inductionHypothesis inside .unary tight
          have listed : operator.kind ∈ [Kind.bang, .minus] := by simpa using isPrefix
          have own : Derives (.rule .unary) ([operator.kind] ++ word.map Token.kind) :=
            .rule (.left (.seq (.anyOf listed) operandWord))
          exact own.loosen (by decide) atMost
  | @binary left right operator level isInfix leftTight rightTight _ _ leftIH rightIH =>
      intro name atMost
      have isLevel := (level?_eq_some_iff operator.kind level).mpr isInfix
      rw [Kind.place_eq_rank isLevel] at leftTight rightTight
      rw [Expr.tightness_binary left right isLevel] at atMost
      cases spells with
      | @binary _ _ _ leftWord rightWord before after =>
          have leftDerives := leftIH before (.ofLevel level)
            (by rw [Rule.tightness_ofLevel]; exact leftTight)
          have rightDerives := rightIH after (.operandOf level)
            (by rw [Rule.tightness_operandOf]; exact rightTight)
          have own := leftDerives.link isInfix rightDerives
          rw [List.map_append, List.map_cons]
          refine own.loosen (by cases level <;> decide) ?_
          rwa [Rule.tightness_ofLevel]

/-- **The grammar derives exactly the spellings of well-shaped trees.** -/
theorem derives_expression_iff (word : List Token) :
    Derives (.rule .expression) (word.map Token.kind) ↔
      ∃ e, WellShaped e ∧ Spells e word := by
  constructor
  · intro derives
    obtain ⟨e, shaped, spells, _⟩ := derives.builds word rfl
    exact ⟨e, shaped, spells⟩
  · intro tree
    rcases tree with ⟨e, shaped, spells⟩
    exact derives_of_spells shaped spells .expression (Nat.zero_le _)

end LoxCalc.Grammar
