import LoxCalc.Proofs.Expr.Failure
import LoxCalc.Proofs.Fresh
import LoxCalc.Proofs.Parse.Acceptance
import LoxCalc.Proofs.Parse.Alike
import LoxCalc.Proofs.Source.Boundary
import LoxCalc.Proofs.Source.Lines
import Mathlib.Algebra.Group.Nat.Defs

/-!
Contract: two texts in parentheses with an operator between them come to the operator
applied to what the two come to.

Owns:
- `BinaryOp.spelling` and `joined`, how the text is put together;
- `Whole`, the texts that are one expression;
- `composed`, what two results and an operator come to;
- `joined_composition`, that the run of the text comes to that, with every line in its place.
-/

set_option autoImplicit false

namespace LoxCalc

open Parse Segment

/-! ## Operators as they are written -/

/-- How an infix operator is written. -/
def BinaryOp.spelling : BinaryOp → String
  | .notEqual => "!="
  | .equal => "=="
  | .greater => ">"
  | .greaterEqual => ">="
  | .less => "<"
  | .lessEqual => "<="
  | .subtract => "-"
  | .add => "+"
  | .divide => "/"
  | .multiply => "*"

/-- The kind of tokens that stand for an infix operator. -/
def BinaryOp.kind : BinaryOp → Kind
  | .notEqual => .bangEqual
  | .equal => .equalEqual
  | .greater => .greater
  | .greaterEqual => .greaterEqual
  | .less => .less
  | .lessEqual => .lessEqual
  | .subtract => .minus
  | .add => .plus
  | .divide => .slash
  | .multiply => .star

@[simp] theorem BinaryOp.binary?_kind (op : BinaryOp) : op.kind.binary? = some op := by
  cases op <;> rfl

theorem BinaryOp.lexeme_spelling (op : BinaryOp) :
    Lexeme (.token op.kind) op.spelling.toList := by
  cases op <;> exact .fixed (by decide)

/-- The token of an infix operator on a line. -/
def BinaryOp.token (op : BinaryOp) (line : UInt32) : Token := ⟨op.kind, op.spelling, none, line⟩

/-! ## Joined texts -/

/-- Two texts in parentheses with an infix operator between them. A line break closes each
of the two, which may end with a comment. -/
def joined (first : String) (op : BinaryOp) (second : String) : String :=
  "(" ++ first ++ "\n) " ++ op.spelling ++ " (" ++ second ++ "\n)"

/-- A text without lexical errors that is one expression up to its end mark. -/
def Whole (source : String) : Prop :=
  (scan source).errors = [] ∧
    ∃ e after, (TokenStream.ofTokens (scan source).tokens).parse = (.ok e, after) ∧
      after.pending = []

/-- The same error a number of lines further down. -/
def EvalError.down (n : UInt32) (e : EvalError) : EvalError :=
  { e with operator := e.operator.down n }

/-- What an operator makes of two results, if the second of them and the operator itself
stand a number of lines further down. The first error counts. -/
def composed (down : UInt32) (op : BinaryOp) (first second : Except EvalError Value) :
    Except EvalError Value :=
  match first with
  | .error e => .error e
  | .ok left =>
      match second with
      | .error e => .error (e.down down)
      | .ok right =>
          match op.apply left right with
          | .ok value => .ok value
          | .error fault => .error ⟨op.token (1 + down), fault⟩

/-! ## Enclosed texts -/

/-- A text in parentheses, with a line break in front of the closing one. -/
def enclosed (text : List Char) : List Char := '(' :: (text ++ ['\n', ')'])

@[simp] theorem toList_joined (first : String) (op : BinaryOp) (second : String) :
    (joined first op second).toList =
      enclosed first.toList ++ ' ' :: (op.spelling.toList ++ ' ' :: enclosed second.toList) := by
  simp [joined, enclosed]

/-- The segments of an enclosed text. -/
def enclosedSegments (text : List Char) : List Segment :=
  ⟨.token .leftParen, ['(']⟩ ::
    (segments text ++ [⟨.blank, ['\n']⟩, ⟨.token .rightParen, [')']⟩])

/-- A text that leaves no string open is cut in parentheses as it is cut on its own. -/
theorem segments_enclosed {text : List Char}
    (clean : ∀ s ∈ segments text, s.complaint? = none) (behind : List Char) :
    segments (enclosed text ++ behind) = enclosedSegments text ++ segments behind := by
  have ends : ∀ s ∈ segments text, EndedBy '\n' s.cls := by
    intro s member
    refine ⟨?_, fun _ => rfl⟩
    intro isOpen
    have complains := clean s member
    simp only [Segment.complaint?, isOpen] at complains
    contradiction
  have cutsAt := segments_append_blank rfl ends (')' :: behind)
  simp [enclosed, enclosedSegments, cutsAt, symbol?, isBlank]

/-- How many lines an enclosed text is high. -/
def height (text : List Char) : UInt32 := UInt32.ofNat (1 + newlines text)

/-- Tokens between parentheses, of which the second stands a number of lines further
down. -/
def parenthesized (line down : UInt32) (inside : List Token) : List Token :=
  ⟨.leftParen, "(", none, line⟩ :: (inside ++ [⟨.rightParen, ")", none, line + down⟩])

theorem tokensOn_enclosed (text : List Char) (line : UInt32) (rest : List Segment) :
    tokensOn line (enclosedSegments text ++ rest) =
      parenthesized line (height text) (tokensOn line (segments text)) ++
        tokensOn (line + height text) rest := by
  have lineAfter : line + UInt32.ofNat (newlines text) + 1 = line + height text := by
    rw [UInt32.add_assoc, height, Nat.add_comm, UInt32.ofNat_add]
    rfl
  simp [enclosedSegments, parenthesized, Segment.token?, Segment.lines, literalOf, lineAfter]

/-! ## Joined texts without errors -/

section

variable {first second : String} (op : BinaryOp)
  (firstClean : ∀ s ∈ segments first.toList, s.complaint? = none)
  (secondClean : ∀ s ∈ segments second.toList, s.complaint? = none)

include firstClean secondClean

/-- Joined texts are cut into the segments of each text in parentheses and those of the
operator between them. -/
theorem segments_joined :
    segments (joined first op second).toList =
      enclosedSegments first.toList ++
        ⟨.blank, [' ']⟩ :: ⟨.token op.kind, op.spelling.toList⟩ :: ⟨.blank, [' ']⟩ ::
          enclosedSegments second.toList := by
  have isBlank : isBlank ' ' = true := rfl
  have ends : EndedBy ' ' (.token op.kind) := ⟨by simp, by simp⟩
  have secondSegments := segments_enclosed secondClean []
  simp only [List.append_nil, segments_nil] at secondSegments
  simp [segments_enclosed firstClean, secondSegments, isBlank,
    segments_lexeme_blank op.lexeme_spelling isBlank ends]

theorem joined_clean :
    ∀ s ∈ segments (joined first op second).toList, s.complaint? = none := by
  have enclosedClean : ∀ {text : List Char}, (∀ s ∈ segments text, s.complaint? = none) →
      ∀ s ∈ enclosedSegments text, s.complaint? = none := by
    intro text clean
    simpa [enclosedSegments, Segment.complaint?, or_imp, forall_and] using clean
  rw [segments_joined op firstClean secondClean, List.forall_mem_append]
  refine ⟨enclosedClean firstClean, ?_⟩
  simpa [Segment.complaint?] using enclosedClean secondClean

/-- The tokens of joined texts are those of each text in parentheses, with the operator
between them; those of the second stand further down. -/
theorem tokensOn_joined :
    tokensOn 1 (segments (joined first op second).toList) =
      parenthesized 1 (height first.toList) (tokensOn 1 (segments first.toList)) ++
        op.token (1 + height first.toList) ::
          parenthesized (1 + height first.toList) (height second.toList)
            ((tokensOn 1 (segments second.toList)).map (Token.down (height first.toList))) := by
  have opOneLine : '\n' ∉ op.spelling.toList := by cases op <;> decide
  have opNoLiteral : literalOf op.kind op.spelling.toList = none := by cases op <;> rfl
  have secondTokens := tokensOn_enclosed second.toList (1 + height first.toList) []
  rw [List.append_nil, tokensOn_add 1 _ (segments second.toList)] at secondTokens
  rw [segments_joined op firstClean secondClean, tokensOn_enclosed]
  simp [Segment.token?, Segment.lines, List.count_eq_zero.mpr opOneLine, opNoLiteral,
    secondTokens, BinaryOp.token]

end

/-! ## Reading -/

/-- A text is read up to its end mark exactly if all of its tokens are taken. -/
theorem read_tokensOn_iff (source : String) (e : Expr) :
    State.start.read (tokensOn 1 (segments source.toList)) = (.ok e, []) ↔
      ∃ after, (TokenStream.ofTokens (scan source).tokens).parse = (.ok e, after) ∧
        after.pending = [] := by
  obtain ⟨mark, isStream⟩ := ofTokens_scan source
  rw [isStream]
  constructor
  · intro reads
    exact ⟨⟨[], mark⟩, (parse_eq_ok_iff _ _ e).mpr ⟨reads, rfl⟩, rfl⟩
  · intro isParsed
    rcases isParsed with ⟨after, parses, atEnd⟩
    have reads := ((parse_eq_ok_iff _ _ e).mp parses).1
    rwa [atEnd] at reads

/-- Tokens further down are read as a tree that comes to the same, further down. -/
theorem read_down (n : UInt32) {tokens : List Token} {e : Expr}
    (reads : State.start.read tokens = (.ok e, [])) :
    ∃ lower, State.start.read (tokens.map (Token.down n)) = (.ok lower, []) ∧
      lower.eval = e.eval.mapError (EvalError.down n) := by
  have meaning : Meaning fun t u => u = t.down n :=
    ⟨fun isLower => by rw [isLower]; rfl, fun isLower => by rw [isLower]; rfl⟩
  have related : List.Forall₂ (fun t u => u = t.down n) tokens (tokens.map (Token.down n)) :=
    List.forall₂_map_right_iff.mpr (List.forall₂_same.mpr fun _ _ => rfl)
  have start : State.Alike (fun t u => u = t.down n) .start .start := .awaiting .nil
  obtain ⟨trees, rests⟩ := read_alike meaning related start
  rw [reads] at trees rests
  obtain ⟨lower, isLower, alike⟩ := trees.exists_ok
  refine ⟨lower, Prod.ext isLower (List.forall₂_nil_left_iff.mp rests), ?_⟩
  have results := eval_alike meaning alike
  generalize e.eval = result, lower.eval = lowerResult at results
  cases results with
  | ok same => rw [same]; rfl
  | @error fault lowerFault related =>
      obtain ⟨operator, kind⟩ := lowerFault
      obtain ⟨rfl, rfl⟩ := related
      rfl

/-- Two expressions in parentheses with an infix operator between them are read as the
tree of the operator over the two. -/
theorem read_joined {line down lower further : UInt32} {operator : Token} {level : Level}
    (isInfix : operator.kind.level? = some level) {first second : List Token} {left right : Expr}
    (readsFirst : State.start.read first = (.ok left, []))
    (readsSecond : State.start.read second = (.ok right, [])) :
    State.start.read
        (parenthesized line down first ++ operator :: parenthesized lower further second) =
      (.ok (.binary (.grouping left) operator (.grouping right)), []) := by
  obtain ⟨word, isFirst, spellsFirst, shapedFirst, _⟩ := read_start_sound readsFirst
  obtain ⟨secondWord, isSecond, spellsSecond, shapedSecond, _⟩ := read_start_sound readsSecond
  rw [List.append_nil] at isFirst isSecond
  subst isFirst isSecond
  have spells : Spells (.binary (.grouping left) operator (.grouping right))
      (parenthesized line down first ++ operator :: parenthesized lower further second) :=
    .binary (.grouping rfl spellsFirst rfl) (.grouping rfl spellsSecond rfl)
  have below := level.rank_lt
  have leftTight : level.rank ≤ (Expr.grouping left).tightness := by
    simp only [Expr.tightness]
    omega
  have rightTight : level.rank < (Expr.grouping right).tightness := by
    simp only [Expr.tightness]
    omega
  have shaped : WellShaped (.binary (.grouping left) operator (.grouping right)) :=
    .of_level isInfix leftTight rightTight (.grouping shapedFirst) (.grouping shapedSecond)
  have reads := @read_start_complete _ _ [] spells shaped (by simp)
  rwa [List.append_nil] at reads

/-! ## Evaluation -/

theorem eval_joined (down : UInt32) (op : BinaryOp) {left right lower : Expr}
    (isLower : lower.eval = right.eval.mapError (EvalError.down down)) :
    (Expr.binary (.grouping left) (op.token (1 + down)) (.grouping lower)).eval =
      composed down op left.eval right.eval := by
  simp only [Expr.eval, composed, isLower, Token.applyBinary, BinaryOp.token, op.binary?_kind]
  cases left.eval with
  | error e => rfl
  | ok value =>
      cases right.eval with
      | error e => rfl
      | ok other => rfl

/-! ## All together -/

theorem newlines_joined (first : String) (op : BinaryOp) (second : String) :
    newlines (joined first op second).toList =
      2 + newlines first.toList + newlines second.toList := by
  have oneLine : op.spelling.toList.count '\n' = 0 := by cases op <;> rfl
  simp [enclosed, newlines, oneLine]
  omega

/-- How the run of two joined texts depends on what the two come to. -/
structure Composition (first : String) (op : BinaryOp) (second : String)
    (left right : Except EvalError Value) : Prop where
  /-- Joined texts can be joined again. -/
  whole : Whole (joined first op second)
  endsFirst : Ends first left
  endsSecond : Ends second right
  endsJoined : Ends (joined first op second) (composed (height first.toList) op left right)
  /-- An error of the second text is as much further down as the text begins further down. -/
  lineOfSecond : ∀ e, right = .error e →
    (e.down (height first.toList)).operator.line.toNat =
      e.operator.line.toNat + (1 + newlines first.toList)
  lineOfOperator :
    (op.token (1 + height first.toList)).line.toNat = 2 + newlines first.toList
  /-- The operator itself fails at its operands only. -/
  faultOfOperator : ∀ v w fault, op.apply v w = .error fault → fault ≠ .unsupportedOperator

/-- An error stands on a line of the text. -/
theorem exists_line_of_eval_error {source : String} {e : Expr} {err : EvalError}
    (reads : State.start.read (tokensOn 1 (segments source.toList)) = (.ok e, []))
    (fails : e.eval = .error err) :
    ∃ n ≤ newlines source.toList, err.operator.line = 1 + UInt32.ofNat n := by
  obtain ⟨word, isWord, spells, _⟩ := read_start_sound reads
  have member := spells.operator_mem fails
  rw [← List.append_nil word, ← isWord] at member
  exact line_le_of_mem_tokensOn member

/-- **Joined texts come to the operator applied to what the two come to**: the first error
of the two counts, with the lines of the second moved down, and without one the operator
yields a value or fails on its own line. -/
theorem joined_composition (first : String) (op : BinaryOp) (second : String)
    (firstWhole : Whole first) (secondWhole : Whole second)
    (fits : newlines (joined first op second).toList < 2 ^ 32 - 1) :
    ∃ left right, Composition first op second left right := by
  obtain ⟨firstErrors, left, leftParses⟩ := firstWhole
  obtain ⟨secondErrors, right, rightParses⟩ := secondWhole
  have readsFirst := (read_tokensOn_iff first left).mpr leftParses
  have readsSecond := (read_tokensOn_iff second right).mpr rightParses
  have firstClean := (scan_errors_eq_nil_iff first).mp firstErrors
  have secondClean := (scan_errors_eq_nil_iff second).mp secondErrors
  have clean : (scan (joined first op second)).errors = [] :=
    (scan_errors_eq_nil_iff _).mpr (joined_clean op firstClean secondClean)
  obtain ⟨lower, readsLower, isLower⟩ := read_down (height first.toList) readsSecond
  have isInfix : op.kind.level? = some op.level := by
    simp [Kind.level?]
  have reads : State.start.read
      (tokensOn 1 (segments (joined first op second).toList)) =
        (.ok (.binary (.grouping left) (op.token (1 + height first.toList)) (.grouping lower)),
          []) := by
    rw [tokensOn_joined op firstClean secondClean]
    exact read_joined isInfix readsFirst readsLower
  have ends := ends_eval clean (parseScan_of_read reads)
  rw [eval_joined _ op isLower] at ends
  rw [newlines_joined] at fits
  refine ⟨left.eval, right.eval, ?_⟩
  exact {
    whole := ⟨clean, _, (read_tokensOn_iff _ _).mp reads⟩
    endsFirst := ends_eval firstErrors (parseScan_of_read readsFirst)
    endsSecond := ends_eval secondErrors (parseScan_of_read readsSecond)
    endsJoined := ends
    lineOfSecond := by
      intro e fails
      obtain ⟨n, atMost, isLine⟩ := exists_line_of_eval_error readsSecond fails
      have isSum : (e.down (height first.toList)).operator.line =
          1 + UInt32.ofNat (n + (1 + newlines first.toList)) := by
        rw [UInt32.ofNat_add, ← UInt32.add_assoc, ← isLine]
        rfl
      rw [isSum, isLine, toNat_line (by omega), toNat_line (by omega)]
      omega
    lineOfOperator := by
      have isLine : (op.token (1 + height first.toList)).line =
          1 + UInt32.ofNat (1 + newlines first.toList) := rfl
      rw [isLine, toNat_line (by omega)]
      omega
    faultOfOperator := by
      intro v w fault fails unsupported
      exact op.apply_ne_unsupported v w (unsupported ▸ fails) }

/-- Three sums of a text that ends with a comment and one on a second line: the second text
fails; both have numbers; both have values that cannot be added, which fails in front of the
second text. -/
theorem joined_composition_sum :
    (Whole "nil // one" ∧ Whole "\n-true" ∧
        newlines (joined "nil // one" .add "\n-true").toList < 2 ^ 32 - 1 ∧
        ∃ left right, Composition "nil // one" .add "\n-true" left right) ∧
      (Whole "1 // one" ∧ Whole "\n2" ∧
        newlines (joined "1 // one" .add "\n2").toList < 2 ^ 32 - 1 ∧
        Composition "1 // one" .add "\n2" (.ok (.number 1)) (.ok (.number 2)) ∧
        Ends (joined "1 // one" .add "\n2") (.ok (.number 3))) ∧
      Whole "nil // one" ∧ Whole "\n2" ∧
        newlines (joined "nil // one" .add "\n2").toList < 2 ^ 32 - 1 ∧
        Composition "nil // one" .add "\n2" (.ok .nil) (.ok (.number 2)) ∧
        Ends (joined "nil // one" .add "\n2")
          (.error ⟨⟨.plus, "+", none, 2⟩, .operandsNotAddable⟩) := by
  have nothing : Whole "nil // one" :=
    ⟨by decide +kernel, .literal .nil, ⟨[], .eof 1⟩, by decide +kernel, rfl⟩
  have negated : Whole "\n-true" :=
    ⟨by decide +kernel, .unary ⟨.minus, "-", none, 2⟩ (.literal (.bool true)), ⟨[], .eof 2⟩,
      by decide +kernel, rfl⟩
  have one : Whole "1 // one" :=
    ⟨by decide +kernel, .literal (.number 1), ⟨[], .eof 1⟩, by decide +kernel, rfl⟩
  have two : Whole "\n2" :=
    ⟨by decide +kernel, .literal (.number 2), ⟨[], .eof 2⟩, by decide +kernel, rfl⟩
  have isNothing : (Run.fresh "nil // one").value? = some .nil := by decide +kernel
  have isOne : (Run.fresh "1 // one").value? = some (.number 1) := by decide +kernel
  have isTwo : (Run.fresh "\n2").value? = some (.number 2) := by decide +kernel
  have sum : composed (height "1 // one".toList) .add (.ok (.number 1)) (.ok (.number 2)) =
      .ok (.number 3) := by decide +kernel
  have noSum : composed (height "nil // one".toList) .add (.ok .nil) (.ok (.number 2)) =
      .error ⟨⟨.plus, "+", none, 2⟩, .operandsNotAddable⟩ := by decide +kernel
  have negatedFits : newlines (joined "nil // one" .add "\n-true").toList < 2 ^ 32 - 1 := by
    decide +kernel
  have sumFits : newlines (joined "1 // one" .add "\n2").toList < 2 ^ 32 - 1 := by decide +kernel
  have noSumFits : newlines (joined "nil // one" .add "\n2").toList < 2 ^ 32 - 1 := by
    decide +kernel
  refine ⟨⟨nothing, negated, negatedFits, joined_composition _ _ _ nothing negated negatedFits⟩,
    ⟨one, two, sumFits, ?_⟩, nothing, two, noSumFits, ?_⟩
  · obtain ⟨left, right, composition⟩ := joined_composition _ .add _ one two sumFits
    obtain rfl := composition.endsFirst.eq_ok isOne
    obtain rfl := composition.endsSecond.eq_ok isTwo
    exact ⟨composition, sum ▸ composition.endsJoined⟩
  · obtain ⟨left, right, composition⟩ := joined_composition _ .add _ nothing two noSumFits
    obtain rfl := composition.endsFirst.eq_ok isNothing
    obtain rfl := composition.endsSecond.eq_ok isTwo
    exact ⟨composition, noSum ▸ composition.endsJoined⟩

end LoxCalc
