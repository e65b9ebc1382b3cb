import LoxCalc.Expr.Eval
import LoxCalc.Proofs.Parse.Position
import Mathlib.Data.List.Forall2

/-!
Contract: tokens that mean the same are read and evaluated alike.

Owns:
- `Meaning`, the relations between tokens of one kind and one literal;
- `Expr.Alike`, trees that differ in their operator tokens only, and by related ones;
- `read_alike`, `parse_alike` and `eval_alike`, that alike tokens are read as alike trees,
  with the same fault at related tokens, and that alike trees have the same value, or the
  same fault at related operators;
- `synchronize_alike` and `Reader.after_alike`, that readers of alike tokens stay alike.

Nothing here looks at a lexeme or at a line: a relation may tie tokens of different
lexemes and lines.
-/

set_option autoImplicit false

namespace LoxCalc

open Parse

/-! ## Relations -/

/-- Related tokens have one kind and one literal. -/
structure Meaning (R : Token → Token → Prop) : Prop where
  kind : ∀ {t u : Token}, R t u → t.kind = u.kind
  literal : ∀ {t u : Token}, R t u → t.literal = u.literal

/-- Both results are values, and related, or both are errors, and related. -/
inductive Matching {ε α : Type} (errors : ε → ε → Prop) (values : α → α → Prop) :
    Except ε α → Except ε α → Prop where
  | error {e f : ε} (related : errors e f) : Matching errors values (.error e) (.error f)
  | ok {v w : α} (related : values v w) : Matching errors values (.ok v) (.ok w)

theorem Matching.exists_ok {ε α : Type} {errors : ε → ε → Prop} {values : α → α → Prop} {v : α}
    {result : Except ε α} (matching : Matching errors values (.ok v) result) :
    ∃ w, result = .ok w ∧ values v w := by
  cases matching with
  | ok related => exact ⟨_, rfl, related⟩

/-- Trees that differ in their operator tokens only, and by related ones. -/
inductive Expr.Alike (R : Token → Token → Prop) : Expr → Expr → Prop where
  | literal (value : Value) : Alike R (.literal value) (.literal value)
  | grouping {inner inner' : Expr} (inside : Alike R inner inner') :
      Alike R (.grouping inner) (.grouping inner')
  | unary {t u : Token} {operand operand' : Expr} (operator : R t u)
      (inside : Alike R operand operand') : Alike R (.unary t operand) (.unary u operand')
  | binary {t u : Token} {left left' right right' : Expr} (before : Alike R left left')
      (operator : R t u) (after : Alike R right right') :
      Alike R (.binary left t right) (.binary left' u right')

/-- Open constructs that differ by related tokens. -/
inductive Parse.Frame.Alike (R : Token → Token → Prop) : Frame → Frame → Prop where
  | group : Alike R .group .group
  | unary {t u : Token} (operator : R t u) : Alike R (.unary t) (.unary u)
  | binary {t u : Token} {left left' : Expr} {level : Level} (before : Expr.Alike R left left')
      (operator : R t u) : Alike R (.binary left t level) (.binary left' u level)

inductive Parse.State.Alike (R : Token → Token → Prop) : State → State → Prop where
  | awaiting {frames frames' : List Frame} (around : List.Forall₂ (Frame.Alike R) frames frames') :
      Alike R (.awaiting frames) (.awaiting frames')
  | holding {frames frames' : List Frame} {operand operand' : Expr}
      (around : List.Forall₂ (Frame.Alike R) frames frames')
      (held : Expr.Alike R operand operand') :
      Alike R (.holding frames operand) (.holding frames' operand')

namespace Parse

variable {R : Token → Token → Prop}

/-! ## Closing frames -/

theorem closeUnary_alike {frames frames' : List Frame}
    (around : List.Forall₂ (Frame.Alike R) frames frames') :
    ∀ {operand operand' : Expr}, Expr.Alike R operand operand' →
      State.Alike R (closeUnary frames operand) (closeUnary frames' operand') := by
  induction around with
  | nil =>
      intro operand operand' held
      exact .holding .nil held
  | cons first others inductionHypothesis =>
      intro operand operand' held
      cases first with
      | group => exact .holding (.cons .group others) held
      | unary operator => exact inductionHypothesis (.unary operator held)
      | binary before operator => exact .holding (.cons (.binary before operator) others) held

theorem closeBinary_alike (level : Level) {frames frames' : List Frame}
    (around : List.Forall₂ (Frame.Alike R) frames frames') :
    ∀ {operand operand' : Expr}, Expr.Alike R operand operand' →
      List.Forall₂ (Frame.Alike R) (closeBinary level frames operand).1
          (closeBinary level frames' operand').1 ∧
        Expr.Alike R (closeBinary level frames operand).2
          (closeBinary level frames' operand').2 := by
  induction around with
  | nil =>
      intro operand operand' held
      exact ⟨.nil, held⟩
  | cons first others inductionHypothesis =>
      intro operand operand' held
      cases first with
      | group => exact ⟨.cons .group others, held⟩
      | unary operator => exact ⟨.cons (.unary operator) others, held⟩
      | @binary t u left left' own before operator =>
          by_cases closes : level.rank ≤ own.rank
          · simp only [closeBinary, if_pos closes]
            exact inductionHypothesis (.binary before operator held)
          · simp only [closeBinary, if_neg closes]
            exact ⟨.cons (.binary before operator) others, held⟩

/-! ## Reading -/

theorem operandValue?_alike (meaning : Meaning R) {t u : Token} (related : R t u) :
    operandValue? t = operandValue? u := by
  rw [operandValue?, operandValue?, meaning.kind related, meaning.literal related]

/-- Alike states take the same tokens, and stay alike. -/
theorem step_alike (meaning : Meaning R) {s s' : State} {t u : Token}
    (alike : State.Alike R s s') (related : R t u) :
    (s.step t = none ∧ s'.step u = none) ∨
      ∃ next next', s.step t = some next ∧ s'.step u = some next' ∧ State.Alike R next next' := by
  have sameKind := meaning.kind related
  cases alike with
  | awaiting around =>
      simp only [State.step, operandValue?_alike meaning related, sameKind]
      split
      · exact .inr ⟨_, _, rfl, rfl, closeUnary_alike around (.literal _)⟩
      split
      · exact .inr ⟨_, _, rfl, rfl, .awaiting (.cons .group around)⟩
      split
      · exact .inr ⟨_, _, rfl, rfl, .awaiting (.cons (.unary related) around)⟩
      · exact .inl ⟨rfl, rfl⟩
  | holding around held =>
      simp only [State.step, sameKind]
      split
      · rename_i level _
        obtain ⟨outer, closed⟩ := closeBinary_alike level around held
        exact .inr ⟨_, _, rfl, rfl, .awaiting (.cons (.binary closed related) outer)⟩
      split
      · obtain ⟨outer, closed⟩ := closeBinary_alike .equality around held
        simp only [closeAll]
        -- The innermost frame that is left says whether the parenthesis is taken.
        generalize closeBinary .equality _ _ = first at outer closed ⊢
        generalize closeBinary .equality _ _ = second at outer closed ⊢
        obtain ⟨frames, inner⟩ := first
        obtain ⟨frames', inner'⟩ := second
        cases outer with
        | nil => exact .inl ⟨rfl, rfl⟩
        | cons innermost others =>
            cases innermost with
            | group => exact .inr ⟨_, _, rfl, rfl, closeUnary_alike others (.grouping closed)⟩
            | unary operator => exact .inl ⟨rfl, rfl⟩
            | binary before operator => exact .inl ⟨rfl, rfl⟩
      · exact .inl ⟨rfl, rfl⟩

theorem finish_alike {s s' : State} (alike : State.Alike R s s') :
    Matching (· = ·) (Expr.Alike R) s.finish s'.finish := by
  cases alike with
  | awaiting around => exact .error rfl
  | holding around held =>
      obtain ⟨outer, closed⟩ := closeBinary_alike .equality around held
      simp only [State.finish, closeAll]
      generalize closeBinary .equality _ _ = first at outer closed ⊢
      generalize closeBinary .equality _ _ = second at outer closed ⊢
      obtain ⟨frames, whole⟩ := first
      obtain ⟨frames', whole'⟩ := second
      cases outer with
      | nil => exact .ok closed
      | cons innermost others => exact .error rfl

/-- **Alike tokens are read alike.** Alike states stop at the same place, with alike trees
or with the same fault. -/
theorem read_alike (meaning : Meaning R) {tokens tokens' : List Token}
    (related : List.Forall₂ R tokens tokens') :
    ∀ {s s' : State}, State.Alike R s s' →
      Matching (· = ·) (Expr.Alike R) (s.read tokens).1 (s'.read tokens').1 ∧
        List.Forall₂ R (s.read tokens).2 (s'.read tokens').2 := by
  induction related with
  | nil =>
      intro s s' alike
      exact ⟨finish_alike alike, .nil⟩
  | cons first others inductionHypothesis =>
      intro s s' alike
      rcases step_alike meaning alike first with
        ⟨refused, refused'⟩ | ⟨next, next', taken, taken', on⟩
      · simp only [State.read, refused, refused']
        exact ⟨finish_alike alike, .cons first others⟩
      · simp only [State.read, taken, taken']
        exact inductionHypothesis on

/-! ## Streams -/

/-- Streams of related tokens. -/
structure TokenStream.Alike (R : Token → Token → Prop) (s s' : TokenStream) : Prop where
  pending : List.Forall₂ R s.pending s'.pending
  finish : R s.finish s'.finish

theorem TokenStream.Alike.current {s s' : TokenStream} (alike : TokenStream.Alike R s s') :
    R s.current s'.current := by
  obtain ⟨pending, finish⟩ := s
  obtain ⟨pending', finish'⟩ := s'
  cases alike.pending with
  | nil => exact alike.finish
  | cons first others => exact first

theorem parse_alike (meaning : Meaning R) {s s' : TokenStream}
    (alike : TokenStream.Alike R s s') :
    Matching (fun e f => R e.token f.token ∧ e.fault = f.fault) (Expr.Alike R)
        s.parse.1 s'.parse.1 ∧
      TokenStream.Alike R s.parse.2 s'.parse.2 := by
  have start : State.Alike R .start .start := .awaiting .nil
  obtain ⟨result, rest⟩ := read_alike meaning alike.pending start
  have after : TokenStream.Alike R s.parse.2 s'.parse.2 := ⟨rest, alike.finish⟩
  have current := after.current
  refine ⟨?_, after⟩
  simp only [TokenStream.parse] at current ⊢
  generalize (State.start.read s.pending).1 = first at result
  generalize (State.start.read s'.pending).1 = second at result
  cases result with
  | error sameFault => exact .error ⟨current, sameFault⟩
  | ok tree => exact .ok tree

theorem resume_alike (meaning : Meaning R) {tokens tokens' : List Token}
    (related : List.Forall₂ R tokens tokens') :
    ∀ {t u : Token}, R t u →
      List.Forall₂ R (TokenStream.resume t tokens) (TokenStream.resume u tokens') := by
  induction related with
  | nil =>
      intro t u previous
      exact .nil
  | cons first others inductionHypothesis =>
      intro t u previous
      simp only [TokenStream.resume, meaning.kind previous, meaning.kind first]
      split
      · exact .cons first others
      · exact inductionHypothesis first

theorem synchronize_alike (meaning : Meaning R) {s s' : TokenStream}
    (alike : TokenStream.Alike R s s') : TokenStream.Alike R s.synchronize s'.synchronize := by
  obtain ⟨pending, finish⟩ := s
  obtain ⟨pending', finish'⟩ := s'
  cases alike.pending with
  | nil => exact alike
  | cons first others => exact ⟨resume_alike meaning others first, alike.finish⟩

/-- Related tokens make alike streams, if the end marks that they may lack are related. -/
theorem ofTokens_alike (meaning : Meaning R) {tokens tokens' : List Token}
    (related : List.Forall₂ R tokens tokens')
    (missing : R (TokenStream.missingEof tokens) (TokenStream.missingEof tokens')) :
    TokenStream.Alike R (.ofTokens tokens) (.ofTokens tokens') := by
  have sameMark : ∀ {t u : Token}, R t u → t.isEof = u.isEof := by
    intro t u pair
    rw [Token.isEof, Token.isEof, meaning.kind pair]
  generalize isMissing : TokenStream.missingEof tokens = mark at missing
  generalize isMissing' : TokenStream.missingEof tokens' = mark' at missing
  simp only [TokenStream.ofTokens, isMissing, isMissing']
  clear isMissing isMissing'
  induction related with
  | nil => exact ⟨.nil, missing⟩
  | @cons t u rest rest' first others inductionHypothesis =>
      cases isMark : t.isEof with
      | true =>
          have isMark' := (sameMark first).symm.trans isMark
          refine ⟨?_, ?_⟩
          · simp [isMark, isMark']
          · simp only [List.find?_cons_of_pos isMark, List.find?_cons_of_pos isMark']
            exact first
      | false =>
          have isMark' := (sameMark first).symm.trans isMark
          refine ⟨?_, ?_⟩
          · simpa [isMark, isMark'] using ⟨first, inductionHypothesis.pending⟩
          · simpa [isMark, isMark'] using inductionHypothesis.finish

/-! ## Readers -/

theorem Reader.move_alike (meaning : Meaning R) {r r' : Reader}
    (alike : TokenStream.Alike R r.stream r'.stream) (m : Move) :
    TokenStream.Alike R (r.move m).2.stream (r'.move m).2.stream := by
  cases m with
  | parse =>
      rw [r.move_parse_stream, r'.move_parse_stream]
      exact (parse_alike meaning alike).2
  | synchronize => exact synchronize_alike meaning alike

/-- Readers of alike streams stay alike. -/
theorem Reader.after_alike (meaning : Meaning R) (moves : List Move) :
    ∀ {r r' : Reader}, TokenStream.Alike R r.stream r'.stream →
      TokenStream.Alike R (r.after moves).stream (r'.after moves).stream := by
  induction moves with
  | nil =>
      intro r r' alike
      exact alike
  | cons m rest inductionHypothesis =>
      intro r r' alike
      exact inductionHypothesis (Reader.move_alike meaning alike m)

end Parse

/-! ## Evaluation -/

variable {R : Token → Token → Prop}

/-- The same fault at related operators. -/
def EvalError.Alike (R : Token → Token → Prop) (e f : EvalError) : Prop :=
  R e.operator f.operator ∧ e.fault = f.fault

theorem applyUnary_alike (meaning : Meaning R) {t u : Token} (related : R t u) (operand : Value) :
    Matching (EvalError.Alike R) (· = ·) (t.applyUnary operand) (u.applyUnary operand) := by
  simp only [Token.applyUnary, meaning.kind related]
  split
  · exact .error ⟨related, rfl⟩
  split
  · exact .ok rfl
  · exact .error ⟨related, rfl⟩

theorem applyBinary_alike (meaning : Meaning R) {t u : Token} (related : R t u)
    (left right : Value) :
    Matching (EvalError.Alike R) (· = ·) (t.applyBinary left right) (u.applyBinary left right) := by
  simp only [Token.applyBinary, meaning.kind related]
  split
  · exact .error ⟨related, rfl⟩
  split
  · exact .ok rfl
  · exact .error ⟨related, rfl⟩

/-- **Alike trees evaluate alike**: to the same value, or to the same fault at related
operators. -/
theorem eval_alike (meaning : Meaning R) {e e' : Expr} (alike : Expr.Alike R e e') :
    Matching (EvalError.Alike R) (· = ·) e.eval e'.eval := by
  induction alike with
  | literal value => exact .ok rfl
  | grouping _ inductionHypothesis => exact inductionHypothesis
  | @unary t u operand operand' operator _ inductionHypothesis =>
      simp only [Expr.eval]
      generalize operand.eval = result, operand'.eval = result' at inductionHypothesis
      cases inductionHypothesis with
      | error related => exact .error related
      | ok same =>
          rw [same]
          exact applyUnary_alike meaning operator _
  | @binary t u left left' right right' _ operator _ leftHypothesis rightHypothesis =>
      simp only [Expr.eval]
      generalize left.eval = first, left'.eval = first' at leftHypothesis
      generalize right.eval = second, right'.eval = second' at rightHypothesis
      cases leftHypothesis with
      | error related => exact .error related
      | ok same =>
          cases rightHypothesis with
          | error related => exact .error related
          | ok alsoSame =>
              rw [same, alsoSame]
              exact applyBinary_alike meaning operator _ _

end LoxCalc
