import LoxCalc.Proofs.Fresh
import LoxCalc.Proofs.Parse.Alike
import LoxCalc.Proofs.Source.Boundary
import LoxCalc.Proofs.Source.Lines

/-!
Contract: the layout of a text does not matter.

Owns:
- `Filler` and `Separator`, what may stand between two words;
- `LaidOut`, the texts that spell a list of tokens with separators between them;
- `SameWord` and `Report.SameButLine`, equality up to lines;
- `laidOut_scan`, that such a text is scanned as those tokens, and comes to the same.
-/

set_option autoImplicit false

namespace LoxCalc

open Segment

/-! ## Layout -/

/-- White space, and comments with the line break that ends them. -/
inductive Filler : List Char → Prop where
  | none : Filler []
  | blank {c : Char} {rest : List Char} (separates : c ∈ [' ', '\r', '\t', '\n'])
      (more : Filler rest) : Filler (c :: rest)
  | comment {body rest : List Char} (oneLine : '\n' ∉ body) (more : Filler rest) :
      Filler ('/' :: '/' :: (body ++ '\n' :: rest))

/-- A filler that begins with white space. -/
inductive Separator : List Char → Prop where
  | blank {c : Char} {rest : List Char} (separates : c ∈ [' ', '\r', '\t', '\n'])
      (more : Filler rest) : Separator (c :: rest)

/-- A text that is the lexemes of tokens in order, with a separator between any two. -/
inductive LaidOut : List Token → List Char → Prop where
  | none : LaidOut [] []
  | last (t : Token) : LaidOut [t] t.lexeme.toList
  | next {t u : Token} {rest : List Token} {gap text : List Char} (separates : Separator gap)
      (others : LaidOut (u :: rest) text) :
      LaidOut (t :: u :: rest) (t.lexeme.toList ++ gap ++ text)

/-! ## Fillers are skipped -/

/-- A segment that is neither a token nor an error. -/
def Segment.Idle (s : Segment) : Prop := s.cls = .blank ∨ s.cls = .comment

theorem Filler.segments_append {gap : List Char} (filler : Filler gap) (behind : List Char) :
    ∃ idle, segments (gap ++ behind) = idle ++ segments behind ∧ ∀ s ∈ idle, s.Idle := by
  induction filler with
  | none => exact ⟨[], rfl, by simp⟩
  | @blank c rest separates _ inductionHypothesis =>
      obtain ⟨idle, cutsAt, areIdle⟩ := inductionHypothesis
      have isBlank : isBlank c = true := (isBlank_iff c).mpr separates
      refine ⟨⟨.blank, [c]⟩ :: idle, ?_, List.forall_mem_cons.mpr ⟨.inl rfl, areIdle⟩⟩
      simp [isBlank, cutsAt]
  | @comment body rest oneLine _ inductionHypothesis =>
      obtain ⟨idle, cutsAt, areIdle⟩ := inductionHypothesis
      have isBlank : isBlank '\n' = true := rfl
      have isComment : Lexeme .comment ('/' :: '/' :: body) := .comment oneLine
      have ends : EndedBy '\n' .comment := ⟨by simp, fun _ => rfl⟩
      refine ⟨⟨.comment, '/' :: '/' :: body⟩ :: ⟨.blank, ['\n']⟩ :: idle, ?_, ?_⟩
      · have whole := segments_lexeme_blank isComment isBlank ends (rest ++ behind)
        simpa [isBlank, cutsAt] using whole
      · refine List.forall_mem_cons.mpr ⟨.inr rfl, List.forall_mem_cons.mpr ⟨.inl rfl, areIdle⟩⟩

/-- A word in front of a separator is cut as that word. -/
theorem segments_word_separator {kind : Kind} {word gap : List Char}
    (lexeme : Lexeme (.token kind) word) (separator : Separator gap) (behind : List Char) :
    ∃ idle, segments (word ++ gap ++ behind) = ⟨.token kind, word⟩ :: (idle ++ segments behind) ∧
      ∀ s ∈ idle, s.Idle := by
  cases separator with
  | @blank c rest separates more =>
      obtain ⟨idle, cutsAt, areIdle⟩ := (Filler.blank separates more).segments_append behind
      have isBlank : isBlank c = true := (isBlank_iff c).mpr separates
      have ends : EndedBy c (.token kind) := ⟨by simp, by simp⟩
      refine ⟨idle, ?_, areIdle⟩
      rw [← cutsAt, List.append_assoc, List.cons_append]
      exact segments_lexeme_blank lexeme isBlank ends (rest ++ behind)

theorem written?_of_idle {idle : List Segment} (areIdle : ∀ s ∈ idle, s.Idle) :
    idle.filterMap Segment.written? = [] ∧ idle.filterMap Segment.complaint? = [] := by
  refine ⟨List.filterMap_eq_nil_iff.mpr ?_, List.filterMap_eq_nil_iff.mpr ?_⟩
  · intro s member
    rcases areIdle s member with isIdle | isIdle <;> simp only [Segment.written?, isIdle]
  · intro s member
    rcases areIdle s member with isIdle | isIdle <;> simp only [Segment.complaint?, isIdle]

/-- A token that is the word it says it is. -/
def Token.Genuine (t : Token) : Prop :=
  Lexeme (.token t.kind) t.lexeme.toList ∧ t.literal = literalOf t.kind t.lexeme.toList

/-- The segments of a laid-out text are its tokens, with nothing to complain about. -/
theorem LaidOut.written_segments {tokens : List Token} {text : List Char}
    (laid : LaidOut tokens text) (genuine : ∀ t ∈ tokens, t.Genuine) :
    (segments text).filterMap Segment.written? =
        tokens.map (fun t => (t.kind, t.lexeme, t.literal)) ∧
      (segments text).filterMap Segment.complaint? = [] := by
  have own : ∀ t : Token, t.Genuine →
      (⟨.token t.kind, t.lexeme.toList⟩ : Segment).written? =
        some (t.kind, t.lexeme, t.literal) := by
    intro t isGenuine
    simp only [Segment.written?, String.ofList_toList, ← isGenuine.2]
  induction laid with
  | none =>
      simp
  | last t =>
      have isGenuine := List.forall_mem_singleton.mp genuine
      rw [segments_lexeme isGenuine.1]
      simp [own t isGenuine, Segment.complaint?]
  | @next t u rest gap text separates others inductionHypothesis =>
      obtain ⟨isGenuine, restGenuine⟩ := List.forall_mem_cons.mp genuine
      obtain ⟨idle, cutsAt, areIdle⟩ := segments_word_separator isGenuine.1 separates text
      obtain ⟨noWords, noComplaints⟩ := written?_of_idle areIdle
      obtain ⟨words, clean⟩ := inductionHypothesis restGenuine
      rw [cutsAt]
      refine ⟨?_, ?_⟩
      · simp [own t isGenuine, noWords, words]
      · rw [List.filterMap_cons_none rfl, List.filterMap_append, noComplaints, clean]
        rfl

/-! ## Up to lines -/

/-- Tokens that differ in their lines at most. -/
def SameWord (t u : Token) : Prop :=
  t.kind = u.kind ∧ t.lexeme = u.lexeme ∧ t.literal = u.literal

theorem meaning_sameWord : Meaning SameWord where
  kind := fun same => same.1
  literal := fun same => same.2.2

/-- Reports that differ in their lines at most. -/
inductive Report.SameButLine : Report → Report → Prop where
  | lexical (line other : UInt32) (message : String) :
      SameButLine (.lexical line message) (.lexical other message)
  | syntactic (line other : UInt32) (location : Location) (message : String) :
      SameButLine (.syntactic line location message) (.syntactic other location message)
  | runtime {t u : Token} (same : SameWord t u) (message : String) :
      SameButLine (.runtime t message) (.runtime u message)

theorem sameButLine_ofParse {e f : Parse.Error} (same : SameWord e.token f.token)
    (sameFault : e.fault = f.fault) :
    Report.SameButLine (Report.ofParse e) (Report.ofParse f) := by
  have sameLocation : Location.ofToken e.token = Location.ofToken f.token := by
    rw [Location.ofToken, Location.ofToken, Token.isEof, Token.isEof, same.1, same.2.1]
  rw [Report.ofParse, Report.ofParse, Report.atToken, Report.atToken, sameLocation, sameFault]
  exact .syntactic _ _ _ _

theorem sameButLine_ofEval {e f : EvalError} (same : SameWord e.operator f.operator)
    (sameFault : e.fault = f.fault) :
    Report.SameButLine (Report.ofEval e) (Report.ofEval f) := by
  have sameMessage : e.message = f.message := by
    rw [EvalError.message, EvalError.message, sameFault, same.2.1]
  rw [Report.ofEval, Report.ofEval, sameMessage]
  exact .runtime same _

/-- Texts of the same tokens up to lines come to the same up to lines. -/
theorem fresh_sameButLine {first second : String}
    (same : List.Forall₂ SameWord (scan first).tokens (scan second).tokens)
    (firstClean : (scan first).errors = []) (secondClean : (scan second).errors = []) :
    (Run.fresh first).value? = (Run.fresh second).value? ∧
      List.Forall₂ Report.SameButLine (Run.fresh first).reports (Run.fresh second).reports := by
  have streams := Parse.ofTokens_alike meaning_sameWord same ⟨rfl, rfl, rfl⟩
  have parses := (Parse.parse_alike meaning_sameWord streams).1
  generalize isFirst : (Parse.TokenStream.ofTokens (scan first).tokens).parse.1 = one at parses
  generalize isSecond : (Parse.TokenStream.ofTokens (scan second).tokens).parse.1 = two at parses
  cases parses with
  | error related =>
      obtain ⟨firstValue, firstReports⟩ := fresh_unparsed firstClean isFirst
      obtain ⟨secondValue, secondReports⟩ := fresh_unparsed secondClean isSecond
      rw [firstValue, secondValue, firstReports, secondReports]
      exact ⟨rfl, .cons (sameButLine_ofParse related.1 related.2) .nil⟩
  | @ok e f alike =>
      have results := eval_alike meaning_sameWord alike
      generalize isLeft : e.eval = left at results
      generalize isRight : f.eval = right at results
      cases results with
      | error related =>
          obtain ⟨firstValue, firstReports⟩ := fresh_failed firstClean isFirst isLeft
          obtain ⟨secondValue, secondReports⟩ := fresh_failed secondClean isSecond isRight
          rw [firstValue, secondValue, firstReports, secondReports]
          exact ⟨rfl, .cons (sameButLine_ofEval related.1 related.2) .nil⟩
      | ok sameValue =>
          obtain ⟨firstValue, firstReports⟩ := fresh_value firstClean isFirst isLeft
          obtain ⟨secondValue, secondReports⟩ := fresh_value secondClean isSecond isRight
          rw [firstValue, secondValue, firstReports, secondReports, sameValue]
          exact ⟨rfl, .nil⟩

/-! ## Scanning a laid-out text -/

theorem forall₂_sameWord {tokens others : List Token}
    (same : tokens.map (fun t => (t.kind, t.lexeme, t.literal)) =
      others.map (fun t => (t.kind, t.lexeme, t.literal))) :
    List.Forall₂ SameWord tokens others := by
  have pairs := List.forall₂_eq_eq_eq ▸ same
  rw [List.forall₂_map_left_iff, List.forall₂_map_right_iff] at pairs
  exact pairs.imp fun t u alike => by simpa [SameWord] using alike

theorem genuine_of_mem_tokensOn {line : UInt32} {text : List Char} {t : Token}
    (member : t ∈ tokensOn line (segments text)) : t.Genuine :=
  lexeme_of_mem_tokensOn member

/-- **Layout does not matter.** A text that is laid out with the tokens of a scan, whatever
errors that scan had, is scanned without errors as the same tokens up to lines; and if the
scan had no errors, the two texts come to the same value, or to the same error up to
lines. -/
theorem laidOut_scan (source text : String)
    (laid : LaidOut (scan source).tokens.dropLast text.toList) :
    (scan text).errors = [] ∧
      List.Forall₂ SameWord (scan text).tokens (scan source).tokens ∧
      ((scan source).errors = [] →
        (Run.fresh text).value? = (Run.fresh source).value? ∧
          List.Forall₂ Report.SameButLine (Run.fresh text).reports
            (Run.fresh source).reports) := by
  rw [scan_tokens, List.dropLast_concat] at laid
  obtain ⟨words, noComplaints⟩ := laid.written_segments fun t member =>
    genuine_of_mem_tokensOn member
  have clean : (scan text).errors = [] :=
    (scan_errors_eq_nil_iff text).mpr (List.filterMap_eq_nil_iff.mp noComplaints)
  have same : List.Forall₂ SameWord (scan text).tokens (scan source).tokens := by
    have read := filterMap_placed Segment.token? (fun t => (t.kind, t.lexeme, t.literal))
      Segment.written? token?_written (segments text.toList) 1
    rw [words] at read
    apply forall₂_sameWord
    rw [scan_tokens, scan_tokens, List.map_append, List.map_append]
    exact congrArg (· ++ [(.eof, "", none)]) read
  exact ⟨clean, same, fresh_sameButLine same clean⟩

/-- A difference, and its tokens laid out with a comment between them. -/
theorem laidOut_scan_difference :
    LaidOut (scan "nil-\"a\"").tokens.dropLast "nil\t- //x\n\n\"a\"".toList ∧
      (scan "nil-\"a\"").errors = [] ∧
      (scan "nil\t- //x\n\n\"a\"").errors = [] ∧
      List.Forall₂ SameWord (scan "nil\t- //x\n\n\"a\"").tokens (scan "nil-\"a\"").tokens ∧
      List.Forall₂ Report.SameButLine (Run.fresh "nil\t- //x\n\n\"a\"").reports
        (Run.fresh "nil-\"a\"").reports := by
  have tokens : (scan "nil-\"a\"").tokens.dropLast =
      [⟨.kwNil, "nil", none, 1⟩, ⟨.minus, "-", none, 1⟩,
        ⟨.string, "\"a\"", some (.string "a"), 1⟩] := by
    decide +kernel
  have sourceClean : (scan "nil-\"a\"").errors = [] := by decide +kernel
  have tab : Separator ['\t'] := .blank (by decide) .none
  have comment : Separator [' ', '/', '/', 'x', '\n', '\n'] :=
    .blank (by decide) (@Filler.comment ['x'] _ (by decide) (.blank (by decide) .none))
  have laid : LaidOut (scan "nil-\"a\"").tokens.dropLast "nil\t- //x\n\n\"a\"".toList := by
    rw [tokens]
    exact .next tab (.next comment (.last _))
  obtain ⟨clean, same, comesTo⟩ := laidOut_scan _ _ laid
  exact ⟨laid, sourceClean, clean, same, (comesTo sourceClean).2⟩

end LoxCalc
