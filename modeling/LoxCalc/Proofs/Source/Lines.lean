import LoxCalc.Proofs.Source.MaximalMunch
import Mathlib.Algebra.Group.Nat.Defs

/-!
Contract: the lines of scanned tokens and errors, and what a stretch of segments yields.

Owns:
- `tokensOn` and `errorsOn`, the tokens and the errors of a list of segments that starts on a
  line;
- `scan_tokens`, `scan_errors` and `scan_errors_eq_nil_iff`, a scan by its segments;
- `newlines`, `endLine_eq` and `exists_of_mem_placed`, that a line is the first line and the
  line breaks up to the end of the segment;
- `Token.down`, `LexicalError.down`, `tokensOn_add` and `errorsOn_add`, that segments further
  down yield the same further down;
- `lexeme_of_mem_tokensOn`, that a token is a word of its kind;
- `line_le_of_mem_tokensOn` and `line_le_of_mem_errorsOn`, that nothing stands further down
  than its text has line breaks.
-/

set_option autoImplicit false

namespace LoxCalc

/-! ## The tokens of a stretch -/

/-- The tokens of segments that start on `line`, without an end mark. -/
def tokensOn (line : UInt32) (segs : List Segment) : List Token :=
  (placed line segs).filterMap fun p => p.1.token? p.2

@[simp] theorem tokensOn_nil (line : UInt32) : tokensOn line [] = [] := rfl

@[simp] theorem tokensOn_append (line : UInt32) (first second : List Segment) :
    tokensOn line (first ++ second) =
      tokensOn line first ++ tokensOn (endLine line first) second := by
  rw [tokensOn, placed_append, List.filterMap_append]
  rfl

@[simp] theorem tokensOn_cons (line : UInt32) (s : Segment) (rest : List Segment) :
    tokensOn line (s :: rest) =
      (s.token? (line + s.lines)).toList ++ tokensOn (line + s.lines) rest := by
  simp only [tokensOn, placed, List.filterMap_cons]
  cases s.token? (line + s.lines) <;> rfl

theorem scan_tokens (source : String) :
    (scan source).tokens =
      tokensOn 1 (segments source.toList) ++ [Token.eof (endLine 1 (segments source.toList))] :=
  rfl

/-- The errors of segments that start on `line`. -/
def errorsOn (line : UInt32) (segs : List Segment) : List LexicalError :=
  (placed line segs).filterMap fun p => p.1.error? p.2

@[simp] theorem errorsOn_nil (line : UInt32) : errorsOn line [] = [] := rfl

@[simp] theorem errorsOn_append (line : UInt32) (first second : List Segment) :
    errorsOn line (first ++ second) =
      errorsOn line first ++ errorsOn (endLine line first) second := by
  rw [errorsOn, placed_append, List.filterMap_append]
  rfl

@[simp] theorem errorsOn_cons (line : UInt32) (s : Segment) (rest : List Segment) :
    errorsOn line (s :: rest) =
      (s.error? (line + s.lines)).toList ++ errorsOn (line + s.lines) rest := by
  simp only [errorsOn, placed, List.filterMap_cons]
  cases s.error? (line + s.lines) <;> rfl

theorem scan_errors (source : String) :
    (scan source).errors = errorsOn 1 (segments source.toList) :=
  rfl

/-- A scan is without errors exactly if there is no segment to complain about. -/
theorem scan_errors_eq_nil_iff (source : String) :
    (scan source).errors = [] ↔ ∀ s ∈ segments source.toList, s.complaint? = none := by
  have complaints := filterMap_placed Segment.error? (fun e => e.fault.message)
    Segment.complaint? error?_complaint (segments source.toList) 1
  rw [← List.filterMap_eq_nil_iff, ← complaints, List.map_eq_nil_iff]
  rfl

/-! ## Lines -/

/-- How many line breaks a text has. -/
def newlines (text : List Char) : Nat := text.count '\n'

@[simp] theorem newlines_append (first second : List Char) :
    newlines (first ++ second) = newlines first + newlines second :=
  List.count_append

/-- Segments end as many lines further down as they have line breaks. -/
theorem endLine_eq (segs : List Segment) :
    ∀ line : UInt32,
      endLine line segs = line + UInt32.ofNat (newlines (segs.flatMap Segment.text)) := by
  induction segs with
  | nil =>
      intro line
      exact (UInt32.add_zero line).symm
  | cons s rest inductionHypothesis =>
      intro line
      show endLine (line + s.lines) rest = _
      rw [inductionHypothesis, List.flatMap_cons, newlines_append, UInt32.ofNat_add,
        UInt32.add_assoc]
      rfl

@[simp] theorem endLine_segments (line : UInt32) (text : List Char) :
    endLine line (segments text) = line + UInt32.ofNat (newlines text) := by
  rw [endLine_eq, segments_flatMap_text]

/-- A segment ends on the first line and as many further down as there are line breaks
before its end. -/
theorem exists_of_mem_placed {line own : UInt32} {segs : List Segment} {s : Segment}
    (member : (s, own) ∈ placed line segs) :
    ∃ before behind, segs = before ++ s :: behind ∧
      own = line + UInt32.ofNat (newlines ((before ++ [s]).flatMap Segment.text)) := by
  induction segs generalizing line with
  | nil => contradiction
  | cons first rest inductionHypothesis =>
      rcases List.mem_cons.mp member with isFirst | later
      · obtain ⟨rfl, rfl⟩ := Prod.mk.inj isFirst
        refine ⟨[], rest, rfl, ?_⟩
        rw [List.nil_append, ← endLine_eq]
        rfl
      · obtain ⟨before, behind, rfl, isLine⟩ := inductionHypothesis later
        refine ⟨first :: before, behind, rfl, ?_⟩
        rw [isLine, ← endLine_eq, ← endLine_eq]
        rfl

/-- Small lines do not overflow. -/
theorem toNat_line {n : Nat} (fits : 1 + n < 2 ^ 32) : (1 + UInt32.ofNat n).toNat = 1 + n := by
  have sum : 1 + UInt32.ofNat n = UInt32.ofNat (1 + n) := by
    rw [UInt32.ofNat_add]
    rfl
  rw [sum, UInt32.toNat_ofNat_of_lt' fits]

/-! ## Single segments -/

/-- A word on one line without a literal is a token of its line. -/
theorem tokensOn_cons_word {kind : Kind} {word : List Char} (oneLine : '\n' ∉ word)
    (noLiteral : literalOf kind word = none) (line : UInt32) (rest : List Segment) :
    tokensOn line (⟨.token kind, word⟩ :: rest) =
      ⟨kind, String.ofList word, none, line⟩ :: tokensOn line rest := by
  have stays : line + (⟨.token kind, word⟩ : Segment).lines = line := by
    simp [Segment.lines, List.count_eq_zero.mpr oneLine]
  rw [tokensOn_cons, stays, ← noLiteral]
  rfl

theorem tokensOn_cons_blank (c : Char) (line : UInt32) (rest : List Segment) :
    tokensOn line (⟨.blank, [c]⟩ :: rest) =
      tokensOn (line + UInt32.ofNat (newlines [c])) rest := by
  rw [tokensOn_cons]
  rfl

theorem errorsOn_cons_blank (c : Char) (line : UInt32) (rest : List Segment) :
    errorsOn line (⟨.blank, [c]⟩ :: rest) =
      errorsOn (line + UInt32.ofNat (newlines [c])) rest :=
  rfl

/-! ## Further down -/

/-- The same token a number of lines further down. -/
def Token.down (n : UInt32) (t : Token) : Token := { t with line := t.line + n }

theorem placed_add (n : UInt32) (segs : List Segment) :
    ∀ line : UInt32,
      placed (line + n) segs = (placed line segs).map fun p => (p.1, p.2 + n) := by
  induction segs with
  | nil =>
      intro line
      rfl
  | cons s rest inductionHypothesis =>
      intro line
      have swap : line + n + s.lines = line + s.lines + n := by
        rw [UInt32.add_assoc, UInt32.add_comm n, ← UInt32.add_assoc]
      simp only [placed, List.map_cons, swap, inductionHypothesis]

theorem endLine_add (line n : UInt32) (segs : List Segment) :
    endLine (line + n) segs = endLine line segs + n := by
  rw [endLine_eq, endLine_eq, UInt32.add_assoc, UInt32.add_comm n, ← UInt32.add_assoc]

theorem token?_add (s : Segment) (line n : UInt32) :
    s.token? (line + n) = (s.token? line).map (Token.down n) := by
  unfold Segment.token?
  cases s.cls <;> rfl

/-- Segments further down yield the same tokens further down. -/
theorem tokensOn_add (line n : UInt32) (segs : List Segment) :
    tokensOn (line + n) segs = (tokensOn line segs).map (Token.down n) := by
  simp only [tokensOn, placed_add, List.filterMap_map, List.map_filterMap, Function.comp_def,
    token?_add]

/-- The same error a number of lines further down. -/
def LexicalError.down (n : UInt32) (e : LexicalError) : LexicalError :=
  { e with line := e.line + n }

theorem error?_add (s : Segment) (line n : UInt32) :
    s.error? (line + n) = (s.error? line).map (LexicalError.down n) := by
  unfold Segment.error?
  cases s.cls <;> rfl

theorem errorsOn_add (line n : UInt32) (segs : List Segment) :
    errorsOn (line + n) segs = (errorsOn line segs).map (LexicalError.down n) := by
  simp only [errorsOn, placed_add, List.filterMap_map, List.map_filterMap, Function.comp_def,
    error?_add]

/-! ## The tokens of a text -/

theorem exists_of_mem_tokensOn {line : UInt32} {segs : List Segment} {t : Token}
    (member : t ∈ tokensOn line segs) :
    ∃ s, (s, t.line) ∈ placed line segs ∧ s.cls = .token t.kind ∧
      t.lexeme = String.ofList s.text ∧ t.literal = literalOf t.kind s.text := by
  obtain ⟨⟨s, own⟩, onLine, isToken⟩ := List.mem_filterMap.mp member
  cases isKind : s.cls with
  | token kind =>
      simp only [Segment.token?, isKind] at isToken
      obtain rfl := Option.some.inj isToken
      exact ⟨s, onLine, isKind, rfl, rfl⟩
  | comment => simp [Segment.token?, isKind] at isToken
  | blank => simp [Segment.token?, isKind] at isToken
  | unterminated => simp [Segment.token?, isKind] at isToken
  | unexpected => simp [Segment.token?, isKind] at isToken

/-- A token in front of the end mark is a word of its kind, with the literal of that
word. -/
theorem lexeme_of_mem_tokensOn {line : UInt32} {text : List Char} {t : Token}
    (member : t ∈ tokensOn line (segments text)) :
    Lexeme (.token t.kind) t.lexeme.toList ∧
      t.literal = literalOf t.kind t.lexeme.toList := by
  obtain ⟨s, onLine, isToken, isLexeme, isLiteral⟩ := exists_of_mem_tokensOn member
  obtain ⟨rest, _, leads⟩ := exists_leads_of_mem_segments (mem_of_mem_placed onLine)
  rw [isLexeme, String.toList_ofList]
  exact ⟨leads.lexeme_of_token isToken, isLiteral⟩

theorem not_isEof_of_mem_tokensOn {line : UInt32} {text : List Char} {t : Token}
    (member : t ∈ tokensOn line (segments text)) : t.isEof = false :=
  decide_eq_false (lexeme_of_mem_tokensOn member).1.ne_eof

/-- No segment ends further down than the text has line breaks. -/
theorem line_le_of_mem_placed {line own : UInt32} {text : List Char} {s : Segment}
    (member : (s, own) ∈ placed line (segments text)) :
    ∃ n ≤ newlines text, own = line + UInt32.ofNat n := by
  obtain ⟨before, behind, split, isLine⟩ := exists_of_mem_placed member
  refine ⟨_, ?_, isLine⟩
  have whole := segments_flatMap_text text
  rw [split, ← List.singleton_append, ← List.append_assoc, List.flatMap_append] at whole
  rw [← whole, newlines_append]
  exact Nat.le_add_right _ _

theorem line_le_of_mem_tokensOn {line : UInt32} {text : List Char} {t : Token}
    (member : t ∈ tokensOn line (segments text)) :
    ∃ n ≤ newlines text, t.line = line + UInt32.ofNat n := by
  obtain ⟨s, onLine, _⟩ := exists_of_mem_tokensOn member
  exact line_le_of_mem_placed onLine

theorem line_le_of_mem_errorsOn {line : UInt32} {text : List Char} {e : LexicalError}
    (member : e ∈ errorsOn line (segments text)) :
    ∃ n ≤ newlines text, e.line = line + UInt32.ofNat n := by
  obtain ⟨⟨s, own⟩, onLine, isError⟩ := List.mem_filterMap.mp member
  have sameLine : e.line = own := by
    unfold Segment.error? at isError
    split at isError <;> cases isError <;> rfl
  rw [sameLine]
  exact line_le_of_mem_placed onLine

end LoxCalc
