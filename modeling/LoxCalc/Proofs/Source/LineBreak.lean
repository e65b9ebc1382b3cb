import LoxCalc.Proofs.Source.Boundary
import LoxCalc.Proofs.Source.Lines

/-!
Contract: two texts with a line break between them are scanned one after the other.

Owns:
- `segments_lineBreak`, the segments of the two texts with the line break between them;
- `BrokenScan`, the tokens and errors of two texts, those of the second further down;
- `scan_lineBreak`, that this is the scan of the whole, if the first leaves no string open.

A line break ends whatever segment is open just as the end of a text does. Only an open
string takes it in.
-/

set_option autoImplicit false

namespace LoxCalc

open Segment

/-- A text that leaves no string open is cut in front of a line break as it is cut on its
own, and what follows the line break is cut as it is cut on its own. -/
theorem segments_lineBreak {first : List Char}
    (closed : ∀ s ∈ segments first, s.cls ≠ .unterminated) (second : List Char) :
    segments (first ++ '\n' :: second) =
      segments first ++ ⟨.blank, ['\n']⟩ :: segments second := by
  have ends : ∀ s ∈ segments first, EndedBy '\n' s.cls :=
    fun s member => ⟨closed s member, fun _ => rfl⟩
  simp [segments_append_blank _ ends, isBlank]

/-- An open string is reported. -/
theorem exists_error_of_open {s : Segment} {segs : List Segment} (member : s ∈ segs)
    (isOpen : s.cls = .unterminated) :
    ∀ line : UInt32, ∃ e ∈ errorsOn line segs, e.fault = .unterminatedString := by
  induction segs with
  | nil => contradiction
  | cons other rest inductionHypothesis =>
      intro line
      rcases List.mem_cons.mp member with rfl | later
      · refine ⟨⟨line + s.lines, .unterminatedString⟩, ?_, rfl⟩
        simp [Segment.error?, isOpen]
      · obtain ⟨e, reported, isFault⟩ := inductionHypothesis later (line + other.lines)
        refine ⟨e, ?_, isFault⟩
        simp [reported]

/-- The scan of a text and that of another, one after the other: `last` is the line on which
the first text ends, and as many lines further down stands the second. -/
structure BrokenScan (first second whole : Scan) (words : List Token) (last : UInt32) : Prop where
  firstTokens : first.tokens = words ++ [Token.eof last]
  unmarked : ∀ t ∈ words, t.isEof = false
  tokens : whole.tokens = words ++ second.tokens.map (Token.down last)
  errors : whole.errors = first.errors ++ second.errors.map (LexicalError.down last)
  /-- Lines are added as numbers: none of them overflows. -/
  tokenLines : ∀ t ∈ second.tokens, (t.down last).line.toNat = t.line.toNat + last.toNat
  errorLines : ∀ e ∈ second.errors, (e.down last).line.toNat = e.line.toNat + last.toNat

/-- Lines of two texts add up as numbers, if those of both together fit. -/
theorem toNat_line_add {line last : UInt32} {m n k : Nat} (atMost : k ≤ n)
    (isLine : line = 1 + UInt32.ofNat k) (isLast : last = 1 + UInt32.ofNat m)
    (fits : m + 1 + n < 2 ^ 32 - 1) : (line + last).toNat = line.toNat + last.toNat := by
  have lineIs : line.toNat = 1 + k := by
    rw [isLine, toNat_line (by omega)]
  have lastIs : last.toNat = 1 + m := by
    rw [isLast, toNat_line (by omega)]
  rw [UInt32.toNat_add, lineIs, lastIs]
  omega

/-- **Scanning goes on behind a line break** as if a text began there. If the first text
leaves no string open, the whole has its tokens and then those of the second, and its errors
and then those of the second, with all that comes from the second as many lines further down
as the line on which the first text ends. -/
theorem scan_lineBreak (first second : String)
    (closed : ∀ e ∈ (scan first).errors, e.fault ≠ .unterminatedString)
    (fits : newlines (first ++ "\n" ++ second).toList < 2 ^ 32 - 1) :
    ∃ words last,
      BrokenScan (scan first) (scan second) (scan (first ++ "\n" ++ second)) words last := by
  have isWhole : (first ++ "\n" ++ second).toList = first.toList ++ '\n' :: second.toList := by
    simp
  have closedSegments : ∀ s ∈ segments first.toList, s.cls ≠ .unterminated := by
    intro s member isOpen
    obtain ⟨e, reported, isFault⟩ := exists_error_of_open member isOpen 1
    exact closed e reported isFault
  have cutsAt := segments_lineBreak closedSegments second.toList
  have isLast := endLine_segments 1 first.toList
  -- The line break itself takes the second text one line further down than the first ends.
  have next : endLine 1 (segments first.toList) + UInt32.ofNat (newlines ['\n']) =
      1 + endLine 1 (segments first.toList) :=
    UInt32.add_comm _ _
  rw [isWhole, newlines_append] at fits
  have breaks : newlines ('\n' :: second.toList) = newlines second.toList + 1 :=
    List.count_cons_self
  rw [breaks] at fits
  have lines : ∀ {line : UInt32} {k : Nat}, k ≤ newlines second.toList →
      line = 1 + UInt32.ofNat k →
      (line + endLine 1 (segments first.toList)).toNat =
        line.toNat + (endLine 1 (segments first.toList)).toNat :=
    fun atMost isLine => toNat_line_add atMost isLine isLast (by omega)
  refine ⟨tokensOn 1 (segments first.toList), endLine 1 (segments first.toList), ?_⟩
  exact {
    firstTokens := scan_tokens first
    unmarked := fun t member => not_isEof_of_mem_tokensOn member
    tokens := by
      have wholeEnd : endLine 1 (segments first.toList ++ ⟨.blank, ['\n']⟩ ::
          segments second.toList) =
          endLine 1 (segments second.toList) + endLine 1 (segments first.toList) := by
        rw [← endLine_add, ← next, endLine_append]
        rfl
      rw [scan_tokens, isWhole, cutsAt, wholeEnd, tokensOn_append, tokensOn_cons_blank, next,
        tokensOn_add, scan_tokens second, List.map_append, List.append_assoc]
      rfl
    errors := by
      rw [scan_errors, isWhole, cutsAt, errorsOn_append, errorsOn_cons_blank, next, errorsOn_add]
      rfl
    tokenLines := by
      intro t member
      rw [scan_tokens, List.mem_append, List.mem_singleton] at member
      rcases member with isWord | rfl
      · obtain ⟨k, atMost, isLine⟩ := line_le_of_mem_tokensOn isWord
        exact lines atMost isLine
      · exact lines (Nat.le_refl _) (endLine_segments 1 second.toList)
    errorLines := by
      intro e member
      obtain ⟨k, atMost, isLine⟩ := line_le_of_mem_errorsOn member
      exact lines atMost isLine }

/-- Behind an operator that an equals sign could join, and with an error in each text. -/
theorem scan_lineBreak_joinable :
    (∀ e ∈ (scan "7. #\n!").errors, e.fault ≠ .unterminatedString) ∧
      newlines ("7. #\n!" ++ "\n" ++ "= 5\n\"").toList < 2 ^ 32 - 1 ∧
      ∃ words last, BrokenScan (scan "7. #\n!") (scan "= 5\n\"")
        (scan ("7. #\n!" ++ "\n" ++ "= 5\n\"")) words last := by
  have closed : ∀ e ∈ (scan "7. #\n!").errors, e.fault ≠ .unterminatedString := by
    decide +kernel
  have fits : newlines ("7. #\n!" ++ "\n" ++ "= 5\n\"").toList < 2 ^ 32 - 1 := by
    decide +kernel
  exact ⟨closed, fits, scan_lineBreak _ _ closed fits⟩

end LoxCalc
