import LoxCalc.Proofs.Source.Literal
import Mathlib.Data.List.Basic

/-!
Contract: the line of a token or an error is exact.

Owns:
- `reached`, segments with the text up to their ends, and `numbered`, what is known of them
  with the lines there;
- `bump` and `Segment.advance`, the counter as it is moved by single characters;
- `Lexeme.oneLine`, that only blanks and strings take in line breaks;
- `Cuts.unterminated_last`, that a string left open is the last segment;
- `scan_tokens_numbered` and `scan_errors_numbered`, that lines are counted up to the ends;
- `ExactLines` with `scan_lines_exact`, all of it about a scan.

The counter is of 32 bits. It is exact as long as the last line has a number of that size.
-/

set_option autoImplicit false

namespace LoxCalc

/-! ## The text up to a segment -/

/-- Each segment with the text up to its end, where `before` stands in front of the first. -/
def reached (before : List Char) : List Segment → List (Segment × List Char)
  | [] => []
  | s :: rest => (s, before ++ s.text) :: reached (before ++ s.text) rest

/-- The number of the line on which a text ends. -/
def lineAfter (text : List Char) : Nat := 1 + newlines text

/-- What is known of segments, in order, with the numbers of the lines on which they end. -/
def numbered {Seen : Type} (known : Segment → Option Seen) (segs : List Segment) :
    List (Seen × Nat) :=
  (reached [] segs).filterMap fun p => (known p.1).map fun seen => (seen, lineAfter p.2)

theorem lineAfter_le {first second : List Char} (front : first <+: second) :
    lineAfter first ≤ lineAfter second :=
  Nat.add_le_add_left (front.sublist.count_le '\n') 1

theorem exists_of_mem_reached {segs : List Segment} {p : Segment × List Char} :
    ∀ {before : List Char}, p ∈ reached before segs →
      ∃ front behind, segs = front ++ p.1 :: behind ∧
        p.2 = before ++ front.flatMap Segment.text ++ p.1.text := by
  induction segs with
  | nil =>
      intro before member
      contradiction
  | cons s rest inductionHypothesis =>
      intro before member
      rcases List.mem_cons.mp member with rfl | later
      · exact ⟨[], rest, rfl, by simp⟩
      · obtain ⟨front, behind, split, isText⟩ := inductionHypothesis later
        refine ⟨s :: front, behind, by rw [split, List.cons_append], ?_⟩
        rw [isText, List.flatMap_cons, List.append_assoc before]

/-- What is reached lies inside the whole text. -/
theorem prefix_of_mem_reached {segs : List Segment} {before : List Char}
    {p : Segment × List Char} (member : p ∈ reached before segs) :
    before <+: p.2 ∧ p.2 <+: before ++ segs.flatMap Segment.text := by
  obtain ⟨front, behind, rfl, isText⟩ := exists_of_mem_reached member
  rw [isText, List.append_assoc]
  refine ⟨List.prefix_append _ _, ?_⟩
  rw [List.flatMap_append, List.flatMap_cons, ← List.append_assoc (front.flatMap _)]
  exact (List.prefix_append_right_inj before).mpr (List.prefix_append _ _)

/-- Later segments reach further. -/
theorem pairwise_reached (segs : List Segment) :
    ∀ before : List Char, (reached before segs).Pairwise fun p q => p.2 <+: q.2 := by
  induction segs with
  | nil =>
      intro before
      exact .nil
  | cons s rest inductionHypothesis =>
      intro before
      exact .cons (fun q later => (prefix_of_mem_reached later).1) (inductionHypothesis _)

theorem pairwise_numbered {Seen : Type} (known : Segment → Option Seen) (segs : List Segment) :
    (numbered known segs).Pairwise fun a b => a.2 ≤ b.2 := by
  refine (pairwise_reached segs []).filterMap _ ?_
  intro p q further a isSeen b alsoSeen
  obtain ⟨_, _, rfl⟩ := Option.map_eq_some_iff.mp isSeen
  obtain ⟨_, _, rfl⟩ := Option.map_eq_some_iff.mp alsoSeen
  exact lineAfter_le further

/-- No segment ends further down than the whole text. -/
theorem pairwise_numbered_concat {Seen : Type} (known : Segment → Option Seen)
    (segs : List Segment) (mark : Seen) :
    (numbered known segs ++ [(mark, lineAfter (segs.flatMap Segment.text))]).Pairwise
      fun a b => a.2 ≤ b.2 := by
  refine List.pairwise_append.mpr
    ⟨pairwise_numbered known segs, List.pairwise_singleton _ _, ?_⟩
  intro a member b isMark
  obtain rfl := List.mem_singleton.mp isMark
  obtain ⟨p, isReached, isSeen⟩ := List.mem_filterMap.mp member
  obtain ⟨_, _, rfl⟩ := Option.map_eq_some_iff.mp isSeen
  exact lineAfter_le (prefix_of_mem_reached isReached).2

/-- Where a segment is placed is read off the text up to its end. -/
theorem placed_eq_reached (segs : List Segment) :
    ∀ before : List Char, placed (1 + UInt32.ofNat (newlines before)) segs =
      (reached before segs).map fun p => (p.1, 1 + UInt32.ofNat (newlines p.2)) := by
  induction segs with
  | nil =>
      intro before
      rfl
  | cons s rest inductionHypothesis =>
      intro before
      have line : 1 + UInt32.ofNat (newlines before) + s.lines =
          1 + UInt32.ofNat (newlines (before ++ s.text)) := by
        simp [Segment.lines, newlines, UInt32.add_assoc]
      rw [placed, reached, List.map_cons, line, inductionHypothesis]

/-! ## The counter, character by character -/

/-- The counter behind one character. -/
def bump (line : UInt32) (c : Char) : UInt32 := if c = '\n' then line + 1 else line

theorem foldl_bump (text : List Char) :
    ∀ line : UInt32, text.foldl bump line = line + UInt32.ofNat (newlines text) := by
  induction text with
  | nil =>
      intro line
      exact (UInt32.add_zero line).symm
  | cons c rest inductionHypothesis =>
      intro line
      have own : bump line c = line + UInt32.ofNat (newlines [c]) := by
        unfold bump
        split
        · rename_i isBreak
          rw [isBreak]
          rfl
        · rename_i notBreak
          have none : newlines [c] = 0 := by
            simpa [newlines, List.count_eq_zero] using Ne.symm notBreak
          rw [none]
          exact (UInt32.add_zero line).symm
      have whole : newlines (c :: rest) = newlines [c] + newlines rest :=
        newlines_append [c] rest
      rw [List.foldl_cons, inductionHypothesis, own, whole, UInt32.ofNat_add, UInt32.add_assoc]

/-- The counter behind a segment, moved in the only two places where a line break is taken:
as a blank of its own, and inside quotes. -/
def Segment.advance (line : UInt32) (s : Segment) : UInt32 :=
  match s.cls with
  | .blank | .token .string | .unterminated => s.text.foldl bump line
  | _ => line

theorem not_mem_lineBreak_of_wordPart {text : List Char} (parts : ∀ c ∈ text, WordPart c) :
    '\n' ∉ text :=
  fun member => absurd (parts '\n' member) (by decide)

/-- Only blanks and strings take in line breaks. -/
theorem Lexeme.oneLine {cls : SegmentClass} {word : List Char} (lexeme : Lexeme cls word)
    (notBlank : cls ≠ .blank) (notString : cls ≠ .token .string) : '\n' ∉ word := by
  cases lexeme with
  | fixed listed =>
      have allOneLine : ∀ entry ∈ fixedSpellings, '\n' ∉ entry.1 := by decide
      exact allOneLine _ listed
  | comment oneLine => simpa using oneLine
  | blank _ => contradiction
  | string _ => contradiction
  | integer _ all => exact not_mem_lineBreak_of_wordPart fun d member => .inr (all d member)
  | decimal _ _ wholeDigits fractionDigits =>
      have noneBefore := not_mem_lineBreak_of_wordPart fun d member =>
        Or.inr (wholeDigits d member)
      have noneBehind := not_mem_lineBreak_of_wordPart fun d member =>
        Or.inr (fractionDigits d member)
      simp [noneBefore, noneBehind]
  | keyword reserved =>
      obtain ⟨first, rest, spelled, start, parts⟩ := reservedWords_wellSpelled reserved
      rw [String.toList_ofList] at spelled
      rw [spelled]
      exact not_mem_lineBreak_of_wordPart (List.forall_mem_cons.mpr ⟨.inl start, parts⟩)
  | identifier start parts _ =>
      exact not_mem_lineBreak_of_wordPart (List.forall_mem_cons.mpr ⟨.inl start, parts⟩)

/-- Moved in the two places, the counter takes in all line breaks of a segment. -/
theorem Leads.advance_eq {text : List Char} {s : Segment} (leads : Leads text s)
    (line : UInt32) : s.advance line = line + s.lines := by
  have whole : s.text.foldl bump line = line + s.lines := foldl_bump s.text line
  have stays : '\n' ∉ s.text → line = line + s.lines := by
    intro oneLine
    simp [Segment.lines, List.count_eq_zero.mpr oneLine]
  unfold Segment.advance
  split
  · exact whole
  · exact whole
  · exact whole
  · rename_i notBlank notString notOpen
    refine stays ?_
    cases leads with
    | lexeme member _ _ => exact member.oneLine notBlank notString
    | unterminated _ _ => exact absurd rfl notOpen
    | @unexpected c _ starts _ none =>
        intro isBreak
        obtain rfl : '\n' = c := List.mem_singleton.mp isBreak
        exact none .blank ['\n'] (.blank (by decide)) ⟨_, starts.symm⟩

/-! ## Open strings -/

theorem Leads.text_of_unterminated {text : List Char} {s : Segment} (leads : Leads text s)
    (isOpen : s.cls = .unterminated) : s.text = text := by
  cases leads with
  | lexeme member _ _ =>
      rw [isOpen] at member
      nomatch member
  | unterminated _ _ => rfl
  | unexpected _ _ _ => contradiction

/-- A string left open takes the whole rest, so it is the last segment and there is no
other. -/
theorem Cuts.unterminated_last {text : List Char} {segs : List Segment} (cuts : Cuts text segs)
    {s : Segment} (member : s ∈ segs) (isOpen : s.cls = .unterminated) :
    ∃ front, segs = front ++ [s] ∧ ∀ other ∈ front, other.cls ≠ .unterminated := by
  induction cuts with
  | done => contradiction
  | @next text behind first rest splits leads tail inductionHypothesis =>
      by_cases firstOpen : first.cls = .unterminated
      · have noRest : behind = [] := by
          rw [leads.text_of_unterminated firstOpen] at splits
          exact List.self_eq_append_right.mp splits
        subst noRest
        cases tail with
        | done =>
            obtain rfl := List.mem_singleton.mp member
            exact ⟨[], rfl, fun _ none => absurd none List.not_mem_nil⟩
        | next _ leads _ => exact absurd rfl leads.ne_nil
      · have later : s ∈ rest :=
          (List.mem_cons.mp member).resolve_left fun same => firstOpen (same ▸ isOpen)
        obtain ⟨front, rfl, closed⟩ := inductionHypothesis later
        exact ⟨first :: front, rfl, List.forall_mem_cons.mpr ⟨firstOpen, closed⟩⟩

theorem exists_open_of_mem_errorsOn {line : UInt32} {segs : List Segment} {e : LexicalError}
    (member : e ∈ errorsOn line segs) (isFault : e.fault = .unterminatedString) :
    ∃ s ∈ segs, s.cls = .unterminated := by
  obtain ⟨⟨s, own⟩, onLine, isError⟩ := List.mem_filterMap.mp member
  refine ⟨s, mem_of_mem_placed onLine, ?_⟩
  unfold Segment.error? at isError
  split at isError
  · obtain rfl := Option.some.inj isError
    contradiction
  · assumption
  · contradiction

/-- Either no string is left open, or one is, and it is reported last, on the line on which
the text ends. -/
theorem errorsOn_openString (line : UInt32) (text : List Char) :
    (∀ e ∈ errorsOn line (segments text), e.fault ≠ .unterminatedString) ∨
      ∃ front, errorsOn line (segments text) =
          front ++ [⟨endLine line (segments text), .unterminatedString⟩] ∧
        ∀ e ∈ front, e.fault ≠ .unterminatedString := by
  by_cases someOpen : ∃ s ∈ segments text, s.cls = .unterminated
  · right
    obtain ⟨s, inside, isOpen⟩ := someOpen
    obtain ⟨front, isLast, closed⟩ := (cuts_segments text).unterminated_last inside isOpen
    refine ⟨errorsOn line front, ?_, ?_⟩
    · simp [isLast, Segment.error?, isOpen]
    · intro e member isFault
      obtain ⟨other, inFront, otherOpen⟩ := exists_open_of_mem_errorsOn member isFault
      exact closed other inFront otherOpen
  · left
    intro e member isFault
    exact someOpen (exists_open_of_mem_errorsOn member isFault)

/-! ## Every line of a scan -/

/-- The lines of a scan whose source is cut into `segs`. -/
structure ExactLines (source : List Char) (segs : List Segment) (s : Scan) : Prop where
  onlyCut : ∀ other, Cuts source other ↔ other = segs
  advances : ∀ front own behind, segs = front ++ own :: behind →
    endLine 1 (front ++ [own]) = own.advance (endLine 1 front)
  /-- Behind every single character the counter is the number of the line, so no step of it
  overflows. -/
  counter : ∀ front own behind taken, segs = front ++ own :: behind → taken <+: own.text →
    (taken.foldl bump (endLine 1 front)).toNat = lineAfter (front.flatMap Segment.text ++ taken)
  tokens : s.tokens.map (fun t => ((t.kind, t.lexeme, t.literal), t.line.toNat)) =
    numbered Segment.written? segs ++ [((.eof, "", none), lineAfter source)]
  errors : s.errors.map (fun e => (e.fault.message, e.line.toNat)) =
    numbered Segment.complaint? segs
  /-- A string is on the line of its closing quote. -/
  closingQuote : ∀ p ∈ reached [] segs, p.1.cls = .token .string →
    ∃ opened, p.2 = opened ++ ['"'] ∧ lineAfter p.2 = lineAfter opened
  tokensOrdered : s.tokens.Pairwise fun t u => t.line ≤ u.line
  errorsOrdered : s.errors.Pairwise fun e f => e.line ≤ f.line
  openString : (∀ e ∈ s.errors, e.fault.message ≠ "Unterminated string.") ∨
    ∃ front e, s.errors = front ++ [e] ∧ e.fault.message = "Unterminated string." ∧
      e.line = s.lastLine ∧ ∀ other ∈ front, other.fault.message ≠ "Unterminated string."

section

variable {source : String}

/-- The line at the end of a beginning of a source has a number of 32 bits. -/
theorem toNat_lineAfter (fits : newlines source.toList < 2 ^ 32 - 1) {front : List Char}
    (isFront : front <+: source.toList) :
    (1 + UInt32.ofNat (newlines front)).toNat = lineAfter front := by
  have atMost : newlines front ≤ newlines source.toList := isFront.sublist.count_le '\n'
  exact toNat_line (by omega)

/-- What is found in the segments on their lines is what is known of them, numbered. -/
theorem filterMap_placed_eq_numbered (fits : newlines source.toList < 2 ^ 32 - 1)
    {Found Seen : Type} (find : Segment → UInt32 → Option Found) (see : Found → Seen × Nat)
    (known : Segment → Option Seen)
    (agree : ∀ s line, (find s line).map see = (known s).map fun seen => (seen, line.toNat)) :
    ((placed 1 (segments source.toList)).filterMap fun p => find p.1 p.2).map see =
      numbered known (segments source.toList) := by
  have onLines : placed 1 (segments source.toList) = (reached [] (segments source.toList)).map
      fun p => (p.1, 1 + UInt32.ofNat (newlines p.2)) :=
    placed_eq_reached (segments source.toList) []
  rw [onLines, List.filterMap_map, List.map_filterMap]
  refine List.filterMap_congr fun p member => ?_
  have inside := (prefix_of_mem_reached member).2
  rw [List.nil_append, segments_flatMap_text] at inside
  rw [Function.comp_apply, agree, toNat_lineAfter fits inside]

theorem token?_numbered (s : Segment) (line : UInt32) :
    (s.token? line).map (fun t => ((t.kind, t.lexeme, t.literal), t.line.toNat)) =
      s.written?.map fun seen => (seen, line.toNat) := by
  unfold Segment.token? Segment.written?
  cases s.cls <;> rfl

theorem error?_numbered (s : Segment) (line : UInt32) :
    (s.error? line).map (fun e => (e.fault.message, e.line.toNat)) =
      s.complaint?.map fun seen => (seen, line.toNat) := by
  unfold Segment.error? Segment.complaint?
  cases s.cls <;> rfl

theorem scan_tokens_numbered (fits : newlines source.toList < 2 ^ 32 - 1) :
    (scan source).tokens.map (fun t => ((t.kind, t.lexeme, t.literal), t.line.toNat)) =
      numbered Segment.written? (segments source.toList) ++
        [((.eof, "", none), lineAfter source.toList)] := by
  have atEnd := toNat_lineAfter fits (List.prefix_refl source.toList)
  rw [scan_tokens, List.map_append, tokensOn, endLine_segments,
    filterMap_placed_eq_numbered fits _ _ _ token?_numbered, ← atEnd]
  rfl

theorem scan_errors_numbered (fits : newlines source.toList < 2 ^ 32 - 1) :
    (scan source).errors.map (fun e => (e.fault.message, e.line.toNat)) =
      numbered Segment.complaint? (segments source.toList) :=
  filterMap_placed_eq_numbered fits _ _ _ error?_numbered

/-- The counter at a place inside a segment. -/
theorem counter_eq (fits : newlines source.toList < 2 ^ 32 - 1) {front behind : List Segment}
    {own : Segment} {taken : List Char} (split : segments source.toList = front ++ own :: behind)
    (inside : taken <+: own.text) :
    (taken.foldl bump (endLine 1 front)).toNat =
      lineAfter (front.flatMap Segment.text ++ taken) := by
  have isFront : front.flatMap Segment.text ++ taken <+: source.toList := by
    rw [← segments_flatMap_text source.toList, split, List.flatMap_append, List.flatMap_cons]
    exact (List.prefix_append_right_inj _).mpr (inside.trans (List.prefix_append _ _))
  rw [foldl_bump, endLine_eq, UInt32.add_assoc, ← UInt32.ofNat_add, ← newlines_append]
  exact toNat_lineAfter fits isFront

theorem exists_leads_of_split {text : List Char} {front behind : List Segment} {own : Segment}
    (split : segments text = front ++ own :: behind) : ∃ rest, Leads rest own := by
  have member : own ∈ segments text := split ▸ List.mem_append_right front List.mem_cons_self
  obtain ⟨rest, _, leads⟩ := exists_leads_of_mem_segments member
  exact ⟨rest, leads⟩

theorem message_unterminated_iff (fault : LexicalFault) :
    fault.message = "Unterminated string." ↔ fault = .unterminatedString := by
  cases fault <;> decide

/-- **Lines are exact.** If the source has fewer than `2 ^ 32 - 1` line breaks, the line of every
token and of every error is the first and the line breaks up to the end of its segment, and the
counter never overflows. Lines do not decrease, and a string left open is the last error, on
the line of the end mark. -/
theorem scan_lines_exact (source : String) (fits : newlines source.toList < 2 ^ 32 - 1) :
    ExactLines source.toList (segments source.toList) (scan source) := by
  have tokens := scan_tokens_numbered fits
  have errors := scan_errors_numbered fits
  exact {
    onlyCut := cuts_iff source.toList
    advances := by
      intro front own behind split
      obtain ⟨_, leads⟩ := exists_leads_of_split split
      simp [leads.advance_eq]
    counter := fun front own behind taken split inside => counter_eq fits split inside
    tokens
    errors
    closingQuote := by
      intro p member isString
      obtain ⟨front, behind, split, isText⟩ := exists_of_mem_reached member
      obtain ⟨_, leads⟩ := exists_leads_of_split split
      obtain ⟨body, isBody⟩ := (leads.lexeme_of_token isString).exists_body
      refine ⟨front.flatMap Segment.text ++ '"' :: body, by rw [isText, isBody]; simp, ?_⟩
      rw [isText, isBody, lineAfter, lineAfter]
      simp [newlines]
    tokensOrdered := by
      have ordered := pairwise_numbered_concat Segment.written? (segments source.toList)
        (.eof, "", none)
      rw [segments_flatMap_text, ← tokens, List.pairwise_map] at ordered
      exact ordered
    errorsOrdered := by
      have ordered := pairwise_numbered Segment.complaint? (segments source.toList)
      rw [← errors, List.pairwise_map] at ordered
      exact ordered
    openString := by
      have isLast : (scan source).lastLine = endLine 1 (segments source.toList) := by
        rw [Scan.lastLine, scan_tokens, List.getLast?_concat]
        rfl
      simp only [ne_eq, message_unterminated_iff, isLast, scan_errors]
      rcases errorsOn_openString 1 source.toList with closed | ⟨front, split, closed⟩
      · exact .inl closed
      · exact .inr ⟨front, _, split, rfl, rfl, closed⟩ }

end

/-- A string over two lines, a comment, a character that starts nothing behind a carriage
return, and a string left open. -/
theorem scan_lines_exact_mixed :
    let source := "\"a\nb\" // c\n\r\n@ \"open\n"
    newlines source.toList < 2 ^ 32 - 1 ∧
      ExactLines source.toList (segments source.toList) (scan source) ∧
      (scan source).tokens.map (fun t => (t.kind, t.line)) = [(.string, 2), (.eof, 5)] ∧
      (scan source).errors = [⟨4, .unexpectedCharacter⟩, ⟨5, .unterminatedString⟩] := by
  intro source
  have fits : newlines source.toList < 2 ^ 32 - 1 := by decide +kernel
  exact ⟨fits, scan_lines_exact source fits, by decide +kernel, by decide +kernel⟩

end LoxCalc
