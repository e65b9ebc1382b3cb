import LoxCalc.Proofs.Source.LineNumbers

/-!
Contract: characters that start nothing do not disturb their neighbours.

Owns:
- `faultPlaces`, the places of the characters that are reported, and `blankedOut`, the text
  with a space at each of them;
- `Faded`, texts in which spaces took the place of other characters, and `Leads.faded`, that
  the segment in front of such a change stays as it is;
- `Cuts.blanked`, that a text and the same blanked out are cut at the same places;
- `IsolatedFaults` with `faults_isolated`, what that means for a scan.

A space ends a segment just as a character that starts nothing does. Only strings and comments
go on behind either, and these are not blanked out.
-/

set_option autoImplicit false

namespace LoxCalc

open Segment

/-! ## Blanking out -/

/-- The places of the segments that are unexpected, where `before` stands in front of the
first. Such a segment is a single character, the last of the text up to its end. -/
def faultsFrom (before : List Char) (segs : List Segment) : List Nat :=
  (reached before segs).filterMap fun p =>
    if p.1.cls = .unexpected then some (p.2.length - 1) else none

/-- The places of the characters of a source that are reported. -/
def faultPlaces (source : List Char) : List Nat := faultsFrom [] (segments source)

/-- The text with a space in place of each character that is reported. -/
def blankedOut (source : String) : String :=
  String.ofList (source.toList.mapIdx fun i c => if i ∈ faultPlaces source.toList then ' ' else c)

/-- A segment with a space in place of the character that is reported. -/
def Segment.blanked (s : Segment) : Segment :=
  if s.cls = .unexpected then ⟨.blank, [' ']⟩ else s

/-! ## Faded texts -/

/-- The second text has the characters of the first, and spaces in place of some that are no
white space. -/
def Faded : List Char → List Char → Prop :=
  List.Forall₂ fun c d => d = c ∨ (isBlank c = false ∧ d = ' ')

theorem Faded.refl (text : List Char) : Faded text text :=
  List.forall₂_same.mpr fun _ _ => .inl rfl

theorem Faded.append_left {behind faded : List Char} (fades : Faded behind faded)
    (front : List Char) : Faded (front ++ behind) (front ++ faded) :=
  List.rel_append (Faded.refl front) fades

/-- What stands at the front of a faded text and has no spaces stood there before. -/
theorem Faded.prefix_of_spaceless {text faded word : List Char} (fades : Faded text faded)
    (front : word <+: faded) (spaceless : ∀ c ∈ word, c ≠ ' ') : word <+: text := by
  induction fades generalizing word with
  | nil => exact front
  | @cons c d rest others changes _ inductionHypothesis =>
      cases word with
      | nil => exact List.nil_prefix
      | cons first word =>
          obtain ⟨rfl, frontRest⟩ := List.cons_prefix_cons.mp front
          obtain ⟨notSpace, noneBehind⟩ := List.forall_mem_cons.mp spaceless
          have same : first = c := changes.resolve_right fun replaced => notSpace replaced.2
          rw [same]
          exact (List.prefix_cons_inj c).mpr (inductionHypothesis frontRest noneBehind)

theorem ne_space_of_wordPart {c : Char} (part : WordPart c) : c ≠ ' ' := by
  rintro rfl
  exact absurd part (by decide)

/-! ## One segment -/

/-- A comment that reaches further in a faded text would have done so before. -/
theorem length_le_of_comment {own body behind faded : List Char} (fades : Faded behind faded)
    (oneLine : '\n' ∉ body) (front : body <+: own ++ faded)
    (longest : ∀ word, '\n' ∉ word → word <+: own ++ behind → word.length ≤ own.length) :
    body.length ≤ own.length := by
  apply Nat.le_of_not_lt
  intro longer
  obtain ⟨more, rfl⟩ := List.prefix_of_prefix_length_le (List.prefix_append own faded) front
    longer.le
  obtain ⟨noneOwn, noneMore⟩ := not_or.mp (List.mem_append.not.mp oneLine)
  have further := (List.prefix_append_right_inj own).mp front
  -- The character that goes on is the one that was there, or took the place of one that would
  -- have gone on as well.
  cases fades with
  | nil =>
      rw [List.prefix_nil.mp further, List.append_nil] at longer
      exact Nat.lt_irrefl _ longer
  | @cons c d rest others changes _ =>
      have goesOn : c ≠ '\n' := by
        rintro rfl
        obtain rfl : d = '\n' := changes.resolve_right fun replaced => absurd replaced.1 (by decide)
        cases more with
        | nil =>
            rw [List.append_nil] at longer
            exact Nat.lt_irrefl _ longer
        | cons first _ =>
            obtain rfl := (List.cons_prefix_cons.mp further).1
            exact noneMore List.mem_cons_self
      have tooLong := longest (own ++ [c]) (by simp [noneOwn, goesOn.symm])
        ((List.prefix_append_right_inj own).mpr ⟨rest, rfl⟩)
      rw [List.length_append, List.length_singleton] at tooLong
      exact Nat.lt_irrefl _ tooLong

/-- A word that leads a text is as long as any that fits the text faded behind it. -/
theorem Lexeme.length_le_of_faded {cls other : SegmentClass} {own word behind faded : List Char}
    (member : Lexeme cls own) (fades : Faded behind faded)
    (longest : ∀ cls word, Lexeme cls word → word <+: own ++ behind → word.length ≤ own.length)
    (lexeme : Lexeme other word) (front : word <+: own ++ faded) :
    word.length ≤ own.length := by
  obtain ⟨c, tail, i, rfl, starts, completes⟩ := lexeme.exists_completes
  obtain ⟨first, rest, j, rfl, alsoStarts, ownCompletes⟩ := member.exists_completes
  obtain ⟨rfl, tailFront⟩ := List.cons_prefix_cons.mp front
  obtain rfl : j = i := Option.some.inj (alsoStarts.symm.trans starts)
  have spaceless : (∀ d ∈ tail, d ≠ ' ') → (c :: tail).length ≤ (c :: rest).length := by
    intro noSpace
    have stood := (fades.append_left rest).prefix_of_spaceless tailFront noSpace
    exact longest _ _ lexeme ((List.prefix_cons_inj c).mpr stood)
  cases j with
  | symbol kind =>
      rw [completes.2]
      exact Nat.succ_le_succ (Nat.zero_le _)
  | blank =>
      rw [completes.2]
      exact Nat.succ_le_succ (Nat.zero_le _)
  | joinable alone joined =>
      rcases completes with ⟨_, rfl⟩ | ⟨_, rfl⟩
      · exact Nat.succ_le_succ (Nat.zero_le _)
      · exact spaceless (by simp)
  | digit =>
      apply spaceless
      rcases completes with ⟨_, digits | ⟨whole, fraction, rfl, digits, _, others⟩⟩
      · exact fun d inside => ne_space_of_wordPart (.inr (digits d inside))
      · intro d inside
        rcases List.mem_append.mp inside with inWhole | behindWhole
        · exact ne_space_of_wordPart (.inr (digits d inWhole))
        · rcases List.mem_cons.mp behindWhole with rfl | inFraction
          · decide
          · exact ne_space_of_wordPart (.inr (others d inFraction))
  | word => exact spaceless fun d inside => ne_space_of_wordPart (completes.2 d inside)
  | slash =>
      obtain rfl : c = '/' := (initial?_eq_some_iff c .slash).mp starts
      rcases completes with ⟨_, rfl⟩ | ⟨_, body, rfl, oneLine⟩
      · exact Nat.succ_le_succ (Nat.zero_le _)
      rcases ownCompletes with ⟨_, rfl⟩ | ⟨_, ownBody, rfl, _⟩
      · -- Two slashes that stand together now did so before.
        have opens : ['/'] <+: behind :=
          fades.prefix_of_spaceless ((List.prefix_append ['/'] body).trans tailFront) (by simp)
        have tooLong := longest .comment ['/', '/'] (.comment List.not_mem_nil)
          ((List.prefix_cons_inj '/').mpr opens)
        exact absurd tooLong (by decide)
      · refine Nat.succ_le_succ (Nat.succ_le_succ (length_le_of_comment fades oneLine
          (List.cons_prefix_cons.mp tailFront).2 ?_))
        intro other otherLine otherFront
        have bound := longest .comment ('/' :: '/' :: other) (.comment otherLine)
          ((List.prefix_cons_inj '/').mpr ((List.prefix_cons_inj '/').mpr otherFront))
        exact Nat.le_of_succ_le_succ (Nat.le_of_succ_le_succ bound)
  | quote =>
      obtain ⟨_, body, rfl, unquoted⟩ := completes
      obtain ⟨_, ownBody, rfl, ownUnquoted⟩ := ownCompletes
      obtain ⟨others, split⟩ := tailFront
      have same : body ++ '"' :: others = ownBody ++ '"' :: faded := by simpa using split
      have ends : ∀ {text rest : List Char}, '"' ∉ text →
          (text ++ '"' :: rest).takeWhile (fun d => decide (d ≠ '"')) = text := by
        intro text rest noQuote
        refine (takeWhile_append_stop (fun d inside => ?_) (by decide)).1
        exact decide_eq_true fun isQuote => noQuote (isQuote ▸ inside)
      -- Both strings end at the first quote of the same text.
      have sameBody : body = ownBody := by
        rw [← ends unquoted, same, ends ownUnquoted]
      rw [sameBody]

/-- A character that starts nothing is no white space. -/
theorem Leads.exists_of_unexpected {text : List Char} {s : Segment} (leads : Leads text s)
    (isFault : s.cls = .unexpected) :
    ∃ c, s = ⟨.unexpected, [c]⟩ ∧ isBlank c = false := by
  cases leads with
  | lexeme member _ _ =>
      rw [isFault] at member
      nomatch member
  | unterminated _ _ => contradiction
  | @unexpected c rest starts _ none =>
      refine ⟨c, rfl, ?_⟩
      rw [Bool.eq_false_iff, Ne, isBlank_iff]
      intro separates
      exact none .blank [c] (.blank separates) ⟨rest, starts.symm⟩

/-- **The segment in front of a faded text stays as it is.** -/
theorem Leads.faded {text behind faded : List Char} {s : Segment} (leads : Leads text s)
    (splits : text = s.text ++ behind) (expected : s.cls ≠ .unexpected)
    (fades : Faded behind faded) : Leads (s.text ++ faded) s := by
  cases leads with
  | lexeme member _ longest =>
      rw [splits] at longest
      exact .lexeme member (List.prefix_append _ _) fun cls word lexeme front =>
        member.length_le_of_faded fades longest lexeme front
  | unterminated opens none =>
      -- It takes the whole rest, so nothing is left to be faded.
      obtain rfl : behind = [] := List.self_eq_append_right.mp splits
      cases fades with
      | nil =>
          rw [List.append_nil]
          exact .unterminated opens none
  | unexpected _ _ _ => exact absurd rfl expected

/-! ## A whole text -/

/-- The text of segments that are blanked out. -/
def blankedText (segs : List Segment) : List Char := (segs.map Segment.blanked).flatMap Segment.text

theorem blanked_of_expected {s : Segment} (expected : s.cls ≠ .unexpected) : s.blanked = s :=
  if_neg expected

theorem leads_space (behind : List Char) : Leads (' ' :: behind) ⟨.blank, [' ']⟩ :=
  leads_cut ' ' behind

/-- **A text and the same blanked out are cut at the same places.** -/
theorem Cuts.blanked {text : List Char} {segs : List Segment} (cuts : Cuts text segs) :
    Cuts (blankedText segs) (segs.map Segment.blanked) ∧ Faded text (blankedText segs) := by
  induction cuts with
  | done => exact ⟨.done, .nil⟩
  | @next text behind s rest splits leads _ inductionHypothesis =>
      obtain ⟨others, fades⟩ := inductionHypothesis
      have split : blankedText (s :: rest) = s.blanked.text ++ blankedText rest := rfl
      rw [List.map_cons, split]
      by_cases isFault : s.cls = .unexpected
      · obtain ⟨c, rfl, notBlank⟩ := leads.exists_of_unexpected isFault
        rw [splits]
        exact ⟨.next rfl (leads_space _) others, .cons (.inr ⟨notBlank, rfl⟩) fades⟩
      · rw [blanked_of_expected isFault, splits]
        exact ⟨.next rfl (leads.faded splits isFault fades) others, fades.append_left s.text⟩

theorem segments_blankedText (source : List Char) :
    segments (blankedText (segments source)) = (segments source).map Segment.blanked :=
  ((cuts_iff _ _).mp (cuts_segments source).blanked.1).symm

/-! ## The places of the faults -/

theorem faultsFrom_cons_of_expected {s : Segment} (expected : s.cls ≠ .unexpected)
    (before : List Char) (rest : List Segment) :
    faultsFrom before (s :: rest) = faultsFrom (before ++ s.text) rest := by
  simp [faultsFrom, reached, expected]

theorem faultsFrom_cons_of_unexpected (c : Char) (before : List Char) (rest : List Segment) :
    faultsFrom before (⟨.unexpected, [c]⟩ :: rest) =
      before.length :: faultsFrom (before ++ [c]) rest := by
  simp [faultsFrom, reached]

/-- Segments of which those that are unexpected are single characters, no white space. -/
def SingleFaults (segs : List Segment) : Prop :=
  ∀ s ∈ segs, s.cls = .unexpected → ∃ c, s = ⟨.unexpected, [c]⟩ ∧ isBlank c = false

theorem singleFaults_segments (source : List Char) : SingleFaults (segments source) := by
  intro s member isFault
  obtain ⟨rest, _, leads⟩ := exists_leads_of_mem_segments member
  exact leads.exists_of_unexpected isFault

theorem le_of_mem_faultsFrom {segs : List Segment} (single : SingleFaults segs) :
    ∀ {before : List Char} {i : Nat}, i ∈ faultsFrom before segs → before.length ≤ i := by
  induction segs with
  | nil =>
      intro before i member
      contradiction
  | cons s rest inductionHypothesis =>
      intro before i member
      obtain ⟨own, others⟩ := List.forall_mem_cons.mp single
      have later : ∀ {text : List Char}, i ∈ faultsFrom (before ++ text) rest →
          before.length ≤ i := by
        intro text inRest
        have bound := inductionHypothesis others inRest
        rw [List.length_append] at bound
        omega
      by_cases isFault : s.cls = .unexpected
      · obtain ⟨c, rfl, _⟩ := own isFault
        rw [faultsFrom_cons_of_unexpected] at member
        rcases List.mem_cons.mp member with rfl | inRest
        · exact Nat.le_refl _
        · exact later inRest
      · rw [faultsFrom_cons_of_expected isFault] at member
        exact later member

/-- Blanking out the segments puts a space at each of the places, and nothing else. -/
theorem blankedText_eq_mapIdx {segs : List Segment} (single : SingleFaults segs) :
    ∀ before : List Char, blankedText segs =
      (segs.flatMap Segment.text).mapIdx fun i c =>
        if before.length + i ∈ faultsFrom before segs then ' ' else c := by
  induction segs with
  | nil =>
      intro before
      rfl
  | cons s rest inductionHypothesis =>
      intro before
      obtain ⟨own, others⟩ := List.forall_mem_cons.mp single
      have split : blankedText (s :: rest) = s.blanked.text ++ blankedText rest := rfl
      rw [split, inductionHypothesis others (before ++ s.text), List.flatMap_cons,
        List.mapIdx_append]
      by_cases isFault : s.cls = .unexpected
      · obtain ⟨c, rfl, _⟩ := own isFault
        rw [faultsFrom_cons_of_unexpected]
        congr 1
        · simp [Segment.blanked]
        · apply List.mapIdx_eq_mapIdx_iff.mpr
          intro i _
          simp [Nat.add_assoc, Nat.add_comm 1 i]
      · rw [faultsFrom_cons_of_expected isFault, blanked_of_expected isFault]
        congr 1
        · -- All places of the other segments lie behind this one.
          have untouched : ∀ i < s.text.length,
              before.length + i ∉ faultsFrom (before ++ s.text) rest := by
            intro i inside member
            have bound := le_of_mem_faultsFrom others member
            rw [List.length_append] at bound
            omega
          apply List.ext_getElem
          · simp
          · intro i inside _
            simp [untouched i inside]
        · apply List.mapIdx_eq_mapIdx_iff.mpr
          intro i _
          simp [Nat.add_assoc, Nat.add_comm s.text.length i]

theorem toList_blankedOut (source : String) :
    (blankedOut source).toList = blankedText (segments source.toList) := by
  have law := blankedText_eq_mapIdx (singleFaults_segments source.toList) []
  rw [law, segments_flatMap_text, blankedOut, String.toList_ofList]
  simp only [List.length_nil, Nat.zero_add]
  rfl

/-! ## Places and characters -/

theorem pairwise_faultsFrom {segs : List Segment} (single : SingleFaults segs) :
    ∀ before : List Char, (faultsFrom before segs).Pairwise (· < ·) := by
  induction segs with
  | nil =>
      intro before
      exact .nil
  | cons s rest inductionHypothesis =>
      intro before
      obtain ⟨own, others⟩ := List.forall_mem_cons.mp single
      by_cases isFault : s.cls = .unexpected
      · obtain ⟨c, rfl, _⟩ := own isFault
        rw [faultsFrom_cons_of_unexpected]
        refine .cons (fun i later => ?_) (inductionHypothesis others _)
        have bound := le_of_mem_faultsFrom others later
        rw [List.length_append] at bound
        exact bound
      · rw [faultsFrom_cons_of_expected isFault]
        exact inductionHypothesis others _

/-- A segment that is unexpected ends with the one character behind the text in front of
it. -/
theorem exists_of_reached_unexpected {source : List Char} {p : Segment × List Char}
    (member : p ∈ reached [] (segments source)) (isFault : p.1.cls = .unexpected) :
    ∃ front c behind, source = front ++ c :: behind ∧ p.2 = front ++ [c] ∧ isBlank c = false := by
  obtain ⟨before, after, split, isText⟩ := exists_of_mem_reached member
  have inside : p.1 ∈ segments source := by
    rw [split]
    exact List.mem_append_right before List.mem_cons_self
  obtain ⟨c, isChar, notBlank⟩ := singleFaults_segments source p.1 inside isFault
  have whole := segments_flatMap_text source
  rw [split, isChar, List.flatMap_append, List.flatMap_cons] at whole
  refine ⟨before.flatMap Segment.text, c, after.flatMap Segment.text, whole.symm, ?_, notBlank⟩
  rw [isText, isChar, List.nil_append]

theorem exists_of_mem_faultPlaces {source : List Char} {i : Nat} (member : i ∈ faultPlaces source) :
    ∃ c, source[i]? = some c ∧ isBlank c = false := by
  obtain ⟨p, isReached, isPlace⟩ := List.mem_filterMap.mp member
  split at isPlace
  · rename_i isFault
    obtain ⟨front, c, behind, rfl, isText, notBlank⟩ :=
      exists_of_reached_unexpected isReached isFault
    obtain rfl : front.length = i := by simpa [isText] using isPlace
    exact ⟨c, by simp, notBlank⟩
  · contradiction

theorem getElem?_blankedOut (source : String) (i : Nat) :
    (blankedOut source).toList[i]? =
      source.toList[i]?.map fun c => if i ∈ faultPlaces source.toList then ' ' else c := by
  rw [blankedOut, String.toList_ofList, List.getElem?_mapIdx]

/-- As many characters differ as there are segments that are unexpected. -/
theorem countP_blankedText {segs : List Segment} (single : SingleFaults segs) :
    ((segs.flatMap Segment.text).zip (blankedText segs)).countP (fun p => p.1 ≠ p.2) =
      segs.countP fun s => s.cls = .unexpected := by
  induction segs with
  | nil => rfl
  | cons s rest inductionHypothesis =>
      obtain ⟨own, others⟩ := List.forall_mem_cons.mp single
      have split : blankedText (s :: rest) = s.blanked.text ++ blankedText rest := rfl
      rw [split, List.flatMap_cons, List.countP_cons]
      by_cases isFault : s.cls = .unexpected
      · obtain ⟨c, rfl, notBlank⟩ := own isFault
        have changed : c ≠ ' ' := by
          rintro rfl
          contradiction
        show ((c :: rest.flatMap Segment.text).zip (' ' :: blankedText rest)).countP _ = _
        rw [List.zip_cons_cons, List.countP_cons, inductionHypothesis others]
        simp [changed]
      · have same : (s.text.zip s.text).countP (fun p => p.1 ≠ p.2) = 0 := by
          rw [← List.map_id s.text, List.zip_map', List.countP_map, List.countP_eq_zero]
          simp
        rw [blanked_of_expected isFault, List.zip_append rfl, List.countP_append, same,
          inductionHypothesis others]
        simp [isFault]

/-- As many errors are about unexpected characters as there are segments that are
unexpected. -/
theorem countP_errorsOn (segs : List Segment) :
    ∀ line : UInt32, (errorsOn line segs).countP (fun e => e.fault = .unexpectedCharacter) =
      segs.countP fun s => s.cls = .unexpected := by
  induction segs with
  | nil =>
      intro line
      rfl
  | cons s rest inductionHypothesis =>
      intro line
      have own : (s.error? (line + s.lines)).toList.countP
          (fun e => e.fault = .unexpectedCharacter) = if s.cls = .unexpected then 1 else 0 := by
        cases isClass : s.cls <;> simp [Segment.error?, isClass]
      simp [own, inductionHypothesis, List.countP_cons, Nat.add_comm]

/-! ## Scanning -/

theorem lines_blanked {segs : List Segment} (single : SingleFaults segs) :
    ∀ s ∈ segs, s.blanked.lines = s.lines := by
  intro s member
  by_cases isFault : s.cls = .unexpected
  · obtain ⟨c, rfl, notBlank⟩ := single s member isFault
    have notBreak : c ≠ '\n' := by
      rintro rfl
      contradiction
    simp [Segment.blanked, Segment.lines, notBreak]
  · rw [blanked_of_expected isFault]

theorem placed_blanked {segs : List Segment}
    (sameLines : ∀ s ∈ segs, s.blanked.lines = s.lines) :
    ∀ line : UInt32, placed line (segs.map Segment.blanked) =
      (placed line segs).map fun p => (p.1.blanked, p.2) := by
  induction segs with
  | nil =>
      intro line
      rfl
  | cons s rest inductionHypothesis =>
      intro line
      obtain ⟨own, others⟩ := List.forall_mem_cons.mp sameLines
      simp only [List.map_cons, placed, own, inductionHypothesis others]

theorem token?_blanked (s : Segment) (line : UInt32) : s.blanked.token? line = s.token? line := by
  by_cases isFault : s.cls = .unexpected
  · simp [Segment.blanked, Segment.token?, isFault]
  · rw [blanked_of_expected isFault]

/-- Blanked out, a segment keeps its error only if it is an open string. -/
theorem error?_blanked (s : Segment) (line : UInt32) :
    s.blanked.error? line =
      (s.error? line).filter fun e => e.fault = .unterminatedString := by
  unfold Segment.blanked Segment.error?
  cases isClass : s.cls <;> simp [isClass, Option.filter]

theorem endLine_blanked {segs : List Segment}
    (sameLines : ∀ s ∈ segs, s.blanked.lines = s.lines) (line : UInt32) :
    endLine line (segs.map Segment.blanked) = endLine line segs := by
  rw [endLine, endLine, List.foldl_map]
  exact List.foldl_ext _ _ line fun current s member => by rw [sameLines s member]

/-- The errors about unexpected characters, in order, by the places of the characters. -/
theorem filter_errors_unexpected (source : String) :
    (scan source).errors.filter (fun e => e.fault = .unexpectedCharacter) =
      (faultPlaces source.toList).map fun i =>
        ⟨1 + UInt32.ofNat (newlines (source.toList.take i)), .unexpectedCharacter⟩ := by
  have onLines : placed 1 (segments source.toList) = (reached [] (segments source.toList)).map
      fun p => (p.1, 1 + UInt32.ofNat (newlines p.2)) :=
    placed_eq_reached (segments source.toList) []
  rw [scan_errors, errorsOn, onLines, List.filterMap_map, List.filter_filterMap, faultPlaces,
    faultsFrom, List.map_filterMap]
  refine List.filterMap_congr fun p member => ?_
  by_cases isFault : p.1.cls = .unexpected
  · obtain ⟨front, c, behind, isSource, isText, notBlank⟩ :=
      exists_of_reached_unexpected member isFault
    have notBreak : c ≠ '\n' := by
      rintro rfl
      contradiction
    have sameLine : newlines (front ++ [c]) = newlines front := by
      simp [newlines, notBreak]
    simp [Segment.error?, isFault, isText, isSource, sameLine]
  · unfold Segment.error?
    cases isClass : p.1.cls <;> simp [isClass] at isFault ⊢

/-- What holds of a source and the same with spaces in place of the characters that are
reported. -/
structure IsolatedFaults (source blanked : String) : Prop where
  /-- The errors about unexpected characters are about these places, one for each. -/
  reported : (scan source).errors.filter (fun e => e.fault = .unexpectedCharacter) =
    (faultPlaces source.toList).map fun i =>
      ⟨1 + UInt32.ofNat (newlines (source.toList.take i)), .unexpectedCharacter⟩
  increasing : (faultPlaces source.toList).Pairwise (· < ·)
  replaced : ∀ i ∈ faultPlaces source.toList, ∃ c, source.toList[i]? = some c ∧ c ≠ ' ' ∧
    blanked.toList[i]? = some ' '
  kept : ∀ i, i ∉ faultPlaces source.toList → blanked.toList[i]? = source.toList[i]?
  /-- There are as many of them as characters that differ. -/
  counted : (scan source).errors.countP (fun e => e.fault = .unexpectedCharacter) =
    (source.toList.zip blanked.toList).countP fun p => p.1 ≠ p.2
  /-- All other segments, strings and comments among them, stay as they are. -/
  cut : segments blanked.toList = (segments source.toList).map Segment.blanked
  tokens : (scan blanked).tokens = (scan source).tokens
  errors : (scan blanked).errors =
    (scan source).errors.filter fun e => e.fault = .unterminatedString

/-- **Unexpected characters are isolated.** With a space in place of every character that is
reported, a source is scanned as the same tokens on the same lines, and the only error that
remains is that about an open string. -/
theorem faults_isolated (source : String) : IsolatedFaults source (blankedOut source) := by
  have single := singleFaults_segments source.toList
  have sameLines := lines_blanked single
  have cut : segments (blankedOut source).toList =
      (segments source.toList).map Segment.blanked := by
    rw [toList_blankedOut, segments_blankedText]
  refine ⟨filter_errors_unexpected source, pairwise_faultsFrom single [], ?_, ?_, ?_, cut, ?_, ?_⟩
  · intro i member
    obtain ⟨c, isChar, notBlank⟩ := exists_of_mem_faultPlaces member
    refine ⟨c, isChar, ?_, by simp [getElem?_blankedOut, isChar, member]⟩
    rintro rfl
    contradiction
  · intro i other
    simp [getElem?_blankedOut, other]
  · have counted := countP_blankedText single
    rw [segments_flatMap_text, ← toList_blankedOut] at counted
    rw [counted, scan_errors, countP_errorsOn]
  · rw [scan_tokens, scan_tokens, cut, endLine_blanked sameLines, tokensOn, tokensOn,
      placed_blanked sameLines, List.filterMap_map]
    simp only [Function.comp_def, token?_blanked]
  · rw [scan_errors, scan_errors, cut, errorsOn, errorsOn, placed_blanked sameLines,
      List.filterMap_map, List.filter_filterMap]
    simp only [Function.comp_def, error?_blanked]

/-- The same character is reported between two numbers, and not in a string or a comment. -/
example : blankedOut "1@2 \"@\" //@" = "1 2 \"@\" //@" := by
  decide +kernel

end LoxCalc
