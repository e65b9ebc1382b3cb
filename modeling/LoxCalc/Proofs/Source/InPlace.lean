import LoxCalc.Proofs.Source.Literal
import LoxCalc.Proofs.Source.Walk

/-!
Contract: a scan in place finds the segments of its text and never leaves it.

Owns:
- `past`, the cursor behind a segment with what was found in it;
- `scanToken_runs`, that one token is scanned as the segment in front is cut;
- `scanTokens_runs`, the scan of a whole text, token by token;
- `scan_inPlace_safe`, that it comes to an end with the tokens and errors of `scan`, all of its
  calls safe, in at most as many turns as there are characters.

An operation that is called behind the end of the text, or that would cut in the middle of a
character, leaves the scan without a result or breaks `Call.Safe`, so a bound that is missed
anywhere in the inner loops would be seen here.
-/

set_option autoImplicit false

namespace LoxCalc

open Segment

namespace Cursor

/-- The cursor behind a segment, with what is found in it. -/
def past (p : Cursor) (s : Segment) : Cursor := (p.pass s.text).found s

section

variable {source : String} {p : Cursor} {c : Char} {rest : List Char}

theorem Faces.past {s : Segment} {behind : List Char}
    (faces : Faces source p (s.text ++ behind)) : Faces source (p.past s) behind :=
  faces.pass.of_places rfl rfl

/-- A part of a token, scanned behind its first character, is called safely. -/
theorem Faces.calledBehind {op : Op} {body : Scanning Unit} {s : Segment} {tail behind : List Char}
    (faces : Faces source p (c :: tail ++ behind)) (isText : s.text = c :: tail)
    (inner : op ≠ .scanToken) (demands : ∀ current behind, op.Demands source current behind)
    (runs : Runs source 0 body (p.pass [c]) () (p.past s)) :
    Runs source 0 (Cursor.called op body) (p.pass [c]) () (p.past s) := by
  have split : Faces source p ([c] ++ (tail ++ behind)) := faces
  have onward := split.pass
  have whole : Faces source p (s.text ++ behind) := isText ▸ faces
  refine onward.called whole.past ?_ inner (demands _ _) runs
  have longer : [c].length ≤ s.text.length := by
    rw [isText]
    exact Nat.succ_le_succ (Nat.zero_le _)
  exact Nat.add_le_add_left longer p.current

/-! ## Words -/

theorem word_runs (faces : Faces source p (c :: rest)) (fresh : p.start = p.current) :
    Runs source 0 (word source) (p.pass [c]) () (p.past (cutWord c rest).1) := by
  have whole : Faces source p (c :: rest.takeWhile isWordPart ++ rest.dropWhile isWordPart) := by
    rwa [List.cons_append, List.takeWhile_append_dropWhile]
  have passed := passWhile_runs [c] faces isWordPart (by decide) (by decide)
  have read := lexeme_runs whole.pass
  rw [whole.extract_pass fresh] at read
  have filed := addToken_runs _ whole fresh
    (Kind.ofWord (String.ofList (c :: rest.takeWhile isWordPart)))
  rw [literalOf_ofWord] at filed
  exact whole.calledBehind rfl (by decide) (fun _ _ => trivial) (passed.bind (read.bind filed))

/-! ## Numbers -/

/-- A point and the digits behind it, if there are any. -/
def fractionOf : List Char → List Char
  | '.' :: d :: behind => if d.isDigit then '.' :: d :: behind.takeWhile Char.isDigit else []
  | _ => []

theorem cutDigits_eq (c : Char) (rest : List Char) :
    (cutDigits c rest).1 = ⟨.token .number,
      c :: (rest.takeWhile Char.isDigit ++ fractionOf (rest.dropWhile Char.isDigit))⟩ := by
  unfold cutDigits
  split
  · rename_i d behind atPoint
    rw [atPoint, fractionOf]
    split
    · rfl
    · rw [List.append_nil]
  · rename_i notPoint
    have none : fractionOf (rest.dropWhile Char.isDigit) = [] := by
      unfold fractionOf
      split
      · rename_i d behind atPoint
        exact absurd atPoint (notPoint d behind)
      · rfl
    rw [none, List.append_nil]

theorem fractionOf_prefix (text : List Char) : fractionOf text <+: text := by
  unfold fractionOf
  split
  · split
    · exact (List.prefix_cons_inj _).mpr
        ((List.prefix_cons_inj _).mpr (List.takeWhile_prefix _))
    · exact List.nil_prefix
  · exact List.nil_prefix

theorem fraction_runs (faces : Faces source p rest) :
    Runs source 0 (fraction source) p () (p.pass (fractionOf rest)) := by
  refine (peek_runs faces).bind ?_
  by_cases atPoint : rest.headD '\x00' = '.'
  · rw [if_pos atPoint]
    cases rest with
    | nil => contradiction
    | cons c behind =>
        obtain rfl : c = '.' := atPoint
        refine (peekNext_runs faces).bind ?_
        cases behind with
        | nil =>
            rw [fractionOf, pass_nil]
            · exact .pure ()
            · exact nofun
        | cons d behind =>
            rw [List.headD_cons, fractionOf]
            by_cases digit : d.isDigit = true
            · rw [if_pos digit, if_pos digit]
              have digits := passWhile_runs ['.'] faces Char.isDigit (by decide) (by decide)
              rw [List.takeWhile_cons_of_pos digit] at digits
              exact (advance_pass faces (by decide)).bind digits
            · rw [if_neg digit, if_neg digit, pass_nil]
              exact .pure ()
  · rw [if_neg atPoint]
    have none : fractionOf rest = [] := by
      unfold fractionOf
      split
      · exact absurd rfl atPoint
      · rfl
    rw [none, pass_nil]
    exact .pure ()

theorem number_runs (faces : Faces source p (c :: rest)) (fresh : p.start = p.current) :
    Runs source 0 (number source) (p.pass [c]) () (p.past (cutDigits c rest).1) := by
  have passed := passWhile_runs [c] faces Char.isDigit (by decide) (by decide)
  have passedFraction := fraction_runs (faces.pass_takeWhile [c] Char.isDigit)
  rw [← pass_append, List.append_assoc] at passedFraction
  obtain ⟨behind, isRest⟩ := fractionOf_prefix (rest.dropWhile Char.isDigit)
  have whole : Faces source p
      (c :: (rest.takeWhile Char.isDigit ++ fractionOf (rest.dropWhile Char.isDigit)) ++
        behind) := by
    rwa [List.cons_append, List.append_assoc, isRest, List.takeWhile_append_dropWhile]
  have read := lexeme_runs whole.pass
  rw [whole.extract_pass fresh] at read
  rw [cutDigits_eq]
  refine whole.calledBehind rfl (by decide) (fun _ _ => trivial)
    (passed.bind (passedFraction.bind (read.bind ?_)))
  rw [String.toList_ofList]
  exact addToken_runs _ whole fresh .number

/-! ## Strings -/

/-- The text between the quotes, cut out behind the closing quote. -/
theorem slice_body {body behind : List Char}
    (faces : Faces source p ('"' :: (body ++ ['"']) ++ behind)) (fresh : p.start = p.current) :
    let q := p.pass ('"' :: (body ++ ['"']))
    Runs source 0 (slice source (q.start + 1) (q.current - 1)) q (String.ofList body) q := by
  intro q
  have current : q.current = p.current + 1 + body.length + 1 := by
    simp only [q, Cursor.pass, List.length_cons, List.length_append, List.length_nil]
    omega
  have onBody : Faces source (p.pass ['"']) (body ++ '"' :: behind) := by
    refine Faces.pass ?_
    simpa using faces
  have isBody : source.toList.extract (q.start + 1) (q.current - 1) = body := by
    have ahead : source.toList.drop (p.current + 1) = body ++ '"' :: behind := onBody.ahead
    have start : q.start = p.current := fresh
    rw [List.extract_eq_take_drop, start, current, ahead, Nat.add_sub_cancel,
      Nat.add_sub_cancel_left, List.take_left]
  have onBehind : Faces source q behind := faces.pass
  have inside := onBehind.inside
  have start : q.start = p.current := fresh
  have ordered : q.start + 1 ≤ q.current - 1 := by omega
  have cuts := slice_runs onBehind ordered (by omega)
  rwa [isBody] at cuts

/-- Behind an opening quote, everything in front of the next quote is passed. -/
theorem quoted_runs (faces : Faces source p ('"' :: rest)) :
    Runs source 0 (repeatWhile source (staysBefore source '"') (passQuoted source))
      (p.pass ['"']) () (p.pass ('"' :: rest.takeWhile (· ≠ '"'))) := by
  have onward : Faces source (p.pass ['"']) rest := faces.pass
  have passed := repeatWhile_pass (fun q others stands => staysBefore_runs stands '"')
    (fun q d others stands _ => passQuoted_runs stands) _ onward
  rw [← pass_append] at passed
  exact passed

theorem openString_runs (faces : Faces source p ('"' :: rest))
    (isOpen : rest.dropWhile (· ≠ '"') = []) :
    Runs source 0 (string source) (p.pass ['"']) () (p.past ⟨.unterminated, '"' :: rest⟩) := by
  have all := List.takeWhile_append_dropWhile (p := fun d : Char => decide (d ≠ '"')) (l := rest)
  rw [isOpen, List.append_nil] at all
  have passed := quoted_runs faces
  rw [all] at passed
  have toEnd : Faces source p ('"' :: rest ++ []) := by rwa [List.append_nil]
  exact toEnd.calledBehind rfl (by decide) (fun _ _ => trivial)
    (passed.bind ((isAtEnd_runs toEnd.pass).bind (report_runs _ (fun _ => rfl) fun _ => rfl)))

theorem closedString_runs (faces : Faces source p ('"' :: rest)) (fresh : p.start = p.current)
    {behind : List Char} (closes : rest.dropWhile (· ≠ '"') = '"' :: behind) :
    Runs source 0 (string source) (p.pass ['"']) ()
      (p.past ⟨.token .string, '"' :: (rest.takeWhile (· ≠ '"') ++ ['"'])⟩) := by
  have passed := quoted_runs faces
  have onQuote := faces.pass_takeWhile ['"'] fun d : Char => decide (d ≠ '"')
  have whole := List.takeWhile_append_dropWhile (p := fun d : Char => decide (d ≠ '"')) (l := rest)
  rw [closes] at onQuote whole
  generalize rest.takeWhile (· ≠ '"') = body at *
  have closed : Faces source p ('"' :: (body ++ ['"']) ++ behind) := by
    rwa [List.cons_append, List.append_assoc, List.singleton_append, whole]
  have closing := advance_pass onQuote (by decide)
  rw [← pass_append, List.append_assoc] at closing
  have filed := addToken_runs _ closed fresh .string
  rw [literalOf_quoted] at filed
  exact closed.calledBehind rfl (by decide) (fun _ _ => trivial)
    (passed.bind ((isAtEnd_runs onQuote).bind (closing.bind
      (look_runs.bind ((slice_body closed fresh).bind filed)))))

theorem string_runs (faces : Faces source p ('"' :: rest)) (fresh : p.start = p.current) :
    Runs source 0 (string source) (p.pass ['"']) () (p.past (cutQuote rest).1) := by
  unfold cutQuote
  split
  · rename_i isOpen
    exact openString_runs faces isOpen
  · rename_i quote behind closes
    have atQuote := List.head?_dropWhile_not (fun d : Char => decide (d ≠ '"')) rest
    rw [closes] at atQuote
    obtain rfl : quote = '"' := by simpa using atQuote
    exact closedString_runs faces fresh closes

/-! ## Tokens -/

theorem joinable_runs {alone joined : Kind} (faces : Faces source p (c :: rest))
    (fresh : p.start = p.current) (isJoinable : joinable? c = some (alone, joined)) :
    Runs source 0 (do
      if ← accept source '=' then addToken source joined none
      else addToken source alone none) (p.pass [c]) ()
      (p.past (cutJoinable c alone joined rest).1) := by
  obtain ⟨aloneListed, joinedListed⟩ := joinable?_listed isJoinable
  have onward : Faces source (p.pass [c]) rest := faces.pass
  unfold cutJoinable
  split
  · rename_i behind
    have filed := addToken_runs [c, '='] faces fresh joined
    rw [literalOf_fixed joinedListed] at filed
    have accepted := accept_runs onward (by decide)
    rw [← pass_append] at accepted
    exact accepted.bind filed
  · rename_i noEqual
    have filed := addToken_runs [c] faces fresh alone
    rw [literalOf_fixed aloneListed] at filed
    exact (accept_refuses onward noEqual).bind filed

theorem slash_runs (faces : Faces source p ('/' :: rest)) (fresh : p.start = p.current) :
    Runs source 0 (do
      if ← accept source '/' then
        repeatWhile source (staysBefore source '\n') (discard (advance source))
      else addToken source .slash none) (p.pass ['/']) () (p.past (cutSlash rest).1) := by
  have onward : Faces source (p.pass ['/']) rest := faces.pass
  unfold cutSlash
  split
  · rename_i body
    have accepted := accept_runs onward (by decide)
    rw [← pass_append] at accepted
    have onBody : Faces source (p.pass ['/', '/']) body := faces.pass
    have passed := repeatWhile_pass (fun q others stands => staysBefore_runs stands '\n')
      (fun q d others stands goesOn => advance_pass stands (of_decide_eq_true goesOn)) _ onBody
    rw [← pass_append] at passed
    rw [past, found_eq_self _ (fun _ => rfl) (fun _ => rfl)]
    exact accepted.bind passed
  · rename_i noSlash
    have filed := addToken_runs ['/'] faces fresh .slash
    exact (accept_refuses onward noSlash).bind filed

theorem scanBehind_runs (faces : Faces source p (c :: rest)) (fresh : p.start = p.current)
    (sameLine : c ≠ '\n') :
    Runs source 0 (scanBehind source c) (p.pass [c]) () (p.past (cut c rest).1) := by
  unfold scanBehind cut
  cases isSymbol : symbol? c with
  | some kind =>
      have filed := addToken_runs [c] faces fresh kind
      rw [literalOf_fixed (symbol?_listed isSymbol)] at filed
      exact filed
  | none =>
      cases isJoinable : joinable? c with
      | some kinds => exact joinable_runs faces fresh isJoinable
      | none =>
          simp only [sameLine, ↓reduceIte]
          split
          · rename_i isSlash
            subst isSlash
            exact slash_runs faces fresh
          split
          · rename_i blank
            rw [past, found_eq_self _ (fun _ => rfl) (fun _ => rfl)]
            exact .pure ()
          split
          · rename_i isQuote
            subst isQuote
            exact string_runs faces fresh
          split
          · exact number_runs faces fresh
          split
          · exact word_runs faces fresh
          · exact report_runs _ (fun _ => rfl) fun _ => rfl

/-- Behind its first character a token is scanned on as the segment in front is cut. -/
theorem firstStep_runs (faces : Faces source p (c :: rest)) (fresh : p.start = p.current) :
    Runs source 0 (do
      let c ← advance source
      scanBehind source c) p () (p.past (cut c rest).1) := by
  refine (advance_runs faces).bind ?_
  by_cases isBreak : c = '\n'
  · subst isBreak
    have isFound : p.past (cut '\n' rest).1 =
        { p with current := p.current + 1, line := p.line + 1 } :=
      found_eq_self _ (fun _ => rfl) (fun _ => rfl)
    have breaksLine : scanBehind source '\n' = nextLine := rfl
    rw [isFound, breaksLine]
    exact move_runs _
  · have moved := scanBehind_runs faces fresh isBreak
    rwa [pass_singleton p isBreak] at moved

theorem current_lt_past_cut (p : Cursor) (c : Char) (rest : List Char) :
    p.current < (p.past (cut c rest).1).current :=
  Nat.lt_add_of_pos_right (List.length_pos_iff.mpr (cut_text_ne_nil c rest))

theorem Faces.past_cut (faces : Faces source p (c :: rest)) :
    Faces source (p.past (cut c rest).1) (cut c rest).2 := by
  refine Faces.past ?_
  rwa [cut_append]

/-- One token is scanned as the segment in front is cut, in one turn that goes forward. -/
theorem scanToken_runs (faces : Faces source p (c :: rest)) (fresh : p.start = p.current) :
    Runs source 1 (scanToken source) p () (p.past (cut c rest).1) := by
  have further := current_lt_past_cut p c rest
  exact (firstStep_runs faces fresh).called
    ⟨faces.started, faces.inside, Nat.le_of_lt further, faces.past_cut.inside, further⟩

end

/-! ## The whole text -/

/-- The cursor behind the next segment, which starts where the cursor stands. -/
def turn (p : Cursor) (s : Segment) : Cursor := past { p with start := p.current } s

section

variable {source : String}

/-- The text is scanned segment by segment, one turn for each. -/
theorem turns_run (text : List Char) :
    ∀ p : Cursor, Faces source p text →
      Runs source (segments text).length
        (repeatWhile source (do return !(← isAtEnd source)) (do
          move fun p => { p with start := p.current }
          scanToken source)) p () ((segments text).foldl turn p) := by
  fun_induction segments text with
  | case1 =>
      intro p faces
      exact repeatWhile_stop ((isAtEnd_runs faces).bind (.pure _))
  | case2 c rest inductionHypothesis =>
      intro p faces
      have started : Faces source { p with start := p.current } (c :: rest) :=
        ⟨Nat.le_refl _, faces.inside, faces.ahead⟩
      have behind : Faces source (p.turn (cut c rest).1) (cut c rest).2 := started.past_cut
      exact repeatWhile_next ((isAtEnd_runs faces).bind (.pure _))
        ((move_runs _).bind (scanToken_runs started rfl)) (current_lt_past_cut _ c rest)
        behind.inside (inductionHypothesis (p.turn (cut c rest).1) behind)

/-- What is found in segments that follow one another, and the line behind them. -/
theorem foldl_turn (segs : List Segment) :
    ∀ p : Cursor, (segs.foldl turn p).tokens = p.tokens ++ tokensOn p.line segs ∧
      (segs.foldl turn p).errors = p.errors ++ errorsOn p.line segs ∧
      (segs.foldl turn p).line = endLine p.line segs := by
  induction segs with
  | nil =>
      intro p
      exact ⟨(List.append_nil _).symm, (List.append_nil _).symm, rfl⟩
  | cons s rest inductionHypothesis =>
      intro p
      obtain ⟨tokens, errors, line⟩ := inductionHypothesis (p.turn s)
      have own : (p.turn s).line = p.line + s.lines := rfl
      rw [own] at tokens errors line
      refine ⟨?_, ?_, line⟩
      · rw [List.foldl_cons, tokens, tokensOn_cons, ← List.append_assoc]
        rfl
      · rw [List.foldl_cons, errors, errorsOn_cons, ← List.append_assoc]
        rfl

/-- The cursor at the end of a text, with the end mark. -/
def finished (source : String) : Cursor :=
  let last := (segments source.toList).foldl turn unstarted.cursor
  { last with tokens := last.tokens ++ [Token.eof last.line] }

theorem scanTokens_runs (source : String) :
    Runs source (segments source.toList).length (scanTokens source) unstarted.cursor ()
      (finished source) := by
  have faces : Faces source unstarted.cursor source.toList :=
    ⟨Nat.le_refl _, Nat.zero_le _, rfl⟩
  have whole : Runs source (0 + (segments source.toList).length) (scanTokens source)
      unstarted.cursor () (finished source) :=
    (turns_run source.toList unstarted.cursor faces).append (move_runs _)
  rwa [Nat.zero_add] at whole

theorem finished_tokens (source : String) : (finished source).tokens = (scan source).tokens := by
  obtain ⟨tokens, _, line⟩ := foldl_turn (segments source.toList) unstarted.cursor
  rw [scan_tokens, finished, tokens, line]
  rfl

theorem finished_errors (source : String) : (finished source).errors = (scan source).errors := by
  obtain ⟨_, errors, _⟩ := foldl_turn (segments source.toList) unstarted.cursor
  rw [scan_errors, finished, errors]
  rfl

theorem finished_line (source : String) :
    (finished source).line = endLine 1 (segments source.toList) :=
  (foldl_turn (segments source.toList) unstarted.cursor).2.2

end

end Cursor

/-! ## Bounds -/

/-- A text has no more segments than characters. -/
theorem length_segments_le (text : List Char) : (segments text).length ≤ text.length := by
  fun_induction segments text with
  | case1 => exact Nat.le_refl _
  | case2 c rest inductionHypothesis =>
      have shorter := cut_rest_length_lt c rest
      rw [List.length_cons]
      omega

/-- Segments hold no more tokens than there are segments. -/
theorem length_tokensOn_le (segs : List Segment) :
    ∀ line : UInt32, (tokensOn line segs).length ≤ segs.length := by
  induction segs with
  | nil =>
      intro line
      exact Nat.le_refl _
  | cons s rest inductionHypothesis =>
      intro line
      have own : (s.token? (line + s.lines)).toList.length ≤ 1 := Option.length_toList_le
      have others := inductionHypothesis (line + s.lines)
      rw [tokensOn_cons, List.length_append, List.length_cons]
      omega

/-- **A scan in place never leaves its text.** It comes to an end with the tokens and errors of
`scan`. At each of its calls the start of the lexeme, the cursor and the end of the text are in
order, a text is cut out only between places in order and inside the text and is what stands
there, the cursor is never advanced at the end, and each turn moves it on. So there are no more
turns than characters, and no more tokens in front of the end mark. -/
theorem scan_inPlace_safe (source : String) :
    ∃ s : Cursor.Recording,
      (Cursor.scanTokens source).run Cursor.unstarted = some ((), s) ∧
        s.cursor.tokens = (scan source).tokens ∧ s.cursor.errors = (scan source).errors ∧
        (∀ call ∈ s.calls, call.Safe source) ∧
        s.calls.countP Cursor.Call.isTurn = (segments source.toList).length ∧
        s.calls.countP Cursor.Call.isTurn ≤ source.length ∧
        ∃ body, s.cursor.tokens = body ++ [Token.eof s.cursor.line] ∧
          body.length ≤ source.length := by
  have fewSegments := length_segments_le source.toList
  rw [String.length_toList] at fewSegments
  obtain ⟨calls, run, safe, turns⟩ := Cursor.scanTokens_runs source []
  rw [List.append_nil] at run
  refine ⟨_, run, Cursor.finished_tokens source, Cursor.finished_errors source, safe, turns,
    ?_, tokensOn 1 (segments source.toList), ?_, ?_⟩
  · rw [turns]
    exact fewSegments
  · rw [Cursor.finished_tokens, Cursor.finished_line, scan_tokens]
  · exact Nat.le_trans (length_tokensOn_le _ _) fewSegments

end LoxCalc
