import LoxCalc.Parse.Reader

/-!
Contract: places in a list of tokens, and where a reader stands.

Owns:
- `streamFrom`, the stream that starts at a place;
- `TokenStream.position` and `Reader.after`, with the law that moves lead from place
  to place.

Does **not** own: what is read at a place.
-/

set_option autoImplicit false

namespace LoxCalc.Parse

/-! ## Places -/

/-- The stream of the tokens from a place on. -/
def streamFrom (tokens : List Token) (start : Nat) : TokenStream :=
  TokenStream.ofTokens ((completed tokens).drop start)

/-- The place of the first end mark, which is never passed. -/
def firstEof (tokens : List Token) : Nat := (completed tokens).findIdx Token.isEof

theorem TokenStream.ofTokens_marked {word : List Token} {mark : Token} (behind : List Token)
    (unmarked : ∀ t ∈ word, t.isEof = false) (isMark : mark.isEof = true) :
    TokenStream.ofTokens (word ++ mark :: behind) = ⟨word, mark⟩ := by
  have taken : (word ++ mark :: behind).takeWhile (fun t => !t.isEof) = word := by
    rw [List.takeWhile_append_of_pos]
    · simp [isMark]
    · intro t member
      simp [unmarked t member]
  have found : (word ++ mark :: behind).find? Token.isEof = some mark := by
    have unfound : word.find? Token.isEof = none := by simpa using unmarked
    rw [List.find?_append, unfound, List.find?_cons_of_pos isMark, Option.none_or]
  simp only [TokenStream.ofTokens, taken, found, Option.getD_some]

theorem exists_firstMark {tokens : List Token} (marked : ∃ t ∈ tokens, t.isEof = true) :
    ∃ word mark behind, tokens = word ++ mark :: behind ∧
      (∀ t ∈ word, t.isEof = false) ∧ mark.isEof = true := by
  have found : (tokens.find? Token.isEof).isSome = true := List.find?_isSome.mpr marked
  obtain ⟨mark, isFirst⟩ := Option.isSome_iff_exists.mp found
  obtain ⟨isMark, word, behind, split, unmarked⟩ := List.find?_eq_some_iff_append.mp isFirst
  refine ⟨word, mark, behind, split, ?_, isMark⟩
  intro t member
  simpa using unmarked t member

theorem missingEof_isEof (tokens : List Token) :
    (TokenStream.missingEof tokens).isEof = true :=
  rfl

theorem completed_eq_append (tokens : List Token) :
    ∃ marks, completed tokens = tokens ++ marks ∧ ∀ t ∈ marks, t.isEof = true := by
  unfold completed
  split
  · refine ⟨[], (List.append_nil tokens).symm, ?_⟩
    intro t member
    contradiction
  · refine ⟨_, rfl, ?_⟩
    exact List.forall_mem_singleton.mpr (missingEof_isEof tokens)

theorem completed_ends (tokens : List Token) :
    ∃ before mark, completed tokens = before ++ [mark] ∧ mark.isEof = true := by
  unfold completed
  cases isLast : tokens.getLast? with
  | none => exact ⟨tokens, _, rfl, missingEof_isEof tokens⟩
  | some last =>
      by_cases isMark : last.isEof = true
      · obtain ⟨before, split⟩ := List.getLast?_eq_some_iff.mp isLast
        exact ⟨before, last, by simp [isMark, split], isMark⟩
      · exact ⟨tokens, _, by simp [isMark], missingEof_isEof tokens⟩

theorem firstEof_lt (tokens : List Token) : firstEof tokens < (completed tokens).length := by
  obtain ⟨before, mark, split, isMark⟩ := completed_ends tokens
  rw [firstEof, List.findIdx_lt_length]
  refine ⟨mark, ?_, isMark⟩
  rw [split]
  exact List.mem_append_right before (List.mem_singleton_self mark)

/-- A stream that starts inside the list ends at an end mark. -/
theorem streamFrom_split {tokens : List Token} {start : Nat}
    (within : start < (completed tokens).length) :
    ∃ behind, (completed tokens).drop start =
        (streamFrom tokens start).pending ++ (streamFrom tokens start).finish :: behind ∧
      (∀ t ∈ (streamFrom tokens start).pending, t.isEof = false) ∧
      (streamFrom tokens start).finish.isEof = true := by
  have marked : ∃ t ∈ (completed tokens).drop start, t.isEof = true := by
    obtain ⟨before, mark, split, isMark⟩ := completed_ends tokens
    have inside : start ≤ before.length := by
      rw [split, List.length_append, List.length_singleton] at within
      omega
    refine ⟨mark, ?_, isMark⟩
    rw [split, List.drop_append_of_le_length inside]
    simp
  obtain ⟨word, mark, behind, split, unmarked, isMark⟩ := exists_firstMark marked
  have stream : streamFrom tokens start = ⟨word, mark⟩ := by
    rw [streamFrom, split, TokenStream.ofTokens_marked behind unmarked isMark]
  rw [stream]
  exact ⟨behind, split, unmarked, isMark⟩

theorem streamFrom_past {tokens : List Token} {start : Nat}
    (past : (completed tokens).length ≤ start) : (streamFrom tokens start).pending = [] := by
  rw [streamFrom, List.drop_of_length_le past]
  rfl

theorem streamFrom_zero (tokens : List Token) :
    streamFrom tokens 0 = TokenStream.ofTokens tokens := by
  rw [streamFrom, List.drop_zero, completed]
  split
  · rfl
  · by_cases marked : ∃ t ∈ tokens, t.isEof = true
    · obtain ⟨word, mark, behind, split, unmarked, isMark⟩ := exists_firstMark marked
      rw [split, List.append_assoc, List.cons_append,
        TokenStream.ofTokens_marked _ unmarked isMark,
        TokenStream.ofTokens_marked _ unmarked isMark]
    · have unmarked : ∀ t ∈ tokens, t.isEof = false := by simpa using marked
      rw [TokenStream.ofTokens_marked [] unmarked (missingEof_isEof tokens)]
      have taken : tokens.takeWhile (fun t => !t.isEof) = tokens := by
        rw [← List.append_nil tokens, List.takeWhile_append_of_pos]
        · rfl
        · simpa using unmarked
      have unfound : tokens.find? Token.isEof = none := by simpa using unmarked
      simp only [TokenStream.ofTokens, taken, unfound, Option.getD_none]

/-- The stream of a list of tokens is the list with its end mark, up to the first one. -/
theorem completed_split (tokens : List Token) :
    ∃ behind, completed tokens = (TokenStream.ofTokens tokens).pending ++
        (TokenStream.ofTokens tokens).finish :: behind ∧
      (∀ t ∈ (TokenStream.ofTokens tokens).pending, t.isEof = false) ∧
      (TokenStream.ofTokens tokens).finish.isEof = true := by
  obtain ⟨behind, split, unmarked, isMark⟩ :=
    streamFrom_split (Nat.zero_lt_of_lt (firstEof_lt tokens))
  rw [List.drop_zero] at split
  rw [streamFrom_zero] at split unmarked isMark
  exact ⟨behind, split, unmarked, isMark⟩

/-- Dropping tokens from the front of a stream moves its start. -/
theorem streamFrom_add {tokens : List Token} {start : Nat} {dropped rest : List Token}
    (split : (streamFrom tokens start).pending = dropped ++ rest) :
    streamFrom tokens (start + dropped.length) =
      { streamFrom tokens start with pending := rest } := by
  by_cases within : start < (completed tokens).length
  · obtain ⟨behind, whole, unmarked, isMark⟩ := streamFrom_split within
    rw [split] at whole unmarked
    have restUnmarked : ∀ t ∈ rest, t.isEof = false :=
      fun t member => unmarked t (List.mem_append_right dropped member)
    have remaining : (completed tokens).drop (start + dropped.length) =
        rest ++ (streamFrom tokens start).finish :: behind := by
      rw [← List.drop_drop, whole, List.append_assoc, List.drop_left]
    rw [streamFrom, remaining, TokenStream.ofTokens_marked behind restUnmarked isMark]
  · rw [streamFrom_past (Nat.le_of_not_lt within)] at split
    obtain ⟨rfl, rfl⟩ := List.append_eq_nil_iff.mp split.symm
    rw [List.length_nil, Nat.add_zero, ← streamFrom_past (Nat.le_of_not_lt within)]

/-! ## Where a reader stands -/

/-- The place of a stream: as many tokens before the first end mark as are still to be
read. -/
def TokenStream.position (tokens : List Token) (s : TokenStream) : Nat :=
  firstEof tokens - s.pending.length

/-- The reader after a list of moves. -/
def Reader.after (r : Reader) (moves : List Move) : Reader :=
  moves.foldl (fun reader m => (reader.move m).2) r

theorem Reader.move_of_ok {r : Reader} {e : Expr} (isOk : r.stream.parse.1 = .ok e) :
    r.move .parse = (some e, ⟨r.stream.parse.2, r.reports⟩) := by
  have parses : r.stream.parse = (.ok e, r.stream.parse.2) := Prod.ext isOk rfl
  rw [Reader.move, parses]

theorem Reader.move_of_error {r : Reader} {err : Error} (isError : r.stream.parse.1 = .error err) :
    r.move .parse = (none, ⟨r.stream.parse.2, r.reports ++ [Report.ofParse err]⟩) := by
  have parses : r.stream.parse = (.error err, r.stream.parse.2) := Prod.ext isError rfl
  rw [Reader.move, parses]

@[simp] theorem Reader.move_parse_stream (r : Reader) :
    (r.move .parse).2.stream = r.stream.parse.2 := by
  cases result : r.stream.parse.1 with
  | ok e => rw [Reader.move_of_ok result]
  | error err => rw [Reader.move_of_error result]

theorem Reader.move_stream (r : Reader) (m : Move) :
    ∃ dropped, r.stream.pending = dropped ++ (r.move m).2.stream.pending ∧
      (r.move m).2.stream.finish = r.stream.finish := by
  cases m with
  | parse =>
      rw [r.move_parse_stream]
      obtain ⟨dropped, split⟩ := r.stream.parse_pending_suffix
      exact ⟨dropped, split.symm, r.stream.parse_finish⟩
  | synchronize =>
      obtain ⟨dropped, split⟩ := r.stream.synchronize_pending_suffix
      exact ⟨dropped, split.symm, r.stream.synchronize_finish⟩

/-- A stream stands at its position, and the first end mark lies ahead. -/
def Stands (tokens : List Token) (s : TokenStream) : Prop :=
  s = streamFrom tokens (s.position tokens) ∧ s.pending.length ≤ firstEof tokens

theorem firstEof_eq (tokens : List Token) :
    firstEof tokens = (TokenStream.ofTokens tokens).pending.length := by
  obtain ⟨behind, split, unmarked, isMark⟩ := completed_split tokens
  have noneBefore :
      (TokenStream.ofTokens tokens).pending.findIdx Token.isEof =
        (TokenStream.ofTokens tokens).pending.length := by
    rw [List.findIdx_eq_length]
    exact unmarked
  rw [firstEof, split, List.findIdx_append, noneBefore]
  simp [List.findIdx_cons, isMark]

theorem stands_ofTokens (tokens : List Token) :
    Stands tokens (TokenStream.ofTokens tokens) := by
  refine ⟨?_, Nat.le_of_eq (firstEof_eq tokens).symm⟩
  rw [TokenStream.position, firstEof_eq, Nat.sub_self, streamFrom_zero]

theorem Stands.position_eq {tokens dropped : List Token} {s next : TokenStream}
    (stands : Stands tokens s) (split : s.pending = dropped ++ next.pending) :
    next.position tokens = s.position tokens + dropped.length := by
  have bounded := stands.2
  rw [split, List.length_append] at bounded
  simp only [TokenStream.position, split, List.length_append]
  omega

theorem Stands.moved {tokens dropped : List Token} {s next : TokenStream}
    (stands : Stands tokens s) (split : s.pending = dropped ++ next.pending)
    (sameFinish : next.finish = s.finish) : Stands tokens next := by
  have further := stands.position_eq split
  refine ⟨?_, ?_⟩
  · rw [stands.1] at split
    rw [further, streamFrom_add split, ← stands.1]
    show next = ⟨next.pending, s.finish⟩
    rw [← sameFinish]
  · have bounded := stands.2
    rw [split, List.length_append] at bounded
    omega

/-- **Moves lead from place to place.** A reader always stands at its position in the
list it was made from. -/
theorem Reader.after_stands (tokens : List Token) (moves : List Move) :
    ∀ r : Reader, Stands tokens r.stream → Stands tokens (r.after moves).stream := by
  induction moves with
  | nil =>
      intro r stands
      exact stands
  | cons m rest inductionHypothesis =>
      intro r stands
      obtain ⟨dropped, split, sameFinish⟩ := r.move_stream m
      exact inductionHypothesis (r.move m).2 (stands.moved split sameFinish)

end LoxCalc.Parse
