import LoxCalc.Proofs.Parse.InPlace

/-!
Contract: a reader never leaves its list of tokens, and files exactly its failures.

Owns:
- `Inside`, what holds wherever a reader stands;
- `MoveLaw`, what one move does to the place and to the reports;
- `ReaderLaw` with `reader_laws`, both for every reader and every list of moves.

Does **not** own: what is read at a place, and where recovery stops.
-/

set_option autoImplicit false

namespace LoxCalc.Parse

/-! ## Inside the list -/

/-- A stream inside its list, at most at the first end mark: what remains is the list from
the place on, and there are tokens at the place and before it. -/
structure Inside (tokens : List Token) (s : TokenStream) : Prop where
  atMost : s.position tokens ≤ firstEof tokens
  marked : ∃ mark, (completed tokens)[firstEof tokens]? = some mark ∧ mark.isEof = true
  remaining : s = streamFrom tokens (s.position tokens)
  current : (completed tokens)[s.position tokens]? = some s.current
  previous : ∃ t, (completed tokens)[s.position tokens - 1]? = some t

theorem streamFrom_current {tokens : List Token} {start : Nat}
    (within : start < (completed tokens).length) :
    (completed tokens)[start]? = some (streamFrom tokens start).current := by
  obtain ⟨behind, split, _⟩ := streamFrom_split within
  have atHead : (completed tokens)[start]? = ((completed tokens).drop start).head? := by
    rw [List.head?_drop]
  rw [atHead, split, TokenStream.current]
  cases (streamFrom tokens start).pending with
  | nil => rfl
  | cons t rest => rfl

theorem Stands.inside {tokens : List Token} {s : TokenStream} (stands : Stands tokens s) :
    Inside tokens s := by
  have marks := firstEof_lt tokens
  have atMost : s.position tokens ≤ firstEof tokens := Nat.sub_le _ _
  have within : s.position tokens < (completed tokens).length := Nat.lt_of_le_of_lt atMost marks
  have before : s.position tokens - 1 < (completed tokens).length := by omega
  refine ⟨atMost, ?_, stands.1, ?_, ?_⟩
  · exact ⟨_, List.getElem?_eq_getElem marks, List.findIdx_getElem⟩
  · rw [streamFrom_current within, ← stands.1]
  · exact ⟨_, List.getElem?_eq_getElem before⟩

/-! ## One move -/

/-- What a move does: it passes the tokens from one place to another, and files one report
if it is a failed read, and none if not. -/
structure MoveLaw (tokens : List Token) (r : Reader) (m : Move) : Prop where
  forward : r.stream.position tokens ≤ (r.move m).2.stream.position tokens
  passed : r.stream.pending =
    (completed tokens).extract (r.stream.position tokens) ((r.move m).2.stream.position tokens) ++
      (r.move m).2.stream.pending
  /-- There is a token at every place that a move may look at. -/
  looksInside : ∀ place, place ≤ (r.move m).2.stream.position tokens →
    ∃ t, (completed tokens)[place]? = some t
  failed : m = .parse → (r.move m).1 = none → ∃ fault : Fault,
    (r.move m).2.reports =
      r.reports ++ [Report.atToken (r.move m).2.stream.current fault.message]
  quiet : m = .synchronize ∨ (r.move m).1.isSome = true → (r.move m).2.reports = r.reports

/-- A fault is found at the token in front of which reading stops. -/
theorem TokenStream.token_of_parse_error {s rest : TokenStream} {err : Error}
    (fails : s.parse = (.error err, rest)) : err.token = rest.current := by
  unfold TokenStream.parse at fails
  generalize State.start.read s.pending = read at fails
  obtain ⟨result, left⟩ := read
  cases result with
  | ok e =>
      have refused : Except.ok e = Except.error err := (Prod.mk.inj fails).1
      contradiction
  | error fault =>
      obtain ⟨isError, rfl⟩ := Prod.mk.inj fails
      obtain rfl := Except.error.inj isError
      rfl

theorem Reader.move_parse_reports (r : Reader) :
    ((r.move .parse).1.isSome = true ∧ (r.move .parse).2.reports = r.reports) ∨
      (r.move .parse).1 = none ∧ ∃ fault : Fault, (r.move .parse).2.reports =
        r.reports ++ [Report.atToken (r.move .parse).2.stream.current fault.message] := by
  cases result : r.stream.parse.1 with
  | ok e =>
      rw [Reader.move_of_ok result]
      exact .inl ⟨rfl, rfl⟩
  | error err =>
      rw [Reader.move_of_error result]
      refine .inr ⟨rfl, err.fault, ?_⟩
      rw [← TokenStream.token_of_parse_error (Prod.ext result rfl)]
      rfl

theorem Stands.moveLaw {tokens : List Token} {r : Reader} (stands : Stands tokens r.stream)
    (m : Move) : MoveLaw tokens r m := by
  obtain ⟨dropped, split, sameFinish⟩ := r.move_stream m
  have further := stands.position_eq split
  have inside := (stands.moved split sameFinish).inside
  have marks := firstEof_lt tokens
  have within : r.stream.position tokens < (completed tokens).length :=
    Nat.lt_of_le_of_lt stands.inside.atMost marks
  refine ⟨?_, ?_, ?_, ?_, ?_⟩
  · rw [further]
    exact Nat.le_add_right _ _
  · obtain ⟨behind, whole, _⟩ := streamFrom_split within
    rw [← stands.1, split, List.append_assoc] at whole
    rw [List.extract_eq_take_drop, further, Nat.add_sub_cancel_left, whole, List.take_left]
    exact split
  · intro place atMost
    have bound : place < (completed tokens).length :=
      Nat.lt_of_le_of_lt (Nat.le_trans atMost inside.atMost) marks
    exact ⟨_, List.getElem?_eq_getElem bound⟩
  · intro isParse isNone
    subst isParse
    rcases r.move_parse_reports with ⟨isSome, _⟩ | ⟨_, filed⟩
    · rw [isNone] at isSome
      contradiction
    · exact filed
  · intro silent
    cases m with
    | synchronize => rfl
    | parse =>
        rcases r.move_parse_reports with ⟨_, kept⟩ | ⟨isNone, _⟩
        · exact kept
        · rw [isNone] at silent
          rcases silent with isSynchronize | isSome <;> contradiction

/-! ## Moves in a row -/

/-- How many of a list of moves are failed reads. -/
def Reader.failures (r : Reader) (moves : List Move) : Nat :=
  (moves.zip (r.play moves)).countP fun p => p.1 = .parse && p.2.1.isNone

/-- What a move adds to the reports: one more for a failed read, behind the others. -/
theorem MoveLaw.reports_eq {tokens : List Token} {r : Reader} {m : Move}
    (law : MoveLaw tokens r m) :
    ∃ filed, (r.move m).2.reports = r.reports ++ filed ∧
      filed.length = if m = .parse && (r.move m).1.isNone then 1 else 0 := by
  by_cases fails : m = .parse ∧ (r.move m).1 = none
  · obtain ⟨rfl, isNone⟩ := fails
    obtain ⟨fault, filed⟩ := law.failed rfl isNone
    exact ⟨_, filed, by simp [isNone]⟩
  · have silent : m = .synchronize ∨ (r.move m).1.isSome = true := by
      cases m with
      | synchronize => exact .inl rfl
      | parse =>
          rw [Option.isSome_iff_ne_none]
          exact .inr fun isNone => fails ⟨rfl, isNone⟩
    refine ⟨[], by rw [law.quiet silent, List.append_nil], ?_⟩
    rcases silent with rfl | isSome
    · rfl
    · simp [Option.isNone_eq_false_iff.mpr isSome]

/-- Moves in a row only go forward, and file one report for each failed read behind the
earlier reports. -/
theorem Reader.after_laws {tokens : List Token} (moves : List Move) :
    ∀ r : Reader, Stands tokens r.stream →
      r.stream.position tokens ≤ (r.after moves).stream.position tokens ∧
        ∃ filed, (r.after moves).reports = r.reports ++ filed ∧
          filed.length = r.failures moves := by
  induction moves with
  | nil =>
      intro r _
      exact ⟨Nat.le_refl _, [], (List.append_nil _).symm, rfl⟩
  | cons m rest inductionHypothesis =>
      intro r stands
      have law := stands.moveLaw m
      obtain ⟨dropped, split, sameFinish⟩ := r.move_stream m
      obtain ⟨forward, later, laterFiled, laterCount⟩ :=
        inductionHypothesis (r.move m).2 (stands.moved split sameFinish)
      obtain ⟨own, ownFiled, ownCount⟩ := law.reports_eq
      refine ⟨Nat.le_trans law.forward forward, own ++ later, ?_, ?_⟩
      · show ((r.move m).2.after rest).reports = _
        rw [laterFiled, ownFiled, List.append_assoc]
      · have counted : r.failures (m :: rest) = (r.move m).2.failures rest +
            if m = .parse && (r.move m).1.isNone then 1 else 0 :=
          List.countP_cons
        rw [List.length_append, counted, laterCount, ownCount, Nat.add_comm]

/-- What holds after a list of moves from the start of a list of tokens. -/
structure ReaderLaw (tokens : List Token) (reports : List Report) (moves : List Move) : Prop where
  inside : Inside tokens ((Reader.ofTokens tokens reports).after moves).stream
  move : ∀ m, MoveLaw tokens ((Reader.ofTokens tokens reports).after moves) m
  /-- One report for each failed read, behind those that were there before. -/
  filed : ∃ filed, ((Reader.ofTokens tokens reports).after moves).reports = reports ++ filed ∧
    filed.length = (Reader.ofTokens tokens reports).failures moves
  /-- The same moves in place, where tokens are looked at by their places, have a result: what
  the reader yields, at the places where it stands. Each of their calls looks at a token, at
  most at the first end mark, and goes forward. -/
  inPlace : ∃ calls, Descent.playFrom tokens reports moves =
      some (((Reader.ofTokens tokens reports).play moves).map fun step =>
          (step.1, Descent.ofReader tokens step.2),
        ⟨Descent.ofReader tokens ((Reader.ofTokens tokens reports).after moves), calls⟩) ∧
    ∀ call ∈ calls, call.Inside (firstEof tokens) ∧
      ∃ t, (completed tokens)[call.op.place call.current]? = some t
  /-- Later moves go forward only and leave the reports so far as they are. -/
  later : ∀ others : List Move,
    let now := (Reader.ofTokens tokens reports).after moves
    now.stream.position tokens ≤ (now.after others).stream.position tokens ∧
      now.reports <+: (now.after others).reports

/-- **A reader never leaves its list.** After any moves over any list of tokens it stands at
most at the first end mark, over the list it was made from; places only grow; the reports
are the earlier ones with one more for every failed read; and the same moves in place look
at tokens of the list only. -/
theorem reader_laws (tokens : List Token) (reports : List Report) (moves : List Move) :
    ReaderLaw tokens reports moves := by
  have start : Stands tokens (Reader.ofTokens tokens reports).stream := stands_ofTokens tokens
  have stands := Reader.after_stands tokens moves _ start
  refine ⟨stands.inside, stands.moveLaw, (Reader.after_laws moves _ start).2, ?_, ?_⟩
  · obtain ⟨calls, run, inside⟩ := Descent.playFrom_eq tokens reports moves
    refine ⟨calls, run, fun call member => ⟨inside call member, ?_⟩⟩
    exact (inside call member).looks (firstEof_lt tokens)
  · intro others now
    obtain ⟨forward, filed, kept, _⟩ := Reader.after_laws others now stands
    exact ⟨forward, filed, kept.symm⟩

end LoxCalc.Parse
