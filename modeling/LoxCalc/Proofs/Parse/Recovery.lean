import LoxCalc.Proofs.Parse.Acceptance
import LoxCalc.Proofs.Parse.Cursor

/-!
Contract: reading on behind faults comes to the end of every list of tokens.

Owns:
- `Stands.lt_of_read` and `Stands.lt_synchronize`, that reading a tree and recovery go
  forward;
- `Reader.round`, a read with the recovery behind it if it fails, and `Rounds`, rounds up
  to the end mark;
- `RecoveryLaw` with `recovery_progresses`, how far rounds lead and what they file.

Does **not** own: where recovery stops.

A failed read may pass no token and recovery may stop in front of the next word already, so
neither goes forward by itself; the two in a row do.
-/

set_option autoImplicit false

namespace LoxCalc.Parse

/-! ## Places and what remains -/

theorem Stands.position_lt_iff {tokens : List Token} {s : TokenStream} (stands : Stands tokens s) :
    s.position tokens < firstEof tokens ↔ s.pending ≠ [] := by
  have bounded := stands.2
  rw [TokenStream.position, ← List.length_pos_iff]
  omega

theorem Stands.position_eq_iff {tokens : List Token} {s : TokenStream} (stands : Stands tokens s) :
    s.position tokens = firstEof tokens ↔ s.pending = [] := by
  have bounded := stands.2
  rw [TokenStream.position, ← List.length_eq_zero_iff]
  omega

/-- The current token is an end mark exactly if nothing remains. -/
theorem Stands.isEof_current_iff {tokens : List Token} {s : TokenStream}
    (stands : Stands tokens s) : s.current.isEof = true ↔ s.pending = [] := by
  have within : s.position tokens < (completed tokens).length :=
    Nat.lt_of_le_of_lt stands.inside.atMost (firstEof_lt tokens)
  obtain ⟨_, _, unmarked, isMark⟩ := streamFrom_split within
  rw [← stands.1] at unmarked isMark
  unfold TokenStream.current
  cases remaining : s.pending with
  | nil => exact iff_of_true isMark rfl
  | cons t rest =>
      have notMark := unmarked t (remaining ▸ List.mem_cons_self)
      exact iff_of_false (ne_true_of_eq_false notMark) (List.cons_ne_nil t rest)

theorem Reader.move_stands {tokens : List Token} {r : Reader} (stands : Stands tokens r.stream)
    (m : Move) : Stands tokens (r.move m).2.stream := by
  obtain ⟨dropped, split, sameFinish⟩ := r.move_stream m
  exact stands.moved split sameFinish

/-! ## Going forward -/

/-- A tree is spelled by at least one token, so reading it goes forward. -/
theorem Stands.lt_of_read {tokens : List Token} {r next : Reader} {e : Expr}
    (stands : Stands tokens r.stream) (reads : r.move .parse = (some e, next)) :
    r.stream.position tokens < next.stream.position tokens := by
  have isRead := (move_parse_iff stands e _).mp ⟨next, reads, rfl⟩
  obtain ⟨ordered, _, spells, _⟩ := (reads_iff _ _ _ _).mp isRead
  apply Nat.lt_of_le_of_ne ordered
  intro same
  rw [← same, List.extract_eq_take_drop, Nat.sub_self, List.take_zero] at spells
  exact spells.ne_nil rfl

/-- Recovery passes one token before it looks for a place to stop. -/
theorem TokenStream.length_synchronize_lt {s : TokenStream} (remains : s.pending ≠ []) :
    s.synchronize.pending.length < s.pending.length := by
  obtain ⟨t, rest, isPending⟩ := List.exists_cons_of_ne_nil remains
  have shorter := (TokenStream.resume_suffix rest t).length_le
  simp only [TokenStream.synchronize, isPending, List.length_cons]
  omega

theorem Stands.lt_synchronize {tokens : List Token} {s : TokenStream} (stands : Stands tokens s)
    (before : s.position tokens < firstEof tokens) :
    s.position tokens < s.synchronize.position tokens := by
  have shorter := TokenStream.length_synchronize_lt (stands.position_lt_iff.mp before)
  have bounded := stands.2
  simp only [TokenStream.position]
  omega

theorem Stands.synchronize_atEnd {tokens : List Token} {r : Reader}
    (stands : Stands tokens r.stream) (atEnd : r.stream.position tokens = firstEof tokens) :
    (r.move .synchronize).2.stream.position tokens = firstEof tokens := by
  have forward := (stands.moveLaw .synchronize).forward
  have atMost := (Reader.move_stands stands .synchronize).inside.atMost
  omega

/-! ## Rounds -/

/-- One round: a read, and after a failed one the skip to where reading may resume. -/
def Reader.round (r : Reader) : Reader :=
  match r.move .parse with
  | (some _, next) => next
  | (none, next) => (next.move .synchronize).2

/-- Rounds one after the other until the current token is an end mark: how many there are,
and the reader behind them. -/
inductive Rounds : Reader → Nat → Reader → Prop where
  | done {r : Reader} (atEnd : r.stream.current.isEof = true) : Rounds r 0 r
  | next {r last : Reader} {count : Nat} (before : r.stream.current.isEof = false)
      (others : Rounds r.round count last) : Rounds r (count + 1) last

theorem Rounds.unique {r last other : Reader} {count otherCount : Nat}
    (rounds : Rounds r count last) (again : Rounds r otherCount other) :
    otherCount = count ∧ other = last := by
  induction rounds generalizing otherCount with
  | done atEnd =>
      cases again with
      | done _ => exact ⟨rfl, rfl⟩
      | next before _ =>
          rw [atEnd] at before
          contradiction
  | next before _ inductionHypothesis =>
      cases again with
      | done atEnd =>
          rw [atEnd] at before
          contradiction
      | next _ others =>
          obtain ⟨sameCount, sameLast⟩ := inductionHypothesis others
          exact ⟨congrArg Nat.succ sameCount, sameLast⟩

/-- What a round does, by what its read comes to. -/
theorem Reader.round_cases (r : Reader) :
    (∃ e next, r.move .parse = (some e, next) ∧ r.round = next) ∨
      ∃ next, r.move .parse = (none, next) ∧ r.round = (next.move .synchronize).2 := by
  unfold Reader.round
  split
  · rename_i e next reads
    exact .inl ⟨e, next, reads, rfl⟩
  · rename_i next fails
    exact .inr ⟨next, fails, rfl⟩

section

variable {tokens : List Token} {r : Reader} (stands : Stands tokens r.stream)

include stands

theorem Stands.round : Stands tokens r.round.stream := by
  have behindRead := Reader.move_stands stands .parse
  rcases r.round_cases with ⟨e, next, reads, isNext⟩ | ⟨next, fails, isNext⟩
  · rw [reads] at behindRead
    rwa [isNext]
  · rw [fails] at behindRead
    rw [isNext]
    exact Reader.move_stands behindRead .synchronize

/-- A failed read with the recovery behind it goes forward, unless it starts at the end. If
the read stops at the end it has passed all there was; if not, recovery passes a token. -/
theorem Stands.lt_of_recovered {next : Reader} (fails : r.move .parse = (none, next))
    (before : r.stream.position tokens < firstEof tokens) :
    r.stream.position tokens < (next.move .synchronize).2.stream.position tokens := by
  have behindRead := Reader.move_stands stands .parse
  have forward := (stands.moveLaw .parse).forward
  rw [fails] at behindRead forward
  rcases Nat.lt_or_eq_of_le behindRead.inside.atMost with inside | atEnd
  · exact Nat.lt_of_le_of_lt forward (behindRead.lt_synchronize inside)
  · rw [behindRead.synchronize_atEnd atEnd]
    exact before

theorem Stands.atEnd_of_recovered {next : Reader} (fails : r.move .parse = (none, next))
    (atEnd : r.stream.position tokens = firstEof tokens) :
    (next.move .synchronize).2.stream.position tokens = firstEof tokens := by
  have behindRead := Reader.move_stands stands .parse
  have forward := (stands.moveLaw .parse).forward
  rw [fails] at behindRead forward
  have atMost := behindRead.inside.atMost
  exact behindRead.synchronize_atEnd (by omega)

theorem Stands.lt_round (before : r.stream.position tokens < firstEof tokens) :
    r.stream.position tokens < r.round.stream.position tokens := by
  rcases r.round_cases with ⟨e, next, reads, isNext⟩ | ⟨next, fails, isNext⟩
  · rw [isNext]
    exact stands.lt_of_read reads
  · rw [isNext]
    exact stands.lt_of_recovered fails before

/-- A round files at most the one report of its read. -/
theorem Stands.round_reports :
    ∃ filed, r.round.reports = r.reports ++ filed ∧ filed.length ≤ 1 := by
  have law := stands.moveLaw .parse
  rcases r.round_cases with ⟨e, next, reads, isNext⟩ | ⟨next, fails, isNext⟩
  · have quiet := law.quiet (.inr (by rw [reads]; rfl))
    rw [reads] at quiet
    refine ⟨[], ?_, Nat.zero_le 1⟩
    rw [isNext, quiet, List.append_nil]
  · obtain ⟨fault, filed⟩ := law.failed rfl (by rw [fails])
    rw [fails] at filed
    refine ⟨[Report.atToken next.stream.current fault.message], ?_, Nat.le_refl 1⟩
    rw [isNext, ← filed]
    rfl

end

/-- **Rounds come to the end.** Induction on the tokens that remain: every round passes at
least one of them. -/
theorem Stands.exists_rounds {tokens : List Token} {r : Reader} (stands : Stands tokens r.stream) :
    ∃ count last, Rounds r count last ∧
      count ≤ firstEof tokens - r.stream.position tokens ∧
      last.stream.position tokens = firstEof tokens ∧
      ∃ filed, last.reports = r.reports ++ filed ∧ filed.length ≤ count := by
  induction remaining : firstEof tokens - r.stream.position tokens using Nat.strongRecOn
    generalizing r with
  | ind distance inductionHypothesis =>
      rcases Nat.lt_or_eq_of_le stands.inside.atMost with before | atEnd
      · have further := stands.lt_round before
        obtain ⟨own, ownFiled, ownCount⟩ := stands.round_reports
        obtain ⟨count, last, rounds, bound, isEnd, filed, isFiled, filedCount⟩ :=
          inductionHypothesis _ (by omega) stands.round rfl
        have notEnd : r.stream.current.isEof = false := by
          rw [← Bool.not_eq_true, stands.isEof_current_iff]
          exact stands.position_lt_iff.mp before
        refine ⟨count + 1, last, .next notEnd rounds, by omega, isEnd, own ++ filed, ?_, ?_⟩
        · rw [isFiled, ownFiled, List.append_assoc]
        · rw [List.length_append]
          omega
      · have isEnd : r.stream.current.isEof = true :=
          stands.isEof_current_iff.mpr (stands.position_eq_iff.mp atEnd)
        exact ⟨0, r, .done isEnd, Nat.zero_le _, atEnd, [], (List.append_nil _).symm,
          Nat.le_refl 0⟩

/-! ## From every state -/

/-- What holds wherever a reader stands, about reading on from there. -/
structure RecoveryLaw (tokens : List Token) (r : Reader) : Prop where
  place : r.stream = streamFrom tokens (r.stream.position tokens)
  read : ∀ e next, r.move .parse = (some e, next) →
    r.stream.position tokens < next.stream.position tokens
  recovered : ∀ next, r.move .parse = (none, next) →
    r.stream.position tokens < firstEof tokens →
      r.stream.position tokens < (next.move .synchronize).2.stream.position tokens
  /-- At the end mark a read fails, and recovery stays there. -/
  atEnd : r.stream.position tokens = firstEof tokens →
    ∃ next, r.move .parse = (none, next) ∧
      (next.move .synchronize).2.stream.position tokens = firstEof tokens
  round : ∃ filed, r.round.reports = r.reports ++ filed ∧ filed.length ≤ 1
  /-- There are at most as many rounds as tokens in front of the end mark. -/
  rounds : ∃ count last, (∀ otherCount other, Rounds r otherCount other ↔
      otherCount = count ∧ other = last) ∧
    count ≤ firstEof tokens - r.stream.position tokens ∧
    last.stream.position tokens = firstEof tokens ∧
    ∃ filed, last.reports = r.reports ++ filed ∧ filed.length ≤ count

/-- **Recovery makes progress.** Wherever moves have led a reader, a read that succeeds goes
forward, and so does one that fails with the recovery behind it, unless the reader is at the
end mark, where it stays. So rounds of both come to the end mark, after at most one round for
each token in front of it and with at most one report for each round. -/
theorem recovery_progresses (tokens : List Token) (reports : List Report) (moves : List Move) :
    RecoveryLaw tokens ((Reader.ofTokens tokens reports).after moves) := by
  have stands := Reader.after_stands tokens moves (Reader.ofTokens tokens reports)
    (stands_ofTokens tokens)
  generalize (Reader.ofTokens tokens reports).after moves = r at stands
  refine ⟨stands.1, fun e next => stands.lt_of_read, fun next => stands.lt_of_recovered, ?_,
    stands.round_reports, ?_⟩
  · intro atEnd
    rcases r.round_cases with ⟨e, next, reads, _⟩ | ⟨next, fails, _⟩
    · have further := stands.lt_of_read reads
      have atMost := (Reader.move_stands stands .parse).inside.atMost
      simp only [reads] at atMost
      omega
    · exact ⟨next, fails, stands.atEnd_of_recovered fails atEnd⟩
  · obtain ⟨count, last, rounds, bound⟩ := stands.exists_rounds
    refine ⟨count, last, ?_, bound⟩
    intro otherCount other
    constructor
    · exact fun again => rounds.unique again
    · rintro ⟨rfl, rfl⟩
      exact rounds

end LoxCalc.Parse
