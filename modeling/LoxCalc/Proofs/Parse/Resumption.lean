import LoxCalc.Proofs.Parse.Recovery
import Mathlib.Order.Bounds.Defs

/-!
Contract: where recovery stops.

Owns:
- `Resumes`, the places of a list at which reading may resume;
- `resume_isLeast`, that the search for such a place stops at the first one;
- `SynchronizeLaw` with `synchronize_stops`, recovery from every state of a reader.

Recovery passes one token before it looks, so the place where it starts is none at which it
stops, unless an end mark stands there.
-/

set_option autoImplicit false

namespace LoxCalc.Parse

/-! ## Places to resume at -/

/-- The kind of the token at a place of a list. -/
def kindAt (all : List Token) (place : Nat) : Option Kind := all[place]?.map Token.kind

/-- The keywords that open a statement. -/
def statementKinds : List Kind :=
  [.kwClass, .kwFun, .kwVar, .kwFor, .kwIf, .kwWhile, .kwPrint, .kwReturn]

/-- A place at which reading may resume: the last place, one behind a semicolon, and one in
front of a keyword that opens a statement. -/
def Resumes (all : List Token) (last place : Nat) : Prop :=
  place = last ∨ kindAt all (place - 1) = some .semicolon ∨
    ∃ kind ∈ statementKinds, kindAt all place = some kind

theorem opensStatement_iff (kind : Kind) : kind.opensStatement = true ↔ kind ∈ statementKinds := by
  cases kind <;> decide

theorem kindAt_of_drop {all word behind : List Token} {start place : Nat}
    (whole : all.drop start = word ++ behind) (inside : place < word.length) :
    kindAt all (start + place) = kindAt word place := by
  rw [kindAt, kindAt, ← List.getElem?_drop, whole, List.getElem?_append_left inside]

/-- Places of a stretch are places of the list that it stands in. -/
theorem resumes_of_drop {all word behind : List Token} {start place : Nat}
    (whole : all.drop start = word ++ behind) (positive : 0 < place)
    (atMost : place ≤ word.length) :
    Resumes all (start + word.length) (start + place) ↔ Resumes word word.length place := by
  rcases Nat.lt_or_eq_of_le atMost with inside | atEnd
  · have before := kindAt_of_drop whole (Nat.lt_of_le_of_lt (Nat.sub_le place 1) inside)
    rw [Resumes, Resumes, Nat.add_sub_assoc positive, before, kindAt_of_drop whole inside,
      Nat.add_left_cancel_iff]
  · rw [atEnd]
    exact iff_of_true (.inl rfl) (.inl rfl)

/-! ## The search -/

/-- Whether reading resumes right behind the first token of a stretch. -/
theorem resumes_one_iff (previous t : Token) (rest : List Token) :
    Resumes (previous :: t :: rest) (rest.length + 2) 1 ↔
      previous.kind = .semicolon ∨ t.kind.opensStatement = true := by
  rw [opensStatement_iff]
  simp [Resumes, kindAt]

theorem resumes_cons_iff (previous : Token) (word : List Token) {place : Nat}
    (positive : 0 < place) :
    Resumes (previous :: word) (word.length + 1) (place + 1) ↔
      Resumes word word.length place := by
  obtain ⟨before, rfl⟩ := Nat.exists_eq_add_one_of_ne_zero (Nat.pos_iff_ne_zero.mp positive)
  simp [Resumes, kindAt]

/-- **The search stops at the first place behind the token just passed** at which reading may
resume. -/
theorem resume_isLeast (rest : List Token) :
    ∀ previous : Token, ∃ place,
      TokenStream.resume previous rest = (previous :: rest).drop place ∧
        IsLeast {n | 0 < n ∧ n ≤ (previous :: rest).length ∧
          Resumes (previous :: rest) (previous :: rest).length n} place := by
  induction rest with
  | nil =>
      intro previous
      exact ⟨1, rfl, ⟨Nat.one_pos, Nat.le_refl 1, .inl rfl⟩, fun n others => others.1⟩
  | cons t rest inductionHypothesis =>
      intro previous
      rw [TokenStream.resume]
      by_cases stops : previous.kind = .semicolon ∨ t.kind.opensStatement = true
      · have isPlace := (resumes_one_iff previous t rest).mpr stops
        refine ⟨1, by simp [stops], ⟨Nat.one_pos, ?_, isPlace⟩, fun n others => others.1⟩
        exact Nat.succ_le_succ (Nat.zero_le _)
      · obtain ⟨place, isRest, ⟨positive, atMost, isPlace⟩, least⟩ := inductionHypothesis t
        refine ⟨place + 1, by simpa [stops] using isRest, ⟨Nat.succ_pos _, ?_, ?_⟩, ?_⟩
        · exact Nat.succ_le_succ atMost
        · exact (resumes_cons_iff previous _ positive).mpr isPlace
        · rintro n ⟨some, inside, resumes⟩
          obtain ⟨k, rfl⟩ := Nat.exists_eq_add_one_of_ne_zero (Nat.pos_iff_ne_zero.mp some)
          -- The first place was looked at, so any other lies behind the next token.
          have further : 0 < k := by
            apply Nat.pos_of_ne_zero
            rintro rfl
            exact stops ((resumes_one_iff previous t rest).mp resumes)
          have alsoPlace := (resumes_cons_iff previous _ further).mp resumes
          exact Nat.succ_le_succ (least ⟨further, Nat.le_of_succ_le_succ inside, alsoPlace⟩)

/-! ## Recovery -/

/-- What recovery does to a reader at `start`, if the first end mark from there on stands at
`last`: it leads the reader to `stop` and changes nothing else. -/
structure SynchronizeLaw (tokens : List Token) (r : Reader) (start last stop : Nat) : Prop where
  place : r.stream = streamFrom tokens start ∧ r.stream.position tokens = start
  firstMark :
    IsLeast {place | start ≤ place ∧ kindAt (completed tokens) place = some .eof} last
  moved : r.move .synchronize = (none, ⟨streamFrom tokens stop, r.reports⟩)
  stopPlace : (r.move .synchronize).2.stream.position tokens = stop
  atEnd : start = last → stop = last
  beforeEnd : start ≠ last →
    IsLeast {place | start < place ∧ place ≤ last ∧
      Resumes (completed tokens) last place} stop

theorem kindAt_eq_eof_iff {all : List Token} {place : Nat} :
    kindAt all place = some .eof ↔ ∃ t, all[place]? = some t ∧ t.isEof = true := by
  simp only [kindAt, Option.map_eq_some_iff, Token.isEof, decide_eq_true_eq]

theorem Stands.firstMark_isLeast {tokens : List Token} {s : TokenStream}
    (stands : Stands tokens s) :
    IsLeast {place | s.position tokens ≤ place ∧ kindAt (completed tokens) place = some .eof}
      (firstEof tokens) := by
  refine ⟨⟨stands.inside.atMost, kindAt_eq_eof_iff.mpr stands.inside.marked⟩, ?_⟩
  rintro place ⟨_, isMark⟩
  obtain ⟨t, isToken, isEof⟩ := kindAt_eq_eof_iff.mp isMark
  obtain ⟨inside, rfl⟩ := List.getElem?_eq_some_iff.mp isToken
  apply Nat.le_of_not_lt
  intro before
  rw [List.not_of_lt_findIdx before] at isEof
  contradiction

theorem Stands.synchronizeLaw {tokens : List Token} {r : Reader}
    (stands : Stands tokens r.stream) :
    ∃ stop, SynchronizeLaw tokens r (r.stream.position tokens) (firstEof tokens) stop := by
  have marks := firstEof_lt tokens
  have within : r.stream.position tokens < (completed tokens).length :=
    Nat.lt_of_le_of_lt stands.inside.atMost marks
  have moved := Reader.move_stands stands .synchronize
  refine ⟨(r.move .synchronize).2.stream.position tokens, ⟨stands.1, rfl⟩,
    stands.firstMark_isLeast, ?_, rfl, stands.synchronize_atEnd, ?_⟩
  · rw [← moved.1]
    rfl
  · intro notAtEnd
    have before := Nat.lt_of_le_of_ne stands.inside.atMost notAtEnd
    obtain ⟨t, rest, isPending⟩ :=
      List.exists_cons_of_ne_nil (stands.position_lt_iff.mp before)
    obtain ⟨behind, whole, _⟩ := streamFrom_split within
    rw [← stands.1, isPending] at whole
    obtain ⟨place, isRest, ⟨positive, atMost, resumes⟩, least⟩ := resume_isLeast rest t
    -- What is passed are the first `place` tokens of what remained.
    have split : r.stream.pending =
        (t :: rest).take place ++ (r.move .synchronize).2.stream.pending := by
      have isLeft : (r.move .synchronize).2.stream.pending = TokenStream.resume t rest := by
        show r.stream.synchronize.pending = _
        rw [TokenStream.synchronize, isPending]
      rw [isLeft, isRest, List.take_append_drop, isPending]
    have further := stands.position_eq split
    rw [List.length_take, Nat.min_eq_left atMost] at further
    have isLast : r.stream.position tokens + (t :: rest).length = firstEof tokens := by
      have bounded := stands.2
      rw [TokenStream.position, isPending] at *
      omega
    rw [further, ← isLast]
    refine ⟨⟨by omega, by omega, (resumes_of_drop whole positive atMost).mpr resumes⟩, ?_⟩
    rintro other ⟨behindStart, inside, alsoResumes⟩
    obtain ⟨n, rfl⟩ := Nat.exists_eq_add_of_lt behindStart
    rw [Nat.add_assoc] at alsoResumes inside ⊢
    have some : 0 < n + 1 := Nat.succ_pos n
    have fits : n + 1 ≤ (t :: rest).length := by omega
    have atLeast := least ⟨some, fits, (resumes_of_drop whole some fits).mp alsoResumes⟩
    omega

/-- **Recovery stops at the first place to resume at.** Wherever moves have led a reader, if
an end mark stands there it stays; if not, it stops at the first place behind, up to the next
end mark, that is the place of this mark, has a semicolon in front of it, or has a keyword at
it that opens a statement. It files no report, and the list of tokens stays as it is. -/
theorem synchronize_stops (tokens : List Token) (reports : List Report) (moves : List Move) :
    let r := (Reader.ofTokens tokens reports).after moves
    ∃ last stop, SynchronizeLaw tokens r (r.stream.position tokens) last stop := by
  intro r
  have stands : Stands tokens r.stream := Reader.after_stands tokens moves
    (Reader.ofTokens tokens reports) (stands_ofTokens tokens)
  obtain ⟨stop, law⟩ := stands.synchronizeLaw
  exact ⟨firstEof tokens, stop, law⟩

end LoxCalc.Parse
