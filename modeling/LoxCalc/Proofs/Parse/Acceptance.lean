import LoxCalc.Proofs.Parse.Grammar
import LoxCalc.Proofs.Parse.Position
import LoxCalc.Proofs.Parse.Reading

/-!
Contract: what is read at a place of a list of tokens, and where reading stops.

Owns:
- `Reads`, a tree read between two places, and `reads_iff`, when there is one;
- `Accepted`, a sentence of the grammar between two places;
- the laws of acceptance and of the tree that is built, at every place.
-/

set_option autoImplicit false

namespace LoxCalc.Parse

open Grammar

/-- Read from the place `start`, the tokens give the tree `e`, and reading stops at the
place `stop`. -/
def Reads (tokens : List Token) (start : Nat) (e : Expr) (stop : Nat) : Prop :=
  ∃ taken after, (streamFrom tokens start).parse = (.ok e, after) ∧
    (streamFrom tokens start).pending = taken ++ after.pending ∧
    stop = start + taken.length

/-- The token at a place is no infix operator. -/
def NoInfixAt (tokens : List Token) (place : Nat) : Prop :=
  ∃ next, (completed tokens)[place]? = some next ∧ next.kind ∉ infixKinds

theorem parse_eq_ok_iff (s after : TokenStream) (e : Expr) :
    s.parse = (.ok e, after) ↔
      State.start.read s.pending = (.ok e, after.pending) ∧ after.finish = s.finish := by
  unfold TokenStream.parse
  generalize State.start.read s.pending = read
  cases read with
  | mk result rest =>
      cases result with
      | error fault =>
          constructor
          · intro parses
            have refused : Except.error _ = Except.ok e := (Prod.mk.inj parses).1
            contradiction
          · intro reads
            have refused : Except.error fault = Except.ok e := (Prod.mk.inj reads.1).1
            contradiction
      | ok tree =>
          constructor
          · intro parses
            have sameTree : Except.ok tree = Except.ok e := (Prod.mk.inj parses).1
            have sameStream : (⟨rest, s.finish⟩ : TokenStream) = after := (Prod.mk.inj parses).2
            rw [Except.ok.inj sameTree, ← sameStream]
            exact ⟨rfl, rfl⟩
          · intro reads
            obtain ⟨sameTree, sameRest⟩ := Prod.mk.inj reads.1
            obtain rfl := Except.ok.inj sameTree
            show (Except.ok tree, (⟨rest, s.finish⟩ : TokenStream)) = (.ok tree, after)
            rw [sameRest, ← reads.2]

theorem drop_eq_iff (all word : List Token) (next : Token) (start : Nat) :
    (∃ behind, all.drop start = word ++ next :: behind) ↔
      all.extract start (start + word.length) = word ∧ all[start + word.length]? = some next := by
  rw [List.extract_eq_take_drop, Nat.add_sub_cancel_left, ← List.getElem?_drop]
  constructor
  · intro splits
    rcases splits with ⟨behind, split⟩
    rw [split]
    simp
  · intro found
    rcases found with ⟨isWord, isNext⟩
    obtain ⟨bound, isElement⟩ := List.getElem?_eq_some_iff.mp isNext
    have parts := List.take_append_drop word.length (all.drop start)
    rw [List.drop_eq_getElem_cons bound, isElement, isWord] at parts
    exact ⟨_, parts.symm⟩

/-- Behind tokens that end before an infix operator there is no infix operator, even if
the end mark comes first. -/
theorem exists_next {rest : List Token} {mark : Token} (behind : List Token)
    (isMark : mark.isEof = true) (ends : ∀ t ∈ rest.head?, t.kind.level? = none) :
    ∃ next others, rest ++ mark :: behind = next :: others ∧ next.kind ∉ infixKinds := by
  cases rest with
  | nil =>
      have isEof : mark.kind = .eof := of_decide_eq_true isMark
      refine ⟨mark, behind, rfl, ?_⟩
      rw [isEof]
      decide
  | cons next others =>
      have noLevel := ends next rfl
      exact ⟨next, _, rfl, (level?_eq_none_iff next.kind).mp noLevel⟩

/-- **What is read at a place.** A tree is read exactly if it is well shaped, spelled by
the tokens up to where reading stops, and no infix operator follows. -/
theorem reads_iff (tokens : List Token) (start : Nat) (e : Expr) (stop : Nat) :
    Reads tokens start e stop ↔
      start ≤ stop ∧ WellShaped e ∧ Spells e ((completed tokens).extract start stop) ∧
        NoInfixAt tokens stop := by
  constructor
  · intro isRead
    rcases isRead with ⟨taken, after, parses, split, rfl⟩
    obtain ⟨reads, _⟩ := (parse_eq_ok_iff _ after e).mp parses
    obtain ⟨word, isWord, spells, shaped, ends⟩ := read_start_sound reads
    obtain rfl := List.append_cancel_right (split.symm.trans isWord)
    have within : start < (completed tokens).length := by
      apply Nat.lt_of_not_le
      intro past
      rw [streamFrom_past past] at reads
      simp [State.read, State.start, State.finish] at reads
    obtain ⟨behind, whole, _, isMark⟩ := streamFrom_split within
    obtain ⟨next, others, isNext, notInfix⟩ := exists_next behind isMark ends
    rw [split, List.append_assoc, isNext] at whole
    obtain ⟨isWord, nextAt⟩ := (drop_eq_iff _ taken next start).mp ⟨others, whole⟩
    refine ⟨Nat.le_add_right start taken.length, shaped, ?_, next, nextAt, notInfix⟩
    rwa [isWord]
  · intro stands
    rcases stands with ⟨ordered, shaped, spells, next, nextAt, notInfix⟩
    have inside : stop < (completed tokens).length :=
      (List.getElem?_eq_some_iff.mp nextAt).1
    generalize isWord : (completed tokens).extract start stop = word at spells
    have isStop : stop = start + word.length := by
      rw [← isWord, List.extract_eq_take_drop, List.length_take, List.length_drop]
      omega
    subst isStop
    obtain ⟨behind, whole⟩ := (drop_eq_iff _ word next start).mpr ⟨isWord, nextAt⟩
    have split : (streamFrom tokens start).pending =
        word ++ (next :: behind).takeWhile (fun t => !t.isEof) := by
      have unmarked := spells.not_isEof shaped
      rw [streamFrom, whole, TokenStream.ofTokens, List.takeWhile_append_of_pos]
      simpa using unmarked
    have ends : ∀ t ∈ ((next :: behind).takeWhile (fun t => !t.isEof)).head?,
        t.kind.level? = none := by
      intro t atHead
      rw [List.head?_takeWhile, List.head?_cons] at atHead
      obtain rfl := Option.some.inj (Option.mem_filter_iff.mp atHead).1
      exact (level?_eq_none_iff _).mpr notInfix
    refine ⟨word, ⟨_, (streamFrom tokens start).finish⟩, ?_, split, rfl⟩
    rw [parse_eq_ok_iff, split]
    exact ⟨read_start_complete spells shaped ends, rfl⟩

/-- The tokens of a well-shaped tree are read as that tree wherever they stand, if no
infix operator follows. -/
theorem reads_spelled {e : Expr} {word : List Token} (before behind : List Token)
    (shaped : WellShaped e) (spells : Spells e word)
    (ends : ∀ t ∈ behind.head?, t.kind ∉ infixKinds) :
    Reads (before ++ word ++ behind) before.length e (before.length + word.length) := by
  obtain ⟨marks, whole, areMarks⟩ := completed_eq_append (before ++ word ++ behind)
  have remaining : (completed (before ++ word ++ behind)).drop before.length =
      word ++ (behind ++ marks) := by
    rw [whole]
    simp
  have within : before.length < (completed (before ++ word ++ behind)).length := by
    have nonempty := List.length_pos_iff.mpr spells.ne_nil
    rw [whole]
    simp only [List.length_append]
    omega
  have follows : behind ++ marks ≠ [] := by
    intro isEnd
    obtain ⟨_, split, _, isMark⟩ := streamFrom_split within
    rw [remaining, isEnd, List.append_nil] at split
    have unmarked := spells.not_isEof shaped _ (split ▸ List.mem_append_right _ List.mem_cons_self)
    rw [isMark] at unmarked
    contradiction
  obtain ⟨next, others, isNext⟩ := List.exists_cons_of_ne_nil follows
  have notInfix : next.kind ∉ infixKinds := by
    cases behind with
    | nil =>
        rw [List.nil_append] at isNext
        have isMark := areMarks next (isNext ▸ List.mem_cons_self)
        rw [of_decide_eq_true isMark]
        decide
    | cons first rest =>
        obtain ⟨rfl, _⟩ := List.cons.inj isNext
        exact ends first rfl
  rw [isNext] at remaining
  obtain ⟨isWord, nextAt⟩ := (drop_eq_iff _ word next before.length).mp ⟨others, remaining⟩
  refine (reads_iff _ _ e _).mpr ⟨Nat.le_add_right _ _, shaped, ?_, next, nextAt, notInfix⟩
  rwa [isWord]

theorem move_parse_iff {tokens : List Token} {r : Reader} (stands : Stands tokens r.stream)
    (e : Expr) (stop : Nat) :
    (∃ after, r.move .parse = (some e, after) ∧ after.stream.position tokens = stop) ↔
      Reads tokens (r.stream.position tokens) e stop := by
  rw [Reads, ← stands.1]
  constructor
  · intro moved
    rcases moved with ⟨after, moves, rfl⟩
    obtain ⟨taken, split, _⟩ := r.move_stream .parse
    rw [moves] at split
    have parses : r.stream.parse = (.ok e, after.stream) := by
      simp only [Reader.move] at moves
      split at moves
      · rename_i tree rest parses
        obtain ⟨isTree, isAfter⟩ := Prod.mk.inj moves
        rw [parses, Option.some.inj isTree, ← isAfter]
      · cases (Prod.mk.inj moves).1
    exact ⟨taken, after.stream, parses, split, stands.position_eq split⟩
  · intro isRead
    rcases isRead with ⟨taken, after, parses, split, rfl⟩
    refine ⟨⟨after, r.reports⟩, ?_, stands.position_eq split⟩
    simp only [Reader.move, parses]

/-! ## Acceptance -/

/-- The tokens between two places are a sentence of the grammar, and no infix operator
stands behind them. -/
def Accepted (tokens : List Token) (start stop : Nat) : Prop :=
  start ≤ stop ∧
    Derives (.rule .expression) (((completed tokens).extract start stop).map Token.kind) ∧
    NoInfixAt tokens stop

theorem accepted_iff (tokens : List Token) (start stop : Nat) :
    Accepted tokens start stop ↔ ∃ e, Reads tokens start e stop := by
  simp only [Accepted, derives_expression_iff, reads_iff]
  constructor
  · intro accepted
    rcases accepted with ⟨ordered, ⟨e, shaped, spells⟩, ends⟩
    exact ⟨e, ordered, shaped, spells, ends⟩
  · intro isRead
    rcases isRead with ⟨e, ordered, shaped, spells, ends⟩
    exact ⟨ordered, ⟨e, shaped, spells⟩, ends⟩

theorem Reads.unique {tokens : List Token} {start stop otherStop : Nat} {e other : Expr}
    (reads : Reads tokens start e stop) (again : Reads tokens start other otherStop) :
    e = other ∧ stop = otherStop := by
  obtain ⟨taken, after, parses, split, rfl⟩ := reads
  obtain ⟨otherTaken, otherAfter, otherParses, otherSplit, rfl⟩ := again
  obtain ⟨sameTree, rfl⟩ := Prod.mk.inj (parses.symm.trans otherParses)
  obtain rfl := List.append_cancel_right (split.symm.trans otherSplit)
  exact ⟨Except.ok.inj sameTree, rfl⟩

/-- **Acceptance.** Wherever moves have led a reader, it reads an expression and stops at
a place exactly if the tokens up to there are a sentence of the grammar with no infix
operator behind; there is at most one such place, and without one nothing is read. -/
theorem move_parse_accepts (tokens : List Token) (reports : List Report) (moves : List Move) :
    let before := (Reader.ofTokens tokens reports).after moves
    let start := before.stream.position tokens
    before.stream = streamFrom tokens start ∧
      (∀ stop, (∃ e after, before.move .parse = (some e, after) ∧
          after.stream.position tokens = stop) ↔ Accepted tokens start stop) ∧
      (∀ stop other, Accepted tokens start stop → Accepted tokens start other → stop = other) ∧
      ((before.move .parse).1 = none ↔ ∀ stop, ¬ Accepted tokens start stop) := by
  intro before start
  have stands : Stands tokens before.stream :=
    Reader.after_stands tokens moves _ (stands_ofTokens tokens)
  have accepts : ∀ stop, (∃ e after, before.move .parse = (some e, after) ∧
      after.stream.position tokens = stop) ↔ Accepted tokens start stop := by
    intro stop
    rw [accepted_iff]
    exact exists_congr fun e => move_parse_iff stands e stop
  refine ⟨stands.1, accepts, ?_, ?_⟩
  · intro stop other accepted alsoAccepted
    obtain ⟨e, reads⟩ := (accepted_iff tokens start stop).mp accepted
    obtain ⟨_, alsoReads⟩ := (accepted_iff tokens start other).mp alsoAccepted
    exact (reads.unique alsoReads).2
  · constructor
    · intro isNone stop accepted
      obtain ⟨e, after, moved, _⟩ := (accepts stop).mpr accepted
      rw [moved] at isNone
      contradiction
    · intro refused
      cases isTree : (before.move .parse).1 with
      | none => rfl
      | some e =>
          have accepted := (accepts _).mp ⟨e, _, Prod.ext isTree rfl, rfl⟩
          exact absurd accepted (refused _)

/-! ## The tree -/

/-- **The tree of the tokens.** What is read at a place is well shaped and spelled by the
tokens taken; every well-shaped tree whose tokens stand there, with no infix operator
behind, is what is read; and no two well-shaped trees have the same tokens. -/
theorem reads_wellShaped :
    (∀ tokens start e stop, Reads tokens start e stop →
        Spells e ((completed tokens).extract start stop) ∧ WellShaped e) ∧
      (∀ tokens start e stop, WellShaped e → start ≤ stop →
        Spells e ((completed tokens).extract start stop) → NoInfixAt tokens stop →
          Reads tokens start e stop) ∧
      (∀ before word behind e, WellShaped e → Spells e word →
        (∀ t ∈ behind.head?, t.kind ∉ infixKinds) →
          Reads (before ++ word ++ behind) before.length e (before.length + word.length)) ∧
      (∀ e other word, WellShaped e → WellShaped other → Spells e word → Spells other word →
        e = other) := by
  refine ⟨?_, ?_, ?_, ?_⟩
  · intro tokens start e stop reads
    obtain ⟨_, shaped, spells, _⟩ := (reads_iff tokens start e stop).mp reads
    exact ⟨spells, shaped⟩
  · intro tokens start e stop shaped ordered spells ends
    exact (reads_iff tokens start e stop).mpr ⟨ordered, shaped, spells, ends⟩
  · intro before word behind e shaped spells ends
    exact reads_spelled before behind shaped spells ends
  · intro e other word shaped otherShaped spells otherSpells
    exact eq_of_spells shaped otherShaped spells otherSpells

/-- `true - nil * false - nil` groups to the left, with the product inside. -/
theorem reads_wellShaped_mixed :
    let minus : Token := ⟨.minus, "-", none, 1⟩
    let star : Token := ⟨.star, "*", none, 1⟩
    let product : Expr := .binary (.literal .nil) star (.literal (.bool false))
    let whole : Expr :=
      .binary (.binary (.literal (.bool true)) minus product) minus (.literal .nil)
    WellShaped whole ∧
      Reads
        [⟨.kwTrue, "true", none, 1⟩, minus, ⟨.kwNil, "nil", none, 1⟩, star,
          ⟨.kwFalse, "false", none, 1⟩, minus, ⟨.kwNil, "nil", none, 1⟩] 0 whole 7 := by
  intro minus star product whole
  have isTerm : minus.kind ∈ operatorsOf .term := by decide
  have isFactor : star.kind ∈ operatorsOf .factor := by decide
  have productShaped : WellShaped product :=
    .binary isFactor (by decide) (by decide) (.literal _) (.literal _)
  have shaped : WellShaped whole :=
    .binary isTerm (by decide) (by decide)
      (.binary isTerm (by decide) (by decide) (.literal _) productShaped) (.literal _)
  exact ⟨shaped, reads_wellShaped.2.2.1 [] _ [] _ shaped
    (.binary (.binary (.trueWord rfl) (.binary (.nilWord rfl) (.falseWord rfl))) (.nilWord rfl))
    (by simp)⟩

end LoxCalc.Parse
