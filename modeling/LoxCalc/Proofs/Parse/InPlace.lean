import LoxCalc.Proofs.Parse.Reading
import LoxCalc.Proofs.Parse.Walk

/-!
Contract: reading in place reads what the automaton reads.

Owns:
- `Outcome`, what reading an operand of some tightness comes to;
- `Reads`, the law of a level, from which that of the next looser one follows;
- `playFrom_eq`, that moves in place are the moves of a reader, and keep inside the list.
-/

set_option autoImplicit false

namespace LoxCalc.Parse.Descent

/-! ## Outcomes -/

/-- What reading an operand of at least some tightness comes to: a tree with the tokens that
spell it, behind which no operator stands that binds it more tightly; or a fault, which the
automaton finds at the same token, whatever frames are open around the operand. -/
inductive Outcome (mark : Token) (tightness : Nat) (d : Descent) (ahead : List Token) :
    Option Expr → Descent → Prop where
  | read {e : Expr} {own rest : List Token} (split : ahead = own ++ rest) (spells : Spells e own)
      (shaped : WellShaped e) (tight : tightness ≤ e.tightness)
      (settled : ∀ t ∈ rest.head?, ∀ level ∈ t.kind.level?, level.rank < tightness) :
      Outcome mark tightness d ahead (some e) (d.past own)
  | fault {fault : Fault} {passed rest : List Token} (split : ahead = passed ++ rest)
      (fails : ∀ frames, 4 ≤ tightness ∨ Under tightness frames →
        (State.awaiting frames).read ahead = (.error fault, rest)) :
      Outcome mark tightness d ahead none
        ((d.past passed).refused fault (TokenStream.mk rest mark).current)

/-- A reading has a result, of which something holds, and keeps inside. -/
def Comes (last : Nat) (step : Reading Expr) (d : Descent)
    (holds : Option Expr → Descent → Prop) : Prop :=
  ∃ result e, Runs last step.run d result e ∧ holds result e

/-- A reading of operands has its outcome wherever fewer tokens than a bound lie ahead. -/
def Reads (word : List Token) (mark : Token) (bound tightness : Nat) (step : Reading Expr) :
    Prop :=
  ∀ d ahead, Faces word d ahead → ahead.length < bound →
    Comes word.length step d (Outcome mark tightness d ahead)

section

variable {tokens word ahead rest : List Token} {mark t : Token} {d e : Descent}
  {bound : Nat} {operand : Reading Expr}

/-- A reading that goes one way behind a token of some kinds, and another way in front of
every other. -/
theorem comes_accept (marked : Marked tokens word mark) (faces : Faces word d ahead)
    {kinds : List Kind} {taken others : Reading Expr} {holds : Option Expr → Descent → Prop}
    (ifTaken : ∀ t rest, ahead = t :: rest → t.kind ∈ kinds →
      Comes word.length taken (d.past [t]) holds)
    (ifNot : (∀ t ∈ ahead.head?, t.kind ∉ kinds) → Comes word.length others d holds) :
    Comes word.length (do if ← accept tokens kinds then taken else others) d holds := by
  by_cases isOne : ∃ t ∈ ahead.head?, t.kind ∈ kinds
  · obtain ⟨t, atHead, isOne⟩ := isOne
    obtain ⟨rest, rfl⟩ := List.head?_eq_some_iff.mp atHead
    obtain ⟨result, e, runs, held⟩ := ifTaken t rest rfl isOne
    exact ⟨result, e, (accept_runs marked faces isOne).lift.someBind runs, held⟩
  · have differs : ∀ t ∈ ahead.head?, t.kind ∉ kinds :=
      fun t atHead member => isOne ⟨t, atHead, member⟩
    obtain ⟨result, e, runs, held⟩ := ifNot differs
    exact ⟨result, e, (accept_refuses marked faces differs).lift.someBind runs, held⟩

/-! ## Levels of infix operators -/

/-- An operand that is read at a level, with the tokens that spell it and those behind: no
tighter operator follows. -/
structure Held (level : Level) (ahead : List Token) (left : Expr) (own rest : List Token) :
    Prop where
  split : ahead = own ++ rest
  spells : Spells left own
  shaped : WellShaped left
  tight : level.rank ≤ left.tightness
  settled : ∀ t ∈ rest.head?, ∀ other ∈ t.kind.level?, other.rank ≤ level.rank

/-- A round behind an operator: the operand grows, or there is a fault at which the whole
level ends. -/
theorem rightOf_comes (marked : Marked tokens word mark) {level : Level}
    (below : Reads word mark bound (level.rank + 1) operand) (faces : Faces word d ahead)
    (bounded : ahead.length < bound) {left : Expr} {own : List Token}
    (held : Held level ahead left own (t :: rest)) (isInfix : t.kind.level? = some level) :
    (∃ next longer others, Held level ahead next longer others ∧ others.length ≤ rest.length ∧
        Runs word.length (rightOf tokens operand left).run ((d.past own).past [t]) (some next)
          (d.past longer)) ∨
      ∃ e, Outcome mark level.rank d ahead none e ∧
        Runs word.length (rightOf tokens operand left).run ((d.past own).past [t]) none e := by
  have here : Faces word (d.past own) (t :: rest) := (held.split ▸ faces).past
  have onward : Faces word ((d.past own).past [t]) rest := here.past
  have looked := (previous_runs onward (here.previous marked)).lift
  have shorter : rest.length < bound := by
    rw [held.split, List.length_append, List.length_cons] at bounded
    omega
  have place : ∀ passed, d.past (own ++ t :: passed) = ((d.past own).past [t]).past passed := by
    intro passed
    rw [past_append, past_cons]
  have whole : ∀ {passed others}, rest = passed ++ others →
      ahead = (own ++ t :: passed) ++ others := by
    intro passed others split
    rw [held.split, split, List.append_assoc, List.cons_append]
  obtain ⟨result, e, runs, outcome⟩ := below _ rest onward shorter
  cases outcome with
  | @read right rightOwn others split spells shaped tight settled =>
      have root := Expr.tightness_binary left right isInfix
      refine .inl ⟨.binary left t right, own ++ t :: rightOwn, others, ?_, ?_, ?_⟩
      · exact ⟨whole split, .binary held.spells spells,
          .of_level isInfix held.tight tight held.shaped shaped, Nat.le_of_eq root.symm,
          fun t atHead other isOther => Nat.le_of_lt_succ (settled t atHead other isOther)⟩
      · rw [split, List.length_append]
        exact Nat.le_add_left _ _
      · rw [place]
        exact looked.someBind (runs.someBind (.pure _))
  | @fault fault passed others split fails =>
      refine .inr ⟨_, ?_, looked.someBind runs.noneBind⟩
      rw [← place]
      refine .fault (whole split) fun frames around => ?_
      have under := around.resolve_left (Nat.not_le.mpr level.rank_lt)
      rw [held.split, read_left under isInfix held.spells held.shaped held.tight]
      exact fails _ (.inr (Nat.lt_succ_self _))

/-- The rounds of a level, behind an operand that is read. Induction on the number of tokens
that are left. -/
theorem rounds_come (marked : Marked tokens word mark) {level : Level}
    (below : Reads word mark bound (level.rank + 1) operand) (faces : Faces word d ahead)
    (bounded : ahead.length < bound) {left : Expr} {own : List Token}
    (held : Held level ahead left own rest) :
    Comes word.length
      (repeatWhile tokens (accept tokens (operatorsOf level)) (rightOf tokens operand) left)
      (d.past own) (Outcome mark level.rank d ahead) := by
  induction count : rest.length using Nat.strongRecOn generalizing own rest left with
  | ind count inductionHypothesis =>
      have here : Faces word (d.past own) rest := (held.split ▸ faces).past
      by_cases isOne : ∃ t ∈ rest.head?, t.kind ∈ operatorsOf level
      · obtain ⟨t, atHead, isOne⟩ := isOne
        obtain ⟨behind, rfl⟩ := List.head?_eq_some_iff.mp atHead
        have accepted := accept_runs marked here isOne
        have isInfix := (level?_eq_some_iff t.kind level).mpr isOne
        rcases rightOf_comes marked below faces bounded held isInfix with
          ⟨next, longer, others, grown, fewer, runs⟩ | ⟨e, outcome, runs⟩
        · have inside : Faces word (d.past longer) others := (grown.split ▸ faces).past
          have further : (d.past own).current < (d.past longer).current := by
            have before := here.length_eq
            have behindIt := inside.length_eq
            rw [List.length_cons] at before
            omega
          obtain ⟨result, e, later, outcome⟩ :=
            inductionHypothesis _ (count ▸ Nat.lt_succ_of_le fewer) grown rfl
          exact ⟨result, e, repeatWhile_next accepted runs further
            (Nat.le_trans inside.inside (Nat.le_of_lt marked.length_lt)) later, outcome⟩
        · exact ⟨none, e, repeatWhile_fails accepted runs, outcome⟩
      · have differs : ∀ t ∈ rest.head?, t.kind ∉ operatorsOf level :=
          fun t atHead member => isOne ⟨t, atHead, member⟩
        refine ⟨some left, _, repeatWhile_stop (accept_refuses marked here differs),
          .read held.split held.spells held.shaped held.tight ?_⟩
        intro t atHead other isOther
        refine Nat.lt_of_le_of_ne (held.settled t atHead other isOther) fun same => ?_
        obtain rfl := Level.eq_of_rank_eq same
        exact differs t atHead ((level?_eq_some_iff t.kind other).mp isOther)

/-- A level reads operands of its own tightness if its operands are tighter. -/
theorem infixLevel_reads (marked : Marked tokens word mark) (level : Level)
    (below : Reads word mark bound (level.rank + 1) operand) :
    Reads word mark bound level.rank (infixLevel tokens (operatorsOf level) operand) := by
  intro d ahead faces bounded
  obtain ⟨result, e, runs, outcome⟩ := below d ahead faces bounded
  cases outcome with
  | read split spells shaped tight settled =>
      obtain ⟨result, f, later, outcome⟩ := rounds_come marked below faces bounded
        ⟨split, spells, shaped, Nat.le_of_succ_le tight,
          fun t atHead other isOther => Nat.le_of_lt_succ (settled t atHead other isOther)⟩
      exact ⟨result, f, runs.someBind later, outcome⟩
  | fault split fails =>
      refine ⟨none, _, runs.noneBind, .fault split fun frames around => ?_⟩
      have under := around.resolve_left (Nat.not_le.mpr level.rank_lt)
      exact fails frames (.inr (under.mono (Nat.le_succ _)))

theorem expressionOver_reads (marked : Marked tokens word mark)
    (below : Reads word mark bound 4 operand) :
    Reads word mark bound 0 (expressionOver tokens operand) := by
  have factor : Reads word mark bound 3 (factor tokens operand) :=
    infixLevel_reads marked .factor below
  have term : Reads word mark bound 2 (term tokens operand) :=
    infixLevel_reads marked .term factor
  have comparison : Reads word mark bound 1 (comparison tokens operand) :=
    infixLevel_reads marked .comparison term
  exact infixLevel_reads marked .equality comparison

/-- No infix operator at all follows a whole expression. -/
theorem noInfix_of_settled
    (settled : ∀ t ∈ rest.head?, ∀ level ∈ t.kind.level?, level.rank < 0) :
    ∀ t ∈ rest.head?, t.kind.level? = none := by
  intro t atHead
  cases isInfix : t.kind.level? with
  | none => rfl
  | some level => exact absurd (settled t atHead level isInfix) (Nat.not_lt_zero _)

/-! ## Operands -/

theorem settled_of_four_le {tightness : Nat} (tight : 4 ≤ tightness) (t : Token) :
    ∀ level ∈ t.kind.level?, level.rank < tightness :=
  fun level _ => Nat.lt_of_lt_of_le level.rank_lt tight

/-- A single token that is an operand by itself. -/
theorem comes_leaf {value : Value} (spells : Spells (.literal value) [t])
    {step : Reading Expr} (runs : Runs word.length step.run (d.past [t]) (some (.literal value))
      (d.past [t])) :
    Comes word.length step (d.past [t]) (Outcome mark 4 d (t :: rest)) :=
  ⟨_, _, runs, .read rfl spells (.literal value) (Nat.le_succ 4)
    fun t _ => settled_of_four_le (Nat.le_refl 4) t⟩

/-- A parenthesis with what stands in it. -/
theorem group_comes (marked : Marked tokens word mark) (below : Reads word mark bound 4 operand)
    (faces : Faces word d (t :: rest)) (opens : t.kind = .leftParen)
    (bounded : rest.length < bound) :
    Comes word.length (do
        let inner ← expressionOver tokens operand
        let _ ← consume tokens .rightParen .expectedClosing
        return .grouping inner) (d.past [t]) (Outcome mark 4 d (t :: rest)) := by
  have onward : Faces word (d.past [t]) rest := faces.past
  have opening : ∀ frames : List Frame, (State.awaiting frames).read (t :: rest) =
      (State.awaiting (.group :: frames)).read rest := by
    intro frames
    rw [State.read, step_opening opens]
  obtain ⟨result, e, runs, outcome⟩ :=
    expressionOver_reads marked below (d.past [t]) rest onward bounded
  cases outcome with
  | @fault fault passed others split fails =>
      refine ⟨none, _, runs.noneBind, ?_⟩
      rw [← past_cons]
      refine .fault (by rw [split, List.cons_append]) ?_
      intro frames _
      rw [opening]
      exact fails _ (.inr trivial)
  | @read inner own others split spells shaped tight settled =>
      have behind : Faces word ((d.past [t]).past own) others := (split ▸ onward).past
      have noInfix := noInfix_of_settled settled
      by_cases closes : ∃ c ∈ others.head?, c.kind = .rightParen
      · obtain ⟨c, atHead, closes⟩ := closes
        obtain ⟨last, rfl⟩ := List.head?_eq_some_iff.mp atHead
        refine ⟨_, _, runs.someBind
          ((consume_runs marked behind closes .expectedClosing).someBind (.pure _)), ?_⟩
        rw [← past_append, ← past_cons]
        have whole : t :: rest = t :: (own ++ [c]) ++ last := by
          rw [split, List.cons_append, List.append_assoc, List.singleton_append]
        exact .read whole (.grouping opens spells closes) (.grouping shaped) (Nat.le_succ 4)
          fun t _ => settled_of_four_le (Nat.le_refl 4) t
      · have noClosing : ∀ c ∈ others.head?, c.kind ≠ .rightParen :=
          fun c atHead isClosing => closes ⟨c, atHead, isClosing⟩
        refine ⟨none, _, runs.someBind
          (consume_refuses marked behind noClosing .expectedClosing).noneBind, ?_⟩
        rw [← past_cons]
        refine .fault (by rw [split, List.cons_append]) ?_
        intro frames _
        have inside := read_spelled spells shaped (.group :: frames) others (.inr trivial)
          (.of_noInfix _ noInfix)
        rw [opening, split, inside]
        exact read_unclosed noInfix noClosing

theorem primary_come (marked : Marked tokens word mark) (below : Reads word mark bound 4 operand)
    (faces : Faces word d ahead) (bounded : ahead.length < bound + 1)
    (noPrefix : ∀ t ∈ ahead.head?, t.kind ∉ [Kind.bang, .minus]) :
    Comes word.length (primary tokens operand) d (Outcome mark 4 d ahead) := by
  refine comes_accept marked faces ?_ fun noFalse => ?_
  · rintro t rest rfl isFalse
    exact comes_leaf (.falseWord (List.mem_singleton.mp isFalse)) (.pure _)
  refine comes_accept marked faces ?_ fun noTrue => ?_
  · rintro t rest rfl isTrue
    exact comes_leaf (.trueWord (List.mem_singleton.mp isTrue)) (.pure _)
  refine comes_accept marked faces ?_ fun noNil => ?_
  · rintro t rest rfl isNil
    exact comes_leaf (.nilWord (List.mem_singleton.mp isNil)) (.pure _)
  refine comes_accept marked faces ?_ fun noDatum => ?_
  · rintro t rest rfl isDatum
    have looked := (previous_runs faces.past (faces.previous marked)).lift
    exact comes_leaf (.datum (by simpa using isDatum)) (looked.someBind (.pure _))
  refine comes_accept marked faces ?_ fun noOpening => ?_
  · rintro t rest rfl opens
    exact group_comes marked below faces (List.mem_singleton.mp opens)
      (Nat.lt_of_succ_lt_succ bounded)
  · refine ⟨none, d.refused .expectedExpression (TokenStream.mk ahead mark).current,
      refuse_runs marked faces _, .fault (List.nil_append ahead).symm fun frames _ => ?_⟩
    refine read_refused ?_ ?_ noPrefix
    · intro t atHead
      have leaves := And.intro (noFalse t atHead) (And.intro (noTrue t atHead)
        (And.intro (noNil t atHead) (noDatum t atHead)))
      simpa using leaves
    · intro t atHead opens
      exact noOpening t atHead (List.mem_singleton.mpr opens)

/-- Operands with prefix operators are read, if those inside them are. -/
theorem unaryOver_reads (marked : Marked tokens word mark)
    (below : Reads word mark bound 4 operand) :
    Reads word mark (bound + 1) 4 (unaryOver tokens operand) := by
  intro d ahead faces bounded
  refine comes_accept marked faces ?_ (primary_come marked below faces bounded)
  rintro t rest rfl isPrefix
  have isPrefix : t.kind = .bang ∨ t.kind = .minus := by simpa using isPrefix
  have looked := (previous_runs faces.past (faces.previous marked)).lift
  obtain ⟨result, e, runs, outcome⟩ :=
    below (d.past [t]) rest faces.past (Nat.lt_of_succ_lt_succ bounded)
  cases outcome with
  | read split spells shaped tight settled =>
      refine ⟨_, _, looked.someBind (runs.someBind (.pure _)), ?_⟩
      rw [← past_cons]
      exact .read (by rw [split, List.cons_append]) (.unary spells) (.unary isPrefix tight shaped)
        (Nat.le_refl 4) settled
  | fault split fails =>
      refine ⟨none, _, looked.someBind runs.noneBind, ?_⟩
      rw [← past_cons]
      refine .fault (by rw [split, List.cons_append]) fun frames _ => ?_
      rw [State.read, step_unary isPrefix]
      exact fails _ (.inl (Nat.le_refl 4))

/-- **Operands are read in place.** Induction on the number of tokens ahead: the operands
inside an operand have fewer ahead. -/
theorem unary_reads (marked : Marked tokens word mark) :
    ∀ bound, Reads word mark bound 4 (unary tokens) := by
  intro bound
  induction bound with
  | zero =>
      intro d ahead _ bounded
      contradiction
  | succ bound inductionHypothesis =>
      intro d ahead faces bounded
      have inner : Reads word mark ahead.length 4 fun s =>
          if tokens.length - s.descent.current < tokens.length - d.current then unary tokens s
          else none := by
        intro e rest facesInner shorter
        obtain ⟨result, f, runs, outcome⟩ :=
          inductionHypothesis e rest facesInner (by omega)
        refine ⟨result, f, fun calls => ?_, outcome⟩
        obtain ⟨own, run, inside⟩ := runs calls
        have outerLength := faces.length_eq
        have innerLength := facesInner.length_eq
        have whole := marked.length_lt
        have nearer : tokens.length - e.current < tokens.length - d.current := by omega
        refine ⟨own, ?_, inside⟩
        show (if tokens.length - e.current < tokens.length - d.current
          then unary tokens ⟨e, calls⟩ else none) = _
        rw [if_pos nearer]
        exact run
      obtain ⟨result, e, runs, outcome⟩ :=
        unaryOver_reads marked inner d ahead faces (Nat.lt_succ_self _)
      refine ⟨result, e, fun calls => ?_, outcome⟩
      obtain ⟨own, run, inside⟩ := runs calls
      refine ⟨own, ?_, inside⟩
      show unary tokens ⟨d, calls⟩ = _
      rw [unary]
      exact run

theorem expression_comes (marked : Marked tokens word mark) (faces : Faces word d ahead) :
    Comes word.length (expression tokens) d (Outcome mark 0 d ahead) :=
  expressionOver_reads marked (unary_reads marked (ahead.length + 1)) d ahead faces
    (Nat.lt_succ_self _)

/-! ## Recovery -/

theorem skips_runs (marked : Marked tokens word mark) (faces : Faces word d (t :: rest))
    {previous : Token} (found : tokens[d.current - 1]? = some previous) :
    Runs word.length (skips tokens) d
      (!(previous.kind = .semicolon || t.kind.opensStatement)) d := by
  refine (isAtEnd_runs marked faces).bind ((previous_runs faces found).bind ?_)
  by_cases isEnd : previous.kind = .semicolon
  · rw [if_pos isEnd, decide_eq_true isEnd]
    exact .pure false
  · rw [if_neg isEnd, decide_eq_false isEnd]
    exact (peek_runs marked faces).bind (.pure _)

/-- Skipping stops where reading may resume. -/
theorem resume_runs (marked : Marked tokens word mark) :
    ∀ (d : Descent) (previous : Token), Faces word d ahead →
      tokens[d.current - 1]? = some previous →
      ∃ e, Runs word.length (OptionT.run (repeatWhile tokens (skips tokens)
          (fun _ => OptionT.lift (discard (advance tokens))) ())) d (some ()) e ∧
        Faces word e (TokenStream.resume previous ahead) ∧ e.reports = d.reports := by
  induction ahead with
  | nil =>
      intro d previous faces _
      exact ⟨d, repeatWhile_stop ((isAtEnd_runs marked faces).bind (.pure false)), faces, rfl⟩
  | cons t rest inductionHypothesis =>
      intro d previous faces found
      have tested := skips_runs marked faces found
      rw [TokenStream.resume]
      cases stops : decide (previous.kind = .semicolon) || t.kind.opensStatement with
      | true =>
          rw [stops] at tested
          exact ⟨d, repeatWhile_stop tested, faces, rfl⟩
      | false =>
          rw [stops] at tested
          have onward : Faces word (d.past [t]) rest := faces.past
          obtain ⟨e, runs, facesThere, reports⟩ :=
            inductionHypothesis (d.past [t]) t onward (faces.previous marked)
          refine ⟨e, ?_, facesThere, reports⟩
          exact repeatWhile_next tested (advance_runs marked faces).discard.lift
            (Nat.lt_succ_self _) (Nat.le_trans onward.inside (Nat.le_of_lt marked.length_lt)) runs

theorem synchronize_runs (marked : Marked tokens word mark) (faces : Faces word d ahead) :
    ∃ e, Runs word.length (synchronize tokens) d () e ∧
      Faces word e (TokenStream.mk ahead mark).synchronize.pending ∧ e.reports = d.reports := by
  cases ahead with
  | nil =>
      obtain ⟨last, stays⟩ := advance_atEnd marked faces
      obtain ⟨previous, found⟩ := faces.exists_previous marked
      obtain ⟨e, runs, facesThere, reports⟩ := resume_runs marked d previous faces found
      exact ⟨e, stays.discard.bind runs.discard, facesThere, reports⟩
  | cons t rest =>
      obtain ⟨e, runs, facesThere, reports⟩ :=
        resume_runs marked (d.past [t]) t faces.past (faces.previous marked)
      exact ⟨e, (advance_runs marked faces).discard.bind runs.discard, facesThere, reports⟩

/-! ## Moves -/

/-- A reading in place stands where a reader stands, with its reports. -/
structure Follows (word : List Token) (mark : Token) (d : Descent) (r : Reader) : Prop where
  faces : Faces word d r.stream.pending
  finish : r.stream.finish = mark
  reports : d.reports = r.reports

theorem perform_follows (marked : Marked tokens word mark) {r : Reader}
    (follows : Follows word mark d r) (m : Move) :
    ∃ e, Runs word.length (perform tokens m) d (r.move m).1 e ∧
      Follows word mark e (r.move m).2 := by
  obtain ⟨faces, finish, reports⟩ := follows
  have stream : r.stream = ⟨r.stream.pending, mark⟩ := by rw [← finish]
  cases m with
  | synchronize =>
      obtain ⟨e, runs, facesThere, kept⟩ := synchronize_runs marked faces
      rw [← stream] at facesThere
      refine ⟨e, runs.bind (.pure none), facesThere, ?_, kept.trans reports⟩
      exact r.stream.synchronize_finish.trans finish
  | parse =>
      obtain ⟨result, e, runs, outcome⟩ := expression_comes marked faces
      cases outcome with
      | @read tree own rest split spells shaped _ settled =>
          have parses : r.stream.parse = (.ok tree, ⟨rest, mark⟩) := by
            rw [stream, TokenStream.parse, split,
              read_start_complete spells shaped (noInfix_of_settled settled)]
            rfl
          rw [Reader.move, parses]
          exact ⟨_, runs, (split ▸ faces).past, rfl, reports⟩
      | @fault fault passed rest split fails =>
          have parses : r.stream.parse =
              (.error ⟨(TokenStream.mk rest mark).current, fault⟩, ⟨rest, mark⟩) := by
            rw [stream, TokenStream.parse, State.start, fails [] (.inr trivial)]
            rfl
          rw [Reader.move, parses]
          have behind : Faces word (d.past passed) rest := (split ▸ faces).past
          refine ⟨_, runs, ⟨behind.inside, behind.ahead⟩, rfl, ?_⟩
          show d.reports ++ _ = r.reports ++ _
          rw [reports]
          rfl

theorem Follows.eq {r : Reader} (follows : Follows word mark d r) :
    d = ⟨word.length - r.stream.pending.length, r.reports⟩ := by
  rw [follows.faces.length_eq, Nat.add_sub_cancel_right, ← follows.reports]

/-- **Moves in place are the moves of a reader.** -/
theorem play_follows (marked : Marked tokens word mark) (moves : List Move) :
    ∀ (d : Descent) (r : Reader), Follows word mark d r →
      ∃ e, Runs word.length (play tokens moves) d ((r.play moves).map fun step =>
          (step.1, ⟨word.length - step.2.stream.pending.length, step.2.reports⟩)) e ∧
        Follows word mark e (r.after moves) := by
  induction moves with
  | nil =>
      intro d r follows
      exact ⟨d, .pure [], follows⟩
  | cons m rest inductionHypothesis =>
      intro d r follows
      obtain ⟨e, runs, followsNext⟩ := perform_follows marked follows m
      obtain ⟨f, others, followsLast⟩ := inductionHypothesis e (r.move m).2 followsNext
      refine ⟨f, runs.bind (stand_runs.bind (others.bind ?_)), followsLast⟩
      rw [Reader.play, List.map_cons, ← followsNext.eq]
      exact .pure _

end

/-! ## From the start -/

/-- Where a reading in place stands that follows a reader. -/
def ofReader (tokens : List Token) (r : Reader) : Descent :=
  ⟨r.stream.position tokens, r.reports⟩

theorem marked_completed (tokens : List Token) :
    Marked (completed tokens) (TokenStream.ofTokens tokens).pending
      (TokenStream.ofTokens tokens).finish := by
  obtain ⟨behind, split, unmarked, isMark⟩ := completed_split tokens
  exact ⟨⟨behind, split⟩, unmarked, isMark⟩

/-- **Moves in place from the start of a list.** They have a result, which is what the moves
of a reader yield, and all their calls keep to the places up to the first end mark. -/
theorem playFrom_eq (tokens : List Token) (reports : List Report) (moves : List Move) :
    ∃ calls, playFrom tokens reports moves =
        some (((Reader.ofTokens tokens reports).play moves).map fun step =>
            (step.1, ofReader tokens step.2),
          ⟨ofReader tokens ((Reader.ofTokens tokens reports).after moves), calls⟩) ∧
      ∀ call ∈ calls, call.Inside (firstEof tokens) := by
  have marked := marked_completed tokens
  have follows : Follows (TokenStream.ofTokens tokens).pending
      (TokenStream.ofTokens tokens).finish ⟨0, reports⟩ (Reader.ofTokens tokens reports) :=
    ⟨⟨Nat.zero_le _, rfl⟩, rfl, rfl⟩
  obtain ⟨e, runs, followsLast⟩ := play_follows marked moves _ _ follows
  obtain ⟨calls, run, inside⟩ := runs []
  rw [← firstEof_eq, List.append_nil] at run
  rw [← firstEof_eq] at inside
  have last := followsLast.eq
  rw [← firstEof_eq] at last
  rw [last] at run
  exact ⟨calls, run, inside⟩

end LoxCalc.Parse.Descent
