import LoxCalc.Proofs.Parse.Correspondence

/-!
Contract: a read that fails stops at the earliest token that no expression can have there.

Owns:
- `Viable`, the kinds in a row that some sentence of the grammar begins with;
- `StateRead.viable` and `not_viable_of_next`, that the tokens behind a state are viable and
  are no longer so with a token that is not taken;
- `finish_message`, what the last token taken says about the fault;
- `Refusal` with `parse_refuses_earliest`, all of it at every place of a list of tokens.

A state never looks ahead, so where it stops depends on the tokens up to there only.
-/

set_option autoImplicit false

namespace LoxCalc.Parse

open Grammar

/-! ## Beginnings of sentences -/

/-- Some sentence of the grammar begins with these kinds. -/
def Viable (kinds : List Kind) : Prop :=
  ∃ others, Derives (.rule .expression) (kinds ++ others)

theorem viable_iff (word : List Token) :
    Viable (word.map Token.kind) ↔ ∃ rest e, WellShaped e ∧ Spells e (word ++ rest) := by
  constructor
  · rintro ⟨others, derives⟩
    -- Any tokens of the further kinds will do.
    let rest : List Token := others.map fun kind => ⟨kind, "", none, 1⟩
    have sameKinds : (word ++ rest).map Token.kind = word.map Token.kind ++ others := by
      simp [rest, Function.comp_def]
    rw [← sameKinds] at derives
    exact ⟨rest, (derives_expression_iff (word ++ rest)).mp derives⟩
  · rintro ⟨rest, tree⟩
    have derives := (derives_expression_iff (word ++ rest)).mpr tree
    rw [List.map_append] at derives
    exact ⟨_, derives⟩

/-! ## The tokens behind a state -/

/-- Around an operand that fits, open frames can be closed: a parenthesis takes one more
token, an operator none. Induction on the frames, with the tree so far as the operand. -/
theorem FramesRead.completes {frames : List Frame} {word own : List Token} {operand : Expr}
    (before : FramesRead frames word) (spells : Spells operand own)
    (shaped : WellShaped operand)
    (fits : 4 ≤ operand.tightness ∨ Under operand.tightness frames) :
    ∃ rest e, WellShaped e ∧ Spells e (word ++ own ++ rest) := by
  induction before generalizing own operand with
  | none => exact ⟨[], operand, shaped, by simpa using spells⟩
  | group before opens inductionHypothesis =>
      let closing : Token := ⟨.rightParen, ")", Option.none, 1⟩
      obtain ⟨rest, e, wholeShaped, wholeSpells⟩ := inductionHypothesis
        (Spells.grouping opens spells (rfl : closing.kind = .rightParen)) (.grouping shaped)
        (.inl (Nat.le_succ 4))
      exact ⟨closing :: rest, e, wholeShaped, by simpa using wholeSpells⟩
  | unary before isPrefix inductionHypothesis =>
      have tight : 4 ≤ operand.tightness := fits.resolve_right id
      obtain ⟨rest, e, wholeShaped, wholeSpells⟩ := inductionHypothesis (Spells.unary spells)
        (.unary isPrefix tight shaped) (.inl (Nat.le_refl 4))
      exact ⟨rest, e, wholeShaped, by simpa using wholeSpells⟩
  | @binary outer _ _ left operator level before leftSpells leftShaped isInfix leftTight under
      inductionHypothesis =>
      have tight : level.rank < operand.tightness :=
        fits.elim (Nat.lt_of_lt_of_le level.rank_lt) id
      have around : Under (Expr.binary left operator operand).tightness outer := by
        rw [Expr.tightness_binary left operand isInfix]
        exact under
      obtain ⟨rest, e, wholeShaped, wholeSpells⟩ := inductionHypothesis
        (Spells.binary leftSpells spells) (.of_level isInfix leftTight tight leftShaped shaped)
        (.inr around)
      exact ⟨rest, e, wholeShaped, by simpa using wholeSpells⟩

/-- The tokens behind a state begin a sentence of the grammar. -/
theorem StateRead.viable {s : State} {word : List Token} (read : StateRead s word) :
    Viable (word.map Token.kind) := by
  rw [viable_iff]
  cases read with
  | awaiting before =>
      let operand : Token := ⟨.kwNil, "nil", none, 1⟩
      have spells : Spells (.literal .nil) [operand] := .nilWord rfl
      obtain ⟨rest, e, shaped, wholeSpells⟩ :=
        before.completes spells (.literal .nil) (.inl (Nat.le_succ 4))
      exact ⟨operand :: rest, e, shaped, by simpa using wholeSpells⟩
  | holding before spells shaped tight _ => exact before.completes spells shaped (.inl tight)

/-! ## The token that is not taken -/

/-- Whatever follows the token that is not taken, reading stops in front of it with the same
result. -/
theorem read_leaves (tokens : List Token) :
    ∀ {s : State} {result : Except Fault Expr} {t : Token} {rest : List Token},
      s.read tokens = (result, t :: rest) →
      ∃ taken, tokens = taken ++ t :: rest ∧
        ∀ others, s.read (taken ++ t :: others) = (result, t :: others) := by
  induction tokens with
  | nil =>
      intro s result t rest reads
      cases (Prod.mk.inj reads).2
  | cons first more inductionHypothesis =>
      intro s result t rest reads
      cases steps : s.step first with
      | none =>
          rw [State.read, steps] at reads
          obtain ⟨rfl, isLeft⟩ := Prod.mk.inj reads
          obtain ⟨rfl, rfl⟩ := List.cons.inj isLeft
          refine ⟨[], rfl, ?_⟩
          intro others
          rw [List.nil_append, State.read, steps]
      | some next =>
          rw [State.read, steps] at reads
          obtain ⟨taken, rfl, leaves⟩ := inductionHypothesis reads
          refine ⟨first :: taken, rfl, ?_⟩
          intro others
          rw [List.cons_append, State.read, steps]
          exact leaves others

/-- With a token that is not taken the tokens before it begin no sentence: the sentence would
be read to its end. -/
theorem not_viable_of_left {taken rest : List Token} {t : Token} {result : Except Fault Expr}
    (reads : State.start.read (taken ++ t :: rest) = (result, t :: rest)) :
    ¬ Viable ((taken ++ [t]).map Token.kind) := by
  rw [viable_iff]
  rintro ⟨more, e, shaped, spells⟩
  obtain ⟨_, sameTokens, leaves⟩ := read_leaves _ reads
  obtain rfl := List.append_cancel_right sameTokens
  have whole : State.start.read (taken ++ [t] ++ more ++ []) = (.ok e, []) :=
    read_start_complete spells shaped (by simp)
  rw [List.append_nil, List.append_assoc, List.singleton_append, leaves more] at whole
  cases (Prod.mk.inj whole).2

/-- An end mark stands in no sentence. -/
theorem not_viable_of_isEof (taken : List Token) {mark : Token} (isMark : mark.isEof = true) :
    ¬ Viable ((taken ++ [mark]).map Token.kind) := by
  rw [viable_iff]
  rintro ⟨more, e, shaped, spells⟩
  have unmarked := spells.not_isEof shaped mark (by simp)
  rw [isMark] at unmarked
  contradiction

/-- Reading stops in front of a token that is not taken, or of the end mark; neither can stand
there. -/
theorem not_viable_of_next {taken rest behind others : List Token} {mark t : Token}
    {result : Except Fault Expr} (reads : State.start.read (taken ++ rest) = (result, rest))
    (isMark : mark.isEof = true) (isNext : rest ++ mark :: behind = t :: others) :
    ¬ Viable ((taken ++ [t]).map Token.kind) := by
  cases rest with
  | nil =>
      obtain ⟨rfl, _⟩ := List.cons.inj isNext
      exact not_viable_of_isEof taken isMark
  | cons next more =>
      obtain ⟨rfl, _⟩ := List.cons.inj isNext
      exact not_viable_of_left reads

/-! ## The fault -/

/-- The kinds of tokens that an expression may end with. -/
def lastKinds : List Kind := [.number, .string, .kwTrue, .kwFalse, .kwNil, .rightParen]

theorem exists_last_of_spells {e : Expr} {word : List Token} (spells : Spells e word) :
    ∃ t, word.getLast? = some t ∧ t.kind ∈ lastKinds := by
  induction spells with
  | @falseWord t kind => exact ⟨t, rfl, by simp [kind, lastKinds]⟩
  | @trueWord t kind => exact ⟨t, rfl, by simp [kind, lastKinds]⟩
  | @nilWord t kind => exact ⟨t, rfl, by simp [kind, lastKinds]⟩
  | @datum t kind => exact ⟨t, rfl, by rcases kind with kind | kind <;> simp [kind, lastKinds]⟩
  | @grouping inner opening closing word _ _ closes _ =>
      refine ⟨closing, ?_, by simp [closes, lastKinds]⟩
      rw [← List.cons_append, List.getLast?_concat]
  | unary _ inductionHypothesis =>
      obtain ⟨t, isLast, listed⟩ := inductionHypothesis
      exact ⟨t, by simp [List.getLast?_cons, isLast], listed⟩
  | binary _ _ _ rightHypothesis =>
      obtain ⟨t, isLast, listed⟩ := rightHypothesis
      exact ⟨t, by simp [List.getLast?_cons, isLast], listed⟩

/-- Behind open frames stands a parenthesis or an operator. -/
theorem FramesRead.last_not_mem {frames : List Frame} {word : List Token}
    (before : FramesRead frames word) : ∀ t ∈ word.getLast?, t.kind ∉ lastKinds := by
  have ends : ∀ {first : List Token} {last : Token}, last.kind ∉ lastKinds →
      ∀ t ∈ (first ++ [last]).getLast?, t.kind ∉ lastKinds := by
    intro first last unlisted t isLast
    rw [List.getLast?_concat] at isLast
    obtain rfl := Option.some.inj isLast
    exact unlisted
  cases before with
  | none => simp
  | group _ opens => exact ends (by rw [opens]; decide)
  | unary _ isPrefix =>
      refine ends ?_
      rcases isPrefix with kind | kind <;> rw [kind] <;> decide
  | @binary _ _ _ _ operator level _ _ _ isInfix _ _ =>
      refine ends ?_
      have noneListed : ∀ kind ∈ lastKinds, kind.level? = Option.none := by decide
      intro listed
      rw [noneListed _ listed] at isInfix
      contradiction

/-- A parenthesis is missing exactly if the last token taken may end an expression. -/
theorem finish_message {s : State} {word : List Token} {fault : Fault} (read : StateRead s word)
    (fails : s.finish = .error fault) :
    ((∃ t, word.getLast? = some t ∧ t.kind ∈ lastKinds) →
        fault.message = "Expect ')' after expression") ∧
      ((¬ ∃ t, word.getLast? = some t ∧ t.kind ∈ lastKinds) →
        fault.message = "Expect expression.") := by
  cases read with
  | awaiting before =>
      obtain rfl := Except.error.inj fails
      refine ⟨?_, fun _ => rfl⟩
      rintro ⟨t, isLast, listed⟩
      exact absurd listed (before.last_not_mem t isLast)
  | holding _ spells _ _ _ =>
      obtain ⟨t, isLast, listed⟩ := exists_last_of_spells spells
      have missing : fault = .expectedClosing := by
        simp only [State.finish] at fails
        split at fails
        · contradiction
        · exact (Except.error.inj fails).symm
      refine ⟨fun _ => by rw [missing]; rfl, ?_⟩
      intro noLast
      exact absurd ⟨t, by simp [List.getLast?_append, isLast], listed⟩ noLast

/-! ## At every place -/

theorem read_of_parse_error {s : TokenStream} {err : Error} (fails : s.parse.1 = .error err) :
    (State.start.read s.pending).1 = .error err.fault := by
  simp only [TokenStream.parse] at fails
  cases result : (State.start.read s.pending).1 with
  | ok e =>
      rw [result] at fails
      contradiction
  | error fault =>
      rw [result] at fails
      obtain rfl := Except.error.inj fails
      rfl

theorem stands_streamFrom {tokens : List Token} {start : Nat} (within : start ≤ firstEof tokens) :
    Stands tokens (streamFrom tokens start) ∧
      (streamFrom tokens start).position tokens = start := by
  have whole := firstEof_eq tokens
  have isDropped : streamFrom tokens start = { TokenStream.ofTokens tokens with
      pending := (TokenStream.ofTokens tokens).pending.drop start } := by
    have split := (List.take_append_drop start (TokenStream.ofTokens tokens).pending).symm
    rw [← streamFrom_zero] at split
    have further := streamFrom_add split
    rwa [List.length_take, streamFrom_zero, ← whole, Nat.min_eq_left within, Nat.zero_add]
      at further
  have remaining : (streamFrom tokens start).pending.length = firstEof tokens - start := by
    rw [isDropped, List.length_drop, ← whole]
  have isPlace : (streamFrom tokens start).position tokens = start := by
    rw [TokenStream.position, remaining]
    omega
  exact ⟨⟨by rw [isPlace], by omega⟩, isPlace⟩

theorem extract_of_drop {all word behind : List Token} {start : Nat}
    (whole : all.drop start = word ++ behind) : all.extract start (start + word.length) = word := by
  rw [List.extract_eq_take_drop, Nat.add_sub_cancel_left, whole, List.take_left]

/-- The token in front of a place ends what was read from `start` on, and may end an
expression. -/
def BehindOperand (tokens : List Token) (start stop : Nat) : Prop :=
  start < stop ∧ ∃ t, (completed tokens)[stop - 1]? = some t ∧ t.kind ∈ lastKinds

/-- What a read comes to that starts at one place and fails at another: the tokens between
begin a sentence of the grammar, the one more at which it stops makes that impossible, and
this one is reported. -/
structure Refusal (tokens : List Token) (start stop : Nat) (filed : List Report) : Prop where
  forward : start ≤ stop
  atMost : stop ≤ firstEof tokens
  viable : Viable (((completed tokens).extract start stop).map Token.kind)
  broken : ¬ Viable (((completed tokens).extract start (stop + 1)).map Token.kind)
  reported : ∃ t location message, (completed tokens)[stop]? = some t ∧
    filed = [.syntactic t.line location message] ∧
    location.text = (if t.kind = .eof then " at end" else " at '" ++ t.lexeme ++ "'") ∧
    (BehindOperand tokens start stop → message = "Expect ')' after expression") ∧
    (¬ BehindOperand tokens start stop → message = "Expect expression.")

theorem location_text (t : Token) : (Location.ofToken t).text =
    if t.kind = .eof then " at end" else " at '" ++ t.lexeme ++ "'" := by
  simp only [Location.ofToken, Token.isEof, decide_eq_true_eq]
  split <;> rfl

/-- What stands in front of a place is the last token of the word between. -/
theorem behindOperand_iff {tokens word behind : List Token} {start : Nat}
    (whole : (completed tokens).drop start = word ++ behind) :
    BehindOperand tokens start (start + word.length) ↔
      ∃ t, word.getLast? = some t ∧ t.kind ∈ lastKinds := by
  rcases List.eq_nil_or_concat word with rfl | ⟨first, last, rfl⟩
  · simp [BehindOperand]
  · have isLast : (completed tokens)[start + first.length]? = some last := by
      rw [← List.getElem?_drop, whole, List.concat_eq_append]
      simp
    simp [BehindOperand, isLast]

theorem refusal_of_read {tokens taken rest : List Token} {start : Nat} {last : State}
    {fault : Fault} (within : start < (completed tokens).length)
    (pending : (streamFrom tokens start).pending = taken ++ rest)
    (reads : State.start.read (taken ++ rest) = (last.finish, rest))
    (read : StateRead last taken) (fails : last.finish = .error fault) {t : Token}
    (current : (completed tokens)[start + taken.length]? = some t)
    (atMost : start + taken.length ≤ firstEof tokens) :
    Refusal tokens start (start + taken.length) [Report.atToken t fault.message] := by
  obtain ⟨behind, whole, _, isMark⟩ := streamFrom_split within
  rw [pending, List.append_assoc] at whole
  -- The token at which reading stops is the first of those left, the end mark included.
  obtain ⟨others, isNext⟩ : ∃ others,
      rest ++ (streamFrom tokens start).finish :: behind = t :: others := by
    rw [← List.getElem?_drop, whole, List.getElem?_append_right (Nat.le_refl _), Nat.sub_self,
      ← List.head?_eq_getElem?] at current
    exact List.head?_eq_some_iff.mp current
  have broken := not_viable_of_next reads isMark isNext
  have behindLast := behindOperand_iff whole
  obtain ⟨closing, operand⟩ := finish_message read fails
  rw [isNext] at whole
  have one : (completed tokens).drop start = (taken ++ [t]) ++ others := by
    rw [whole, List.append_assoc, List.singleton_append]
  have extended := extract_of_drop one
  rw [List.length_append, List.length_singleton, ← Nat.add_assoc] at extended
  refine ⟨Nat.le_add_right _ _, atMost, ?_, ?_, t, _, _, current, rfl, location_text t, ?_, ?_⟩
  · rw [extract_of_drop whole]
    exact read.viable
  · rw [extended]
    exact broken
  · exact fun isBehind => closing (behindLast.mp isBehind)
  · exact fun notBehind => operand fun isLast => notBehind (behindLast.mpr isLast)

/-- **A failed read stops at the earliest token.** From every place up to the first end mark,
a read that fails files one report, about the token at the place where it leaves the reader:
the tokens up to there begin a sentence of the grammar, and with that token they do not. A
read that succeeds files nothing. -/
theorem parse_refuses_earliest (tokens : List Token) (reports : List Report) (start : Nat)
    (within : start ≤ firstEof tokens) :
    let r : Reader := ⟨streamFrom tokens start, reports⟩
    let next := (r.move .parse).2
    let stop := next.stream.position tokens
    r.stream.position tokens = start ∧ next.stream = streamFrom tokens stop ∧
      ((r.move .parse).1 = none →
        ∃ filed, next.reports = reports ++ filed ∧ Refusal tokens start stop filed) ∧
      ((r.move .parse).1.isSome = true → next.reports = reports) := by
  intro r next stop
  obtain ⟨stands, isPlace⟩ := stands_streamFrom within
  obtain ⟨dropped, split, sameFinish⟩ := r.move_stream .parse
  have moved : Stands tokens next.stream := stands.moved split sameFinish
  refine ⟨isPlace, moved.1, ?_, (stands.moveLaw .parse).quiet ∘ .inr⟩
  intro isNone
  cases result : r.stream.parse.1 with
  | ok e =>
      rw [(stands.move_of_ok result).1] at isNone
      contradiction
  | error err =>
      obtain ⟨_, filed, current⟩ := stands.move_of_error result
      refine ⟨_, filed, ?_⟩
      obtain ⟨last, taken, rest, pending, reads, read, _⟩ :=
        read_stops r.stream.pending (StateRead.awaiting .none)
      have left : next.stream.pending = rest := by
        rw [r.move_parse_stream]
        exact (Prod.mk.inj reads).2
      have isStop : stop = start + taken.length := by
        rw [← isPlace]
        exact stands.position_eq (left ▸ pending)
      have fails : last.finish = .error err.fault := by
        rw [← (Prod.mk.inj reads).1]
        exact read_of_parse_error result
      have inside : start < (completed tokens).length :=
        Nat.lt_of_le_of_lt within (firstEof_lt tokens)
      have currentAtStop : (completed tokens)[stop]? = some err.token := current
      have atMost : stop ≤ firstEof tokens := moved.inside.atMost
      rw [isStop] at currentAtStop atMost ⊢
      have readsWhole : State.start.read (taken ++ rest) = (last.finish, rest) := pending ▸ reads
      exact refusal_of_read inside pending readsWhole read fails currentAtStop atMost

/-- From the parenthesis in `; ( nil nil` on, a read stops at the second `nil`, where the
closing parenthesis is missing. -/
theorem parse_refuses_earliest_unclosed :
    let tokens : List Token := [⟨.semicolon, ";", none, 1⟩, ⟨.leftParen, "(", none, 1⟩,
      ⟨.kwNil, "nil", none, 2⟩, ⟨.kwNil, "nil", none, 3⟩]
    let filed : List Report := [.syntactic 3 (.atLexeme "nil") "Expect ')' after expression"]
    1 ≤ firstEof tokens ∧ ((⟨streamFrom tokens 1, []⟩ : Reader).move .parse).2.reports = filed ∧
      Refusal tokens 1 3 filed := by
  intro tokens filed
  have within : 1 ≤ firstEof tokens := by decide
  obtain ⟨_, _, refuses, _⟩ := parse_refuses_earliest tokens [] 1 within
  obtain ⟨own, kept, refusal⟩ := refuses rfl
  have isFiled : own = filed := kept.symm
  rw [isFiled] at refusal
  exact ⟨within, rfl, refusal⟩

end LoxCalc.Parse
