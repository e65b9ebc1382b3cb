import LoxCalc.Proofs.Expr.Failure
import LoxCalc.Proofs.Parse.Acceptance
import LoxCalc.Proofs.Parse.Alike
import LoxCalc.Proofs.Parse.Cursor

/-!
Contract: what tokens look like and where they stand makes no difference to what is read.

Owns:
- `SameMeaning`, tokens of one kind and one literal;
- `Opposite`, the tokens at one place of two lists;
- `Expr.Corresponds`, trees whose operators come from the same places of two lists;
- `Agreement`, what a move comes to over two lists;
- `moves_agree`, that all moves over lists of the same meaning agree.

Lexemes and lines show in reports only.
-/

set_option autoImplicit false

namespace LoxCalc

open Parse

/-! ## Lists of the same meaning -/

/-- Tokens of one kind and one literal; their lexemes and lines may differ. -/
def SameMeaning (t u : Token) : Prop := t.kind = u.kind ∧ t.literal = u.literal

theorem meaning_sameMeaning : Meaning SameMeaning where
  kind := fun same => same.1
  literal := fun same => same.2

/-- The tokens at one place of two lists. -/
def Opposite (tokens tokens' : List Token) (place : Nat) (t u : Token) : Prop :=
  (completed tokens)[place]? = some t ∧ (completed tokens')[place]? = some u

variable {tokens tokens' : List Token}

theorem any_isEof_getLast? (same : List.Forall₂ SameMeaning tokens tokens') :
    tokens.getLast?.any Token.isEof = tokens'.getLast?.any Token.isEof := by
  induction same with
  | nil => rfl
  | cons first others inductionHypothesis =>
      cases others with
      | nil =>
          simp only [List.getLast?_singleton, Option.any_some, Token.isEof, first.1]
      | cons second others =>
          rw [List.getLast?_cons_cons, List.getLast?_cons_cons]
          exact inductionHypothesis

/-- Lists of the same meaning are completed alike. -/
theorem completed_sameMeaning (same : List.Forall₂ SameMeaning tokens tokens') :
    List.Forall₂ SameMeaning (completed tokens) (completed tokens') := by
  have missing : SameMeaning (TokenStream.missingEof tokens) (TokenStream.missingEof tokens') :=
    ⟨rfl, rfl⟩
  unfold completed
  rw [any_isEof_getLast? same]
  split
  · exact same
  · exact List.rel_append same (.cons missing .nil)

theorem Opposite.sameMeaning (same : List.Forall₂ SameMeaning tokens tokens') {place : Nat}
    {t u : Token} (opposite : Opposite tokens tokens' place t u) : SameMeaning t u := by
  obtain ⟨first, second⟩ := opposite
  obtain ⟨bound, rfl⟩ := List.getElem?_eq_some_iff.mp first
  obtain ⟨bound', rfl⟩ := List.getElem?_eq_some_iff.mp second
  exact (completed_sameMeaning same).get bound bound'

/-! ## Trees from the same places -/

/-- Trees of one shape with equal literals that stand between the places `start` and `stop`
of two lists: each operator is the token at its own place in the spelling of the tree, so
both operators of a node come from the same place. -/
inductive Expr.Corresponds (tokens tokens' : List Token) : Nat → Expr → Expr → Nat → Prop where
  | literal (value : Value) (place : Nat) :
      Corresponds tokens tokens' place (.literal value) (.literal value) (place + 1)
  | grouping {start stop : Nat} {inner inner' : Expr}
      (inside : Corresponds tokens tokens' (start + 1) inner inner' stop) :
      Corresponds tokens tokens' start (.grouping inner) (.grouping inner') (stop + 1)
  | unary {start stop : Nat} {t u : Token} {operand operand' : Expr}
      (operator : Opposite tokens tokens' start t u)
      (inside : Corresponds tokens tokens' (start + 1) operand operand' stop) :
      Corresponds tokens tokens' start (.unary t operand) (.unary u operand') stop
  | binary {start place stop : Nat} {t u : Token} {left left' right right' : Expr}
      (before : Corresponds tokens tokens' start left left' place)
      (operator : Opposite tokens tokens' place t u)
      (after : Corresponds tokens tokens' (place + 1) right right' stop) :
      Corresponds tokens tokens' start (.binary left t right) (.binary left' u right') stop

/-- The tokens of a word stand in the list from a place on. -/
def StandsAt (tokens : List Token) (place : Nat) (word : List Token) : Prop :=
  word <+: (completed tokens).drop place

theorem StandsAt.split {place : Nat} {word rest : List Token}
    (stands : StandsAt tokens place (word ++ rest)) :
    StandsAt tokens place word ∧ StandsAt tokens (place + word.length) rest := by
  obtain ⟨behind, whole⟩ := stands
  refine ⟨⟨rest ++ behind, ?_⟩, ⟨behind, ?_⟩⟩
  · rw [← whole, List.append_assoc]
  · rw [← List.drop_drop, ← whole, List.append_assoc, List.drop_left]

theorem StandsAt.uncons {place : Nat} {t : Token} {rest : List Token}
    (stands : StandsAt tokens place (t :: rest)) :
    (completed tokens)[place]? = some t ∧ StandsAt tokens (place + 1) rest := by
  have apart : StandsAt tokens place ([t] ++ rest) := stands
  refine ⟨?_, apart.split.2⟩
  obtain ⟨behind, whole⟩ := apart.split.1
  rw [← Nat.add_zero place, ← List.getElem?_drop, ← whole]
  rfl

/-- Alike trees that are spelled from the same place on correspond. -/
theorem Expr.Alike.corresponds {R : Token → Token → Prop} {e e' : Expr}
    (alike : Expr.Alike R e e') :
    ∀ {start : Nat} {word word' : List Token}, Spells e word → Spells e' word' →
      StandsAt tokens start word → StandsAt tokens' start word' →
      word.length = word'.length ∧
        Expr.Corresponds tokens tokens' start e e' (start + word.length) := by
  induction alike with
  | literal value =>
      intro start word word' spells spells' _ _
      obtain ⟨t, rfl, _⟩ := (spells_literal_iff value word).mp spells
      obtain ⟨u, rfl, _⟩ := (spells_literal_iff value word').mp spells'
      exact ⟨rfl, .literal value start⟩
  | grouping _ inductionHypothesis =>
      intro start word word' spells spells' stands stands'
      cases spells with
      | @grouping _ _ _ inside _ within _ =>
          cases spells' with
          | @grouping _ _ _ inside' _ within' _ =>
              obtain ⟨sameLength, trees⟩ := inductionHypothesis within within'
                stands.uncons.2.split.1 stands'.uncons.2.split.1
              refine ⟨by simp [sameLength], ?_⟩
              have ends : start + 1 + inside.length + 1 =
                  start + (inside.length + 1 + 1) := by omega
              simpa [← ends] using Expr.Corresponds.grouping trees
  | unary operator _ inductionHypothesis =>
      intro start word word' spells spells' stands stands'
      cases spells with
      | @unary _ _ inside within =>
          cases spells' with
          | @unary _ _ inside' within' =>
              obtain ⟨first, others⟩ := stands.uncons
              obtain ⟨first', others'⟩ := stands'.uncons
              obtain ⟨sameLength, trees⟩ := inductionHypothesis within within' others others'
              refine ⟨by simp [sameLength], ?_⟩
              have ends : start + 1 + inside.length = start + (inside.length + 1) := by omega
              rw [List.length_cons, ← ends]
              exact .unary ⟨first, first'⟩ trees
  | binary _ operator _ leftHypothesis rightHypothesis =>
      intro start word word' spells spells' stands stands'
      cases spells with
      | @binary _ _ _ leftWord rightWord before after =>
          cases spells' with
          | @binary _ _ _ leftWord' rightWord' before' after' =>
              obtain ⟨left, others⟩ := stands.split
              obtain ⟨left', others'⟩ := stands'.split
              obtain ⟨sameLeft, leftTrees⟩ := leftHypothesis before before' left left'
              rw [← sameLeft] at others'
              obtain ⟨middle, right⟩ := others.uncons
              obtain ⟨middle', right'⟩ := others'.uncons
              obtain ⟨sameRight, rightTrees⟩ := rightHypothesis after after' right right'
              refine ⟨by simp [sameLeft, sameRight], ?_⟩
              have ends : start + leftWord.length + 1 + rightWord.length =
                  start + (leftWord.length + (rightWord.length + 1)) := by omega
              rw [List.length_append, List.length_cons, ← ends]
              exact .binary leftTrees ⟨middle, middle'⟩ rightTrees

/-! ## Evaluation -/

/-- Tokens that stand at the same place of two lists of the same meaning. -/
theorem meaning_opposite (same : List.Forall₂ SameMeaning tokens tokens') :
    Meaning fun t u => ∃ place, Opposite tokens tokens' place t u where
  kind := fun ⟨_, opposite⟩ => (opposite.sameMeaning same).1
  literal := fun ⟨_, opposite⟩ => (opposite.sameMeaning same).2

theorem Expr.Corresponds.alike {start stop : Nat} {e e' : Expr}
    (trees : Expr.Corresponds tokens tokens' start e e' stop) :
    Expr.Alike (fun t u => ∃ place, Opposite tokens tokens' place t u) e e' := by
  induction trees with
  | literal value place => exact .literal value
  | grouping _ inductionHypothesis => exact .grouping inductionHypothesis
  | unary operator _ inductionHypothesis => exact .unary ⟨_, operator⟩ inductionHypothesis
  | binary _ operator _ leftHypothesis rightHypothesis =>
      exact .binary leftHypothesis ⟨_, operator⟩ rightHypothesis

/-- Both results are the same value, or both are errors with the same message at operators
from the same place. -/
def SameResult (tokens tokens' : List Token) :
    Except EvalError Value → Except EvalError Value → Prop :=
  Matching
    (fun e f => e.message = f.message ∧
      ∃ place, Opposite tokens tokens' place e.operator f.operator)
    (· = ·)

/-- Corresponding trees that are well shaped evaluate alike. That the lexeme of an operator
does not show is due to their shape: it is named only when an operator is not supported. -/
theorem Expr.Corresponds.sameResult (same : List.Forall₂ SameMeaning tokens tokens')
    {start stop : Nat} {e e' : Expr} (trees : Expr.Corresponds tokens tokens' start e e' stop)
    (shaped : WellShaped e) : SameResult tokens tokens' e.eval e'.eval := by
  have results := eval_alike (meaning_opposite same) trees.alike
  generalize isFirst : e.eval = first at results
  generalize e'.eval = second at results
  cases results with
  | ok sameValue => exact .ok sameValue
  | @error fault fault' related =>
      obtain ⟨place, sameFault⟩ := related
      have supported := shaped.fault_ne isFirst
      refine .error ⟨?_, place⟩
      unfold EvalError.message
      rw [← sameFault]
      cases isFault : fault.fault with
      | unsupportedOperator => exact absurd isFault supported
      | operandNotNumber => rfl
      | operandsNotNumbers => rfl
      | operandsNotAddable => rfl

/-! ## Moves -/

/-- What a move from the place `start` to the place `stop` yields and files over two lists:
two trees that correspond and evaluate alike; two reports with one message about the tokens
at the place where reading stopped; or nothing, for recovery. -/
inductive Agreement (tokens tokens' : List Token) (start stop : Nat) :
    Move → Option Expr × List Report → Option Expr × List Report → Prop where
  | read {e e' : Expr} (trees : Expr.Corresponds tokens tokens' start e e' stop)
      (results : SameResult tokens tokens' e.eval e'.eval) :
      Agreement tokens tokens' start stop .parse (some e, []) (some e', [])
  | refused {t u : Token} (fault : Fault) (current : Opposite tokens tokens' stop t u) :
      Agreement tokens tokens' start stop .parse (none, [Report.atToken t fault.message])
        (none, [Report.atToken u fault.message])
  | skipped : Agreement tokens tokens' start stop .synchronize (none, []) (none, [])

theorem firstEof_sameMeaning (same : List.Forall₂ SameMeaning tokens tokens') :
    firstEof tokens = firstEof tokens' := by
  rw [firstEof_eq, firstEof_eq]
  exact (ofTokens_alike meaning_sameMeaning same ⟨rfl, rfl⟩).pending.length_eq

/-- Alike streams stand at the same place of their lists. -/
theorem position_alike (same : List.Forall₂ SameMeaning tokens tokens') {s s' : TokenStream}
    (alike : TokenStream.Alike SameMeaning s s') : s.position tokens = s'.position tokens' := by
  rw [TokenStream.position, TokenStream.position, firstEof_sameMeaning same,
    alike.pending.length_eq]

/-- A tree that is read is spelled by the tokens that stand from its place on. -/
theorem Parse.Reads.standsAt {start stop : Nat} {e : Expr} (reads : Reads tokens start e stop) :
    ∃ word, Spells e word ∧ StandsAt tokens start word ∧ stop = start + word.length := by
  obtain ⟨ordered, _, spells, _, nextAt, _⟩ := (reads_iff tokens start e stop).mp reads
  have inside : stop < (completed tokens).length := (List.getElem?_eq_some_iff.mp nextAt).1
  refine ⟨_, spells, ?_, ?_⟩
  · rw [List.extract_eq_take_drop]
    exact List.take_prefix _ _
  · rw [List.extract_eq_take_drop, List.length_take, List.length_drop]
    omega

/-- Alike trees that are read between the same places correspond. -/
theorem Parse.Reads.corresponds {R : Token → Token → Prop} {start stop : Nat} {e e' : Expr}
    (reads : Reads tokens start e stop) (reads' : Reads tokens' start e' stop)
    (alike : Expr.Alike R e e') : Expr.Corresponds tokens tokens' start e e' stop := by
  obtain ⟨word, spells, stands, rfl⟩ := reads.standsAt
  obtain ⟨word', spells', stands', _⟩ := reads'.standsAt
  exact (alike.corresponds spells spells' stands stands').2

/-- A reader at its place that reads a tree. -/
theorem Parse.Stands.move_of_ok {r : Reader} (stands : Stands tokens r.stream) {e : Expr}
    (isOk : r.stream.parse.1 = .ok e) :
    (r.move .parse).1 = some e ∧ (r.move .parse).2.reports = r.reports ∧
      Reads tokens (r.stream.position tokens) e ((r.move .parse).2.stream.position tokens) := by
  have moves := Reader.move_of_ok isOk
  rw [moves]
  exact ⟨rfl, rfl, (move_parse_iff stands e _).mp ⟨_, moves, rfl⟩⟩

/-- A reader at its place that reads no tree: the report is about the token at the place
where it stops. -/
theorem Parse.Stands.move_of_error {r : Reader} (stands : Stands tokens r.stream) {err : Error}
    (isError : r.stream.parse.1 = .error err) :
    (r.move .parse).1 = none ∧
      (r.move .parse).2.reports = r.reports ++ [Report.atToken err.token err.fault.message] ∧
      (completed tokens)[(r.move .parse).2.stream.position tokens]? = some err.token := by
  have parses : r.stream.parse = (.error err, r.stream.parse.2) := Prod.ext isError rfl
  have moves := Reader.move_of_error isError
  obtain ⟨dropped, split, sameFinish⟩ := r.move_stream .parse
  have current := (stands.moved split sameFinish).inside.current
  rw [moves] at current ⊢
  exact ⟨rfl, rfl, by rw [current, TokenStream.token_of_parse_error parses]⟩

/-- **Moves over lists of the same meaning agree.** After the same moves both readers stand
at the same place; the next move leads both to the same place, and yields corresponding
trees that evaluate alike, or nothing with the same reports about the tokens there. -/
theorem moves_agree (tokens tokens' : List Token)
    (same : List.Forall₂ SameMeaning tokens tokens') (reports reports' : List Report)
    (moves : List Move) (m : Move) :
    let now := (Reader.ofTokens tokens reports).after moves
    let now' := (Reader.ofTokens tokens' reports').after moves
    let start := now.stream.position tokens
    let stop := (now.move m).2.stream.position tokens
    start = now'.stream.position tokens' ∧ stop = (now'.move m).2.stream.position tokens' ∧
      ∃ filed filed', (now.move m).2.reports = now.reports ++ filed ∧
        (now'.move m).2.reports = now'.reports ++ filed' ∧
        Agreement tokens tokens' start stop m ((now.move m).1, filed) ((now'.move m).1, filed') := by
  intro now now' start stop
  have alike : TokenStream.Alike SameMeaning now.stream now'.stream :=
    Reader.after_alike meaning_sameMeaning moves
      (ofTokens_alike meaning_sameMeaning same ⟨rfl, rfl⟩)
  have sameStart : start = now'.stream.position tokens' := position_alike same alike
  have sameStop : stop = (now'.move m).2.stream.position tokens' :=
    position_alike same (Reader.move_alike meaning_sameMeaning alike m)
  refine ⟨sameStart, sameStop, ?_⟩
  cases m with
  | synchronize =>
      exact ⟨[], [], (List.append_nil _).symm, (List.append_nil _).symm, .skipped⟩
  | parse =>
      have stands : Stands tokens now.stream :=
        Reader.after_stands tokens moves _ (stands_ofTokens tokens)
      have stands' : Stands tokens' now'.stream :=
        Reader.after_stands tokens' moves _ (stands_ofTokens tokens')
      have matching := (parse_alike meaning_sameMeaning alike).1
      generalize isFirst : now.stream.parse.1 = first at matching
      generalize isSecond : now'.stream.parse.1 = second at matching
      cases matching with
      | ok trees =>
          obtain ⟨yields, kept, reads⟩ := stands.move_of_ok isFirst
          obtain ⟨yields', kept', reads'⟩ := stands'.move_of_ok isSecond
          rw [← sameStart, ← sameStop] at reads'
          have corresponds := reads.corresponds reads' trees
          have shaped := ((reads_iff tokens start _ stop).mp reads).2.1
          refine ⟨[], [], by rw [kept, List.append_nil], by rw [kept', List.append_nil], ?_⟩
          rw [yields, yields']
          exact .read corresponds (corresponds.sameResult same shaped)
      | error related =>
          obtain ⟨yields, filed, current⟩ := stands.move_of_error isFirst
          obtain ⟨yields', filed', current'⟩ := stands'.move_of_error isSecond
          rw [← sameStop] at current'
          refine ⟨_, _, filed, filed', ?_⟩
          rw [yields, yields', ← related.2]
          exact .refused _ ⟨current, current'⟩

/-- `- nil` and the same with other lexemes on other lines are read as trees that fail with
one message at their first tokens. -/
theorem moves_agree_negated_nil :
    let tokens : List Token := [⟨.minus, "-", none, 1⟩, ⟨.kwNil, "nil", none, 1⟩]
    let tokens' : List Token := [⟨.minus, "minus", none, 4⟩, ⟨.kwNil, "nothing", none, 2⟩]
    List.Forall₂ SameMeaning tokens tokens' ∧
      Agreement tokens tokens' 0 2 .parse
        (some (.unary ⟨.minus, "-", none, 1⟩ (.literal .nil)), [])
        (some (.unary ⟨.minus, "minus", none, 4⟩ (.literal .nil)), []) := by
  intro tokens tokens'
  have same : List.Forall₂ SameMeaning tokens tokens' :=
    .cons ⟨rfl, rfl⟩ (.cons ⟨rfl, rfl⟩ .nil)
  obtain ⟨_, _, filed, filed', kept, kept', agree⟩ :=
    moves_agree tokens tokens' same [] [] [] .parse
  have noneFiled : filed = [] := kept.symm
  have noneFiled' : filed' = [] := kept'.symm
  rw [noneFiled, noneFiled'] at agree
  exact ⟨same, agree⟩

end LoxCalc
