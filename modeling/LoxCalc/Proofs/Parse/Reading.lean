import LoxCalc.Proofs.Parse.Shape

/-!
Contract: what a state has read, and what it reads next.

Owns:
- `Under`, the frames that stay open around an operand;
- `FramesRead` and `StateRead`, the tokens behind a state, kept by every step;
- `read_spelled`, that the tokens of a well-shaped tree are read as that tree;
- `read_start_sound`, that every tree that is read is well shaped and spelled by the
  tokens taken.
-/

set_option autoImplicit false

namespace LoxCalc.Parse

/-! ## Frames around an operand -/

/-- The innermost frame stays open around an operand of the given tightness: it is no
prefix operator, and no infix operator that binds at least as tightly. -/
def Under (tightness : Nat) : List Frame → Prop
  | .unary _ :: _ => False
  | .binary _ _ level :: _ => level.rank < tightness
  | .group :: _ => True
  | [] => True

theorem Under.mono {less more : Nat} {frames : List Frame} (atMost : less ≤ more)
    (under : Under less frames) : Under more frames := by
  cases frames with
  | nil => trivial
  | cons frame outer =>
      cases frame with
      | group => trivial
      | unary operator => exact under.elim
      | binary left operator level => exact Nat.lt_of_lt_of_le under atMost

theorem Under.closeUnary {tightness : Nat} {frames : List Frame}
    (under : Under tightness frames) (operand : Expr) :
    closeUnary frames operand = .holding frames operand := by
  cases frames with
  | nil => rfl
  | cons frame outer =>
      cases frame with
      | group => rfl
      | unary operator => exact under.elim
      | binary left operator level => rfl

theorem Under.closeBinary {level : Level} {frames : List Frame}
    (under : Under level.rank frames) (operand : Expr) :
    closeBinary level frames operand = (frames, operand) := by
  cases frames with
  | nil => rfl
  | cons frame outer =>
      cases frame with
      | group => rfl
      | unary operator => exact under.elim
      | binary left operator own =>
          have looser : ¬ level.rank ≤ own.rank := Nat.not_le.mpr under
          simp only [Parse.closeBinary, looser, ↓reduceIte]

/-! ## Reading the tokens of a tree -/

/-- The token that follows is no infix operator that binds more tightly. -/
def Settled (tightness : Nat) (rest : List Token) : Prop :=
  ∀ t ∈ rest.head?, ∀ level ∈ t.kind.level?, level.rank ≤ tightness

theorem Settled.of_four_le {tightness : Nat} (tight : 4 ≤ tightness) (rest : List Token) :
    Settled tightness rest := by
  intro t _ level _
  exact Nat.le_trans (Nat.le_of_lt level.rank_lt) tight

theorem Settled.mono {less more : Nat} {rest : List Token} (atMost : less ≤ more)
    (settled : Settled less rest) : Settled more rest :=
  fun t atHead level isInfix => Nat.le_trans (settled t atHead level isInfix) atMost

/-- Where no infix operator follows, none that binds more tightly does. -/
theorem Settled.of_noInfix {rest : List Token} (tightness : Nat)
    (noInfix : ∀ t ∈ rest.head?, t.kind.level? = none) : Settled tightness rest := by
  intro t atHead level isInfix
  rw [noInfix t atHead] at isInfix
  contradiction

/-- An infix operator that waits for its right operand reads on like the tree it is
about to become, unless a tighter operator follows. -/
theorem read_holding_binary {frames : List Frame} {left right : Expr} {operator : Token}
    {level : Level} {rest : List Token} (settled : Settled level.rank rest) :
    (State.holding (.binary left operator level :: frames) right).read rest =
      (State.holding frames (.binary left operator right)).read rest := by
  have closes : ∀ other : Level, other.rank ≤ level.rank →
      closeBinary other (.binary left operator level :: frames) right =
        closeBinary other frames (.binary left operator right) := by
    intro other atMost
    rw [closeBinary, if_pos atMost]
  have closesAll : closeAll (.binary left operator level :: frames) right =
      closeAll frames (.binary left operator right) :=
    closes .equality (Nat.zero_le _)
  have sameFinish : (State.holding (.binary left operator level :: frames) right).finish =
      (State.holding frames (.binary left operator right)).finish := by
    simp only [State.finish, closesAll]
  cases rest with
  | nil => simp only [State.read, sameFinish]
  | cons t rest =>
      have sameStep : (State.holding (.binary left operator level :: frames) right).step t =
          (State.holding frames (.binary left operator right)).step t := by
        cases isInfix : t.kind.level? with
        | none => simp only [State.step, isInfix, closesAll]
        | some other =>
            have atMost := settled t rfl other isInfix
            simp only [State.step, isInfix, closes other atMost]
      simp only [State.read, sameStep, sameFinish]

theorem step_unary {frames : List Frame} {operator : Token}
    (isPrefix : operator.kind = .bang ∨ operator.kind = .minus) :
    (State.awaiting frames).step operator = some (.awaiting (.unary operator :: frames)) := by
  rcases isPrefix with kind | kind <;>
    simp [State.step, operandValue?, Kind.unary?, kind]

theorem step_opening {frames : List Frame} {t : Token} (opens : t.kind = .leftParen) :
    (State.awaiting frames).step t = some (.awaiting (.group :: frames)) := by
  simp [State.step, operandValue?, opens]

theorem step_closing {frames : List Frame} {inner : Expr} {t : Token}
    (closes : t.kind = .rightParen) :
    (State.holding (.group :: frames) inner).step t =
      some (closeUnary frames (.grouping inner)) := by
  simp [State.step, Kind.level?, Kind.binary?, closes, closeAll, closeBinary]

theorem step_binary {frames : List Frame} {left : Expr} {operator : Token} {level : Level}
    (isInfix : operator.kind.level? = some level) (under : Under level.rank frames) :
    (State.holding frames left).step operator =
      some (.awaiting (.binary left operator level :: frames)) := by
  simp only [State.step, isInfix, under.closeBinary]

/-- **The tokens of a well-shaped tree are read as that tree**, if the frames around it
stay open and no tighter operator follows. Induction on the tree; the frames and what
follows vary. -/
theorem read_spelled {e : Expr} {word : List Token} (spells : Spells e word)
    (shaped : WellShaped e) :
    ∀ (frames : List Frame) (rest : List Token),
      4 ≤ e.tightness ∨ Under e.tightness frames → Settled e.tightness rest →
      (State.awaiting frames).read (word ++ rest) = (closeUnary frames e).read rest := by
  induction shaped generalizing word with
  | literal value =>
      intro frames rest _ _
      obtain ⟨t, rfl, isValue⟩ := (spells_literal_iff value word).mp spells
      simp only [List.singleton_append, State.read, State.step, isValue]
  | grouping _ inductionHypothesis =>
      intro frames rest _ _
      cases spells with
      | @grouping inner opening closing word opens within closes =>
          have noInfix : ∀ t ∈ (closing :: rest).head?, t.kind.level? = none := by
            intro t atHead
            obtain rfl := Option.some.inj atHead
            rw [closes]
            rfl
          have readInside := inductionHypothesis within (.group :: frames) (closing :: rest)
            (.inr trivial) (.of_noInfix _ noInfix)
          rw [List.cons_append, State.read, step_opening opens, List.append_assoc,
            List.singleton_append]
          refine readInside.trans ?_
          change (State.holding (.group :: frames) _).read (closing :: rest) = _
          rw [State.read, step_closing closes]
  | @unary operator operand isPrefix tight _ inductionHypothesis =>
      intro frames rest _ _
      cases spells with
      | unary within =>
          rw [List.cons_append, State.read, step_unary isPrefix]
          exact inductionHypothesis within (.unary operator :: frames) rest (.inl tight)
            (.of_four_le tight rest)
  | @binary left right operator level isInfix leftTight rightTight _ _ leftIH rightIH =>
      intro frames rest around settled
      rw [← level?_eq_some_iff] at isInfix
      rw [Kind.place_eq_rank isInfix] at leftTight rightTight
      rw [Expr.tightness_binary left right isInfix] at around settled
      have under : Under level.rank frames :=
        around.resolve_left (Nat.not_le.mpr level.rank_lt)
      cases spells with
      | binary before after =>
          rename_i leftWord rightWord
          have operatorSettled : Settled left.tightness (operator :: (rightWord ++ rest)) := by
            intro t atHead other alsoInfix
            obtain rfl := Option.some.inj atHead
            obtain rfl := Option.some.inj (isInfix.symm.trans alsoInfix)
            exact leftTight
          have readLeft := leftIH before frames (operator :: (rightWord ++ rest))
            (.inr (under.mono leftTight)) operatorSettled
          have readRight := rightIH after (.binary left operator level :: frames) rest
            (.inr rightTight) (settled.mono (Nat.le_of_lt rightTight))
          calc (State.awaiting frames).read (leftWord ++ operator :: rightWord ++ rest)
              = (State.holding frames left).read (operator :: (rightWord ++ rest)) := by
                rw [List.append_assoc, List.cons_append, readLeft, under.closeUnary]
            _ = (State.awaiting (.binary left operator level :: frames)).read
                  (rightWord ++ rest) := by
                rw [State.read, step_binary isInfix under]
            _ = (State.holding (.binary left operator level :: frames) right).read rest := by
                rw [readRight]
                rfl
            _ = (State.holding frames (.binary left operator right)).read rest :=
                read_holding_binary settled
            _ = (closeUnary frames (.binary left operator right)).read rest := by
                rw [under.closeUnary]

/-! ## Around an operand -/

/-- Behind a left operand and an operator, the automaton awaits the right operand. -/
theorem read_left {frames : List Frame} {left : Expr} {t : Token} {own behind : List Token}
    {level : Level} (under : Under level.rank frames) (isInfix : t.kind.level? = some level)
    (spells : Spells left own) (shaped : WellShaped left) (tight : level.rank ≤ left.tightness) :
    (State.awaiting frames).read (own ++ t :: behind) =
      (State.awaiting (.binary left t level :: frames)).read behind := by
  have settled : Settled left.tightness (t :: behind) := by
    intro first atHead other alsoInfix
    obtain rfl := Option.some.inj atHead
    obtain rfl := Option.some.inj (isInfix.symm.trans alsoInfix)
    exact tight
  rw [read_spelled spells shaped frames _ (.inr (under.mono tight)) settled, under.closeUnary,
    State.read, step_binary isInfix under]

/-- In front of no operator and no closing parenthesis, an open parenthesis stays open. -/
theorem read_unclosed {frames : List Frame} {inner : Expr} {rest : List Token}
    (noInfix : ∀ t ∈ rest.head?, t.kind.level? = none)
    (noClosing : ∀ t ∈ rest.head?, t.kind ≠ .rightParen) :
    (State.holding (.group :: frames) inner).read rest = (.error .expectedClosing, rest) := by
  cases rest with
  | nil => rfl
  | cons t behind =>
      have refused : (State.holding (.group :: frames) inner).step t = none := by
        simp only [State.step, noInfix t rfl, noClosing t rfl, ↓reduceIte]
      rw [State.read, refused]
      rfl

/-- A token that starts no operand is not taken where one is awaited. -/
theorem read_refused {frames : List Frame} {ahead : List Token}
    (noLeaf : ∀ t ∈ ahead.head?, t.kind ∉ [.kwFalse, .kwTrue, .kwNil, .number, .string])
    (noOpening : ∀ t ∈ ahead.head?, t.kind ≠ .leftParen)
    (noPrefix : ∀ t ∈ ahead.head?, t.kind ∉ [.bang, .minus]) :
    (State.awaiting frames).read ahead = (.error .expectedExpression, ahead) := by
  cases ahead with
  | nil => rfl
  | cons t rest =>
      have noValue : operandValue? t = none := by
        unfold operandValue?
        split
        all_goals first | rfl | exact absurd (by simp only [*]; decide) (noLeaf t rfl)
      have noUnary : ¬ t.kind.unary?.isSome = true := by
        rw [unary?_isSome_iff]
        simpa using noPrefix t rfl
      have refused : (State.awaiting frames).step t = none := by
        rw [State.step, noValue]
        simp only [noOpening t rfl, noUnary, Bool.false_eq_true, ↓reduceIte]
      rw [State.read, refused]
      rfl

/-! ## What has been read -/

/-- The tokens behind open frames, the innermost frame first. -/
inductive FramesRead : List Frame → List Token → Prop where
  | none : FramesRead [] []
  | group {frames : List Frame} {word : List Token} {opening : Token}
      (before : FramesRead frames word) (opens : opening.kind = .leftParen) :
      FramesRead (.group :: frames) (word ++ [opening])
  | unary {frames : List Frame} {word : List Token} {operator : Token}
      (before : FramesRead frames word)
      (isPrefix : operator.kind = .bang ∨ operator.kind = .minus) :
      FramesRead (.unary operator :: frames) (word ++ [operator])
  | binary {frames : List Frame} {word leftWord : List Token} {left : Expr} {operator : Token}
      {level : Level} (before : FramesRead frames word) (spells : Spells left leftWord)
      (shaped : WellShaped left) (isInfix : operator.kind.level? = some level)
      (leftTight : level.rank ≤ left.tightness) (under : Under level.rank frames) :
      FramesRead (.binary left operator level :: frames) (word ++ leftWord ++ [operator])

/-- The tokens behind a state. An operand that is held is no infix tree: those are
built only when their frame closes. -/
inductive StateRead : State → List Token → Prop where
  | awaiting {frames : List Frame} {word : List Token} (before : FramesRead frames word) :
      StateRead (.awaiting frames) word
  | holding {frames : List Frame} {word own : List Token} {operand : Expr}
      (before : FramesRead frames word) (spells : Spells operand own)
      (shaped : WellShaped operand) (tight : 4 ≤ operand.tightness) (under : Under 4 frames) :
      StateRead (.holding frames operand) (word ++ own)

theorem closeUnary_read {frames : List Frame} {word own : List Token} {operand : Expr}
    (before : FramesRead frames word) (spells : Spells operand own)
    (shaped : WellShaped operand) (tight : 4 ≤ operand.tightness) :
    StateRead (closeUnary frames operand) (word ++ own) := by
  induction before generalizing operand own with
  | none => exact .holding .none spells shaped tight trivial
  | group before opens _ => exact .holding (.group before opens) spells shaped tight trivial
  | unary _ isPrefix inductionHypothesis =>
      rw [List.append_assoc, List.singleton_append]
      exact inductionHypothesis (.unary spells) (.unary isPrefix tight shaped) (Nat.le_refl 4)
  | @binary _ _ _ _ _ level before leftSpells leftShaped isInfix leftTight under _ =>
      exact .holding (.binary before leftSpells leftShaped isInfix leftTight under) spells
        shaped tight level.rank_lt

/-- What an operator of a level closes: the tree gets all the tokens of the frames
that are gone, and the next frame stays open around that level. -/
theorem closeBinary_read (level : Level) {frames : List Frame} {word own : List Token}
    {operand : Expr} (before : FramesRead frames word) (spells : Spells operand own)
    (shaped : WellShaped operand) (under : Under operand.tightness frames)
    (tight : level.rank ≤ operand.tightness) :
    ∃ outer whole, word ++ own = outer ++ whole ∧
      FramesRead (closeBinary level frames operand).1 outer ∧
      Spells (closeBinary level frames operand).2 whole ∧
      WellShaped (closeBinary level frames operand).2 ∧
      level.rank ≤ (closeBinary level frames operand).2.tightness ∧
      Under level.rank (closeBinary level frames operand).1 := by
  induction before generalizing operand own with
  | none => exact ⟨[], own, rfl, .none, spells, shaped, tight, trivial⟩
  | group before opens _ =>
      exact ⟨_, own, rfl, .group before opens, spells, shaped, tight, trivial⟩
  | unary _ _ _ => exact under.elim
  | @binary frames word leftWord left operator own' before leftSpells leftShaped isInfix
      leftTight around inductionHypothesis =>
      by_cases closes : level.rank ≤ own'.rank
      · have rootTight := Expr.tightness_binary left operand isInfix
        obtain ⟨outer, whole, sameWord, rest⟩ := inductionHypothesis
          (.binary leftSpells spells)
          (.of_level isInfix leftTight under leftShaped shaped)
          (by rw [rootTight]; exact around) (by rw [rootTight]; exact closes)
        refine ⟨outer, whole, ?_, ?_⟩
        · rw [← sameWord]
          simp only [List.append_assoc, List.singleton_append]
        · rw [closeBinary, if_pos closes]
          exact rest
      · refine ⟨_, own, rfl, ?_⟩
        rw [closeBinary, if_neg closes]
        exact ⟨.binary before leftSpells leftShaped isInfix leftTight around, spells, shaped,
          tight, Nat.not_le.mp closes⟩

theorem step_read {s next : State} {word : List Token} {t : Token} (read : StateRead s word)
    (steps : s.step t = some next) : StateRead next (word ++ [t]) := by
  cases read with
  | awaiting before =>
      simp only [State.step] at steps
      split at steps
      · rename_i value isValue
        obtain rfl := Option.some.inj steps
        exact closeUnary_read before ((spells_literal_iff value [t]).mpr ⟨t, rfl, isValue⟩)
          (.literal value) (Nat.le_succ 4)
      split at steps
      · rename_i opens
        obtain rfl := Option.some.inj steps
        exact .awaiting (.group before opens)
      split at steps
      · rename_i isPrefix
        obtain rfl := Option.some.inj steps
        exact .awaiting (.unary before ((unary?_isSome_iff t.kind).mp isPrefix))
      · contradiction
  | @holding frames word own operand before spells shaped tight under =>
      simp only [State.step] at steps
      split at steps
      · rename_i level isInfix
        obtain rfl := Option.some.inj steps
        obtain ⟨outer, whole, sameWord, framesRead, wholeSpells, wholeShaped, wholeTight, around⟩ :=
          closeBinary_read level before spells shaped (under.mono tight)
            (Nat.le_trans (Nat.le_of_lt level.rank_lt) tight)
        rw [sameWord]
        exact .awaiting (.binary framesRead wholeSpells wholeShaped isInfix wholeTight around)
      split at steps
      · rename_i closes
        obtain ⟨outer, whole, sameWord, framesRead, wholeSpells, wholeShaped, _, _⟩ :=
          closeBinary_read .equality before spells shaped (under.mono tight)
            (Nat.zero_le _)
        split at steps
        · rename_i groupFrames inner isGroup
          obtain rfl := Option.some.inj steps
          rw [closeAll] at isGroup
          rw [isGroup] at framesRead wholeSpells wholeShaped
          cases framesRead with
          | group beforeGroup opens =>
              rw [sameWord, List.append_assoc, List.append_assoc, List.singleton_append]
              exact closeUnary_read beforeGroup (.grouping opens wholeSpells closes)
                (.grouping wholeShaped) (Nat.le_succ 4)
        · contradiction
      · contradiction

/-- What is read when no further token is taken: the tokens behind the final state
are those before and those taken, and the first token left over is refused. -/
theorem read_stops (tokens : List Token) :
    ∀ {s : State} {word : List Token}, StateRead s word →
      ∃ last taken rest, tokens = taken ++ rest ∧ s.read tokens = (last.finish, rest) ∧
        StateRead last (word ++ taken) ∧ ∀ t ∈ rest.head?, last.step t = none := by
  induction tokens with
  | nil =>
      intro s word read
      refine ⟨s, [], [], rfl, rfl, ?_, ?_⟩
      · rwa [List.append_nil]
      · intro t atHead
        contradiction
  | cons t rest inductionHypothesis =>
      intro s word read
      cases steps : s.step t with
      | none =>
          refine ⟨s, [], t :: rest, rfl, by rw [State.read, steps], ?_, ?_⟩
          · rwa [List.append_nil]
          · intro first atHead
            obtain rfl := Option.some.inj atHead
            exact steps
      | some next =>
          obtain ⟨last, taken, others, split, reads, lastRead, refused⟩ :=
            inductionHypothesis (step_read read steps)
          refine ⟨last, t :: taken, others, by rw [split, List.cons_append], ?_, ?_, refused⟩
          · rw [State.read, steps]
            exact reads
          · rwa [List.append_assoc, List.singleton_append] at lastRead

theorem finish_holding_eq_ok {frames : List Frame} {operand e : Expr}
    (finishes : (State.holding frames operand).finish = .ok e) :
    closeAll frames operand = ([], e) := by
  simp only [State.finish] at finishes
  split at finishes
  · rename_i whole isWhole
    obtain rfl := Except.ok.inj finishes
    exact isWhole
  · contradiction

/-- A finished state has read the tokens of a well-shaped tree, and takes every infix
operator. -/
theorem finish_read {s : State} {word : List Token} {e : Expr} (read : StateRead s word)
    (finishes : s.finish = .ok e) :
    Spells e word ∧ WellShaped e ∧ ∀ t, s.step t = none → t.kind.level? = none := by
  cases read with
  | awaiting _ => contradiction
  | @holding frames outside own operand before spells shaped tight under =>
      have isWhole := finish_holding_eq_ok finishes
      obtain ⟨outer, whole, sameWord, framesRead, wholeSpells, wholeShaped, _, _⟩ :=
        closeBinary_read .equality before spells shaped (under.mono tight)
          (Nat.zero_le _)
      rw [closeAll] at isWhole
      rw [isWhole] at framesRead wholeSpells wholeShaped
      cases framesRead
      refine ⟨by rwa [sameWord, List.nil_append], wholeShaped, ?_⟩
      intro t refused
      cases isInfix : t.kind.level? with
      | none => rfl
      | some level =>
          simp only [State.step, isInfix] at refused
          contradiction

/-! ## Reading from the start -/

/-- A tree that is read is well shaped and spelled by the tokens taken, and no infix
operator follows them. -/
theorem read_start_sound {tokens rest : List Token} {e : Expr}
    (reads : State.start.read tokens = (.ok e, rest)) :
    ∃ word, tokens = word ++ rest ∧ Spells e word ∧ WellShaped e ∧
      ∀ t ∈ rest.head?, t.kind.level? = none := by
  obtain ⟨last, word, others, split, stops, read, refused⟩ :=
    read_stops tokens (StateRead.awaiting .none)
  obtain ⟨finishes, rfl⟩ := Prod.mk.inj (stops.symm.trans reads)
  obtain ⟨spells, shaped, takesInfix⟩ := finish_read read finishes
  exact ⟨word, split, spells, shaped, fun t atHead => takesInfix t (refused t atHead)⟩

theorem read_start_complete {e : Expr} {word rest : List Token} (spells : Spells e word)
    (shaped : WellShaped e) (ends : ∀ t ∈ rest.head?, t.kind.level? = none) :
    State.start.read (word ++ rest) = (.ok e, rest) := by
  have reads := read_spelled spells shaped [] rest (.inr trivial) (.of_noInfix _ ends)
  refine reads.trans ?_
  change (State.holding [] e).read rest = _
  cases rest with
  | nil => rfl
  | cons t rest =>
      have noInfix := ends t rfl
      have refused : (State.holding [] e).step t = none := by
        simp only [State.step, noInfix]
        split <;> rfl
      rw [State.read, refused]
      rfl

theorem eq_of_spells {first second : Expr} {word : List Token}
    (firstShaped : WellShaped first) (secondShaped : WellShaped second)
    (firstSpells : Spells first word) (secondSpells : Spells second word) :
    first = second := by
  have readFirst : State.start.read (word ++ []) = (.ok first, []) :=
    read_start_complete firstSpells firstShaped (by simp)
  have readSecond : State.start.read (word ++ []) = (.ok second, []) :=
    read_start_complete secondSpells secondShaped (by simp)
  exact Except.ok.inj (Prod.mk.inj (readFirst.symm.trans readSecond)).1

end LoxCalc.Parse
