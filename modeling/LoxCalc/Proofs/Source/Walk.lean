import LoxCalc.Proofs.Source.Lines
import LoxCalc.Proofs.Source.Offset

/-!
Contract: what the operations of a scan in place do, and that they may be called.

Owns:
- `Call.Safe`, that a call keeps inside the text and cuts and passes only what is there;
- `Runs`, a step that leads from one cursor to another by safe calls;
- `Faces`, the text in front of a cursor, and `pass`, the cursor behind some of it;
- the law of every operation up to single tokens.

Does **not** own: the lexemes of a text.
-/

set_option autoImplicit false

namespace LoxCalc.Cursor

/-! ## Safe calls -/

/-- What an operation asks of the places where it is called and returns. -/
def Op.Demands (source : String) (current behind : Nat) : Op → Prop
  | .advance => current < source.length
  | .slice first last => ExactSlice source first last
  | .scanToken => current + 1 ≤ behind
  | _ => True

/-- A call is made with its places in order and inside the text, goes forward inside the text,
and finds what its operation asks for. -/
structure Call.Safe (source : String) (call : Call) : Prop where
  started : call.start ≤ call.current
  inside : call.current ≤ source.length
  forward : call.current ≤ call.behind
  staysInside : call.behind ≤ source.length
  demands : call.op.Demands source call.current call.behind

/-! ## Steps -/

section

variable {α β : Type} {source : String} {m n : Nat} {p q r : Cursor}

/-- A step leads from one cursor to another and yields a value, whatever was called before;
its calls are safe, and `turns` of them scan a token. -/
def Runs (source : String) (turns : Nat) (step : Scanning α) (p : Cursor) (value : α)
    (q : Cursor) : Prop :=
  ∀ calls, ∃ own : List Call, step.run ⟨p, calls⟩ = some (value, ⟨q, own ++ calls⟩) ∧
    (∀ call ∈ own, call.Safe source) ∧ own.countP Call.isTurn = turns

theorem Runs.pure (value : α) : Runs source 0 (Pure.pure value) p value p :=
  fun _ => ⟨[], rfl, List.forall_mem_nil _, rfl⟩

theorem look_runs : Runs source 0 look p p p :=
  fun _ => ⟨[], rfl, List.forall_mem_nil _, rfl⟩

theorem move_runs (change : Cursor → Cursor) : Runs source 0 (move change) p () (change p) :=
  fun _ => ⟨[], rfl, List.forall_mem_nil _, rfl⟩

/-- Steps one after the other: the calls of both, the later in front. -/
theorem Runs.append {step : Scanning α} {next : α → Scanning β} {a : α} {b : β}
    (first : Runs source m step p a q) (second : Runs source n (next a) q b r) :
    Runs source (n + m) (step >>= next) p b r := by
  intro calls
  obtain ⟨firstCalls, firstRun, firstSafe, firstTurns⟩ := first calls
  obtain ⟨secondCalls, secondRun, secondSafe, secondTurns⟩ := second (firstCalls ++ calls)
  refine ⟨secondCalls ++ firstCalls, ?_, ?_, ?_⟩
  · rw [StateT.run_bind, firstRun, List.append_assoc]
    exact secondRun
  · exact List.forall_mem_append.mpr ⟨secondSafe, firstSafe⟩
  · rw [List.countP_append, secondTurns, firstTurns]

theorem Runs.bind {step : Scanning α} {next : α → Scanning β} {a : α} {b : β}
    (first : Runs source 0 step p a q) (second : Runs source n (next a) q b r) :
    Runs source n (step >>= next) p b r :=
  first.append second

theorem Runs.discard {step : Scanning α} {a : α} (runs : Runs source n step p a q) :
    Runs source n (discard step) p () q := by
  intro calls
  obtain ⟨own, run, safe, turns⟩ := runs calls
  have mapped : (Functor.discard step).run ⟨p, calls⟩ =
      step.run ⟨p, calls⟩ >>= fun result => Pure.pure ((), result.2) := rfl
  refine ⟨own, ?_, safe, turns⟩
  rw [mapped, run]
  rfl

theorem record_runs {op : Op} (safe : Call.Safe source ⟨op, p.start, p.current, q.current⟩) :
    Runs source (if op = .scanToken then 1 else 0) (record op p) q () q := by
  intro calls
  refine ⟨[⟨op, p.start, p.current, q.current⟩], rfl, List.forall_mem_singleton.mpr safe, ?_⟩
  simp only [List.countP_singleton, Call.isTurn, decide_eq_true_eq]

/-- A step that is carried out as a call adds this call to its own. -/
theorem Runs.called {op : Op} {body : Scanning α} {a : α} (runs : Runs source n body p a q)
    (safe : Call.Safe source ⟨op, p.start, p.current, q.current⟩) :
    Runs source ((if op = .scanToken then 1 else 0) + n) (called op body) p a q := by
  have recorded : Runs source (0 + if op = .scanToken then 1 else 0)
      (record op p >>= fun _ => Pure.pure a) q a q := (record_runs safe).append (.pure a)
  rw [Nat.zero_add] at recorded
  exact look_runs.bind (runs.append recorded)

/-! ## Loops -/

variable {test : Scanning Bool} {step : Scanning Unit}

theorem repeatWhile_stop (stops : Runs source 0 test p false q) :
    Runs source 0 (repeatWhile source test step) p () q := by
  intro calls
  obtain ⟨own, run, safe, turns⟩ := stops calls
  refine ⟨own, ?_, safe, turns⟩
  rw [StateT.run, repeatWhile, run]

/-- A round that brings the cursor forward inside the text is followed by the others. -/
theorem repeatWhile_next {s : Cursor} (goesOn : Runs source 0 test p true q)
    (once : Runs source m step q () r) (forward : p.current < r.current)
    (inside : r.current ≤ source.length)
    (others : Runs source n (repeatWhile source test step) r () s) :
    Runs source (n + m) (repeatWhile source test step) p () s := by
  intro calls
  obtain ⟨testCalls, testRun, testSafe, testTurns⟩ := goesOn calls
  obtain ⟨stepCalls, stepRun, stepSafe, stepTurns⟩ := once (testCalls ++ calls)
  obtain ⟨otherCalls, otherRun, otherSafe, otherTurns⟩ :=
    others (stepCalls ++ (testCalls ++ calls))
  have nearer : source.length - r.current < source.length - p.current := by omega
  refine ⟨otherCalls ++ (stepCalls ++ testCalls), ?_, ?_, ?_⟩
  · rw [StateT.run, repeatWhile, testRun]
    simp only [stepRun, nearer, ↓reduceIte]
    rw [List.append_assoc, List.append_assoc]
    exact otherRun
  · exact List.forall_mem_append.mpr
      ⟨otherSafe, List.forall_mem_append.mpr ⟨stepSafe, testSafe⟩⟩
  · rw [List.countP_append, List.countP_append, testTurns, stepTurns, otherTurns, Nat.add_zero]

end

/-! ## Where a cursor stands -/

/-- The text in front of a cursor, which stands inside its text and not before the lexeme at
hand. -/
structure Faces (source : String) (p : Cursor) (rest : List Char) : Prop where
  started : p.start ≤ p.current
  inside : p.current ≤ source.length
  ahead : source.toList.drop p.current = rest

/-- The cursor behind some of the text in front of it, on the line there. -/
def pass (p : Cursor) (taken : List Char) : Cursor :=
  { p with
    current := p.current + taken.length
    line := p.line + UInt32.ofNat (newlines taken) }

@[simp] theorem pass_nil (p : Cursor) : p.pass [] = p := by
  rw [pass, List.length_nil, Nat.add_zero]
  exact congrArg (fun line => { p with line }) (UInt32.add_zero p.line)

@[simp] theorem pass_append (p : Cursor) (first second : List Char) :
    p.pass (first ++ second) = (p.pass first).pass second := by
  simp only [pass, List.length_append, newlines_append, UInt32.ofNat_add, Nat.add_assoc,
    UInt32.add_assoc]

/-- Behind a character that breaks no line the cursor is on the same line. -/
theorem pass_singleton (p : Cursor) {c : Char} (sameLine : c ≠ '\n') :
    p.pass [c] = { p with current := p.current + 1 } := by
  have none : newlines [c] = 0 := by
    simpa [newlines, List.count_eq_zero] using sameLine.symm
  rw [pass, none]
  exact congrArg (fun line => { p with current := p.current + 1, line })
    (UInt32.add_zero p.line)

section

variable {α : Type} {source : String} {p q : Cursor} {c : Char} {rest : List Char}

theorem Faces.length_eq (faces : Faces source p rest) :
    source.length = p.current + rest.length := by
  have inside := faces.inside
  rw [← faces.ahead, List.length_drop, String.length_toList]
  omega

/-- Where text is left, the cursor is not at the end. -/
theorem Faces.before (faces : Faces source p (c :: rest)) : p.current < source.length := by
  rw [faces.length_eq, List.length_cons]
  omega

theorem Faces.step (faces : Faces source p (c :: rest)) :
    Faces source { p with current := p.current + 1 } rest := by
  refine ⟨Nat.le_succ_of_le faces.started, faces.before, ?_⟩
  rw [← List.tail_drop, faces.ahead, List.tail_cons]

theorem Faces.pass {taken : List Char} (faces : Faces source p (taken ++ rest)) :
    Faces source (p.pass taken) rest := by
  refine ⟨Nat.le_trans faces.started (Nat.le_add_right _ _), ?_, ?_⟩
  · rw [faces.length_eq, List.length_append, ← Nat.add_assoc]
    exact Nat.le_add_right _ _
  · rw [Cursor.pass, ← List.drop_drop, faces.ahead, List.drop_left]

theorem Faces.pass_takeWhile (front : List Char) (faces : Faces source p (front ++ rest))
    (ofClass : Char → Bool) :
    Faces source (p.pass (front ++ rest.takeWhile ofClass)) (rest.dropWhile ofClass) := by
  refine Faces.pass ?_
  rwa [List.append_assoc, List.takeWhile_append_dropWhile]

/-- What a cursor has found does not matter for where it stands. -/
theorem Faces.of_places (faces : Faces source p rest) (sameStart : q.start = p.start)
    (samePlace : q.current = p.current) : Faces source q rest := by
  obtain ⟨started, inside, ahead⟩ := faces
  rw [← samePlace] at started inside ahead
  exact ⟨sameStart ▸ started, inside, ahead⟩

/-- A call within a token is safe if its step goes forward inside the text. -/
theorem Faces.called {op : Op} {body : Scanning α} {a : α} {behind : List Char}
    (faces : Faces source p rest) (facesBehind : Faces source q behind)
    (forward : p.current ≤ q.current) (inner : op ≠ .scanToken)
    (demands : op.Demands source p.current q.current) (runs : Runs source 0 body p a q) :
    Runs source 0 (Cursor.called op body) p a q := by
  have safe : Call.Safe source ⟨op, p.start, p.current, q.current⟩ :=
    ⟨faces.started, faces.inside, forward, facesBehind.inside, demands⟩
  have recorded := runs.called safe
  rwa [if_neg inner] at recorded

/-- A call that only looks is safe. -/
theorem Faces.looks {op : Op} {body : Scanning α} {a : α} (faces : Faces source p rest)
    (inner : op ≠ .scanToken) (demands : op.Demands source p.current p.current)
    (runs : Runs source 0 body p a p) : Runs source 0 (Cursor.called op body) p a p :=
  faces.called faces (Nat.le_refl _) inner demands runs

/-! ## Looking -/

theorem isAtEnd_runs (faces : Faces source p rest) :
    Runs source 0 (isAtEnd source) p rest.isEmpty p := by
  have decided : decide ((indexed 0 source.toList).length ≤ p.current) = rest.isEmpty := by
    rw [length_indexed, String.length_toList, faces.length_eq]
    cases rest with
    | nil => exact decide_eq_true (Nat.le_refl _)
    | cons c rest => exact decide_eq_false (by rw [List.length_cons]; omega)
  refine faces.looks (by decide) trivial (look_runs.bind ?_)
  rw [decided]
  exact .pure _

theorem charAt_current (faces : Faces source p rest) :
    charAt source p.current = rest.headD '\x00' := by
  rw [charAt_eq, ← List.head?_drop, faces.ahead, List.headD_eq_head?_getD]

theorem peek_runs (faces : Faces source p rest) :
    Runs source 0 (peek source) p (rest.headD '\x00') p := by
  refine faces.looks (by decide) trivial (look_runs.bind ?_)
  rw [charAt_current faces]
  exact .pure _

theorem peekNext_runs (faces : Faces source p (c :: rest)) :
    Runs source 0 (peekNext source) p (rest.headD '\x00') p := by
  refine faces.looks (by decide) trivial (look_runs.bind ?_)
  have next : charAt source (p.current + 1) = rest.headD '\x00' := charAt_current faces.step
  rw [next]
  exact .pure _

/-- Whether the next character is there and differs from a character. -/
theorem staysBefore_runs (faces : Faces source p rest) (stop : Char) :
    Runs source 0 (staysBefore source stop) p (rest.head?.any (· ≠ stop)) p := by
  refine (peek_runs faces).bind ?_
  by_cases stops : rest.headD '\x00' = stop
  · rw [if_pos stops]
    cases rest with
    | nil => exact .pure _
    | cons c rest =>
        have same : c = stop := stops
        rw [List.head?_cons, Option.any_some, decide_eq_false (not_not_intro same)]
        exact .pure _
  · rw [if_neg stops]
    refine (isAtEnd_runs faces).bind ?_
    cases rest with
    | nil => exact .pure _
    | cons c rest =>
        have differs : c ≠ stop := stops
        rw [List.head?_cons, Option.any_some, decide_eq_true differs]
        exact .pure _

/-! ## Moving -/

theorem advance_runs (faces : Faces source p (c :: rest)) :
    Runs source 0 (advance source) p c { p with current := p.current + 1 } :=
  faces.called faces.step (Nat.le_succ _) (by decide) faces.before
    ((peek_runs faces).bind ((move_runs _).bind (.pure c)))

theorem advance_pass (faces : Faces source p (c :: rest)) (sameLine : c ≠ '\n') :
    Runs source 0 (discard (advance source)) p () (p.pass [c]) := by
  rw [pass_singleton p sameLine]
  exact (advance_runs faces).discard

theorem accept_runs (faces : Faces source p (c :: rest)) (sameLine : c ≠ '\n') :
    Runs source 0 (accept source c) p true (p.pass [c]) := by
  rw [pass_singleton p sameLine]
  refine faces.called faces.step (Nat.le_succ _) nofun trivial ((peek_runs faces).bind ?_)
  rw [List.headD_cons, if_neg (not_not_intro rfl)]
  exact (isAtEnd_runs faces).bind ((move_runs _).bind (.pure true))

theorem accept_refuses (faces : Faces source p rest) {expected : Char}
    (differs : ∀ behind, rest ≠ expected :: behind) :
    Runs source 0 (accept source expected) p false p := by
  refine faces.looks nofun trivial ((peek_runs faces).bind ?_)
  by_cases same : rest.headD '\x00' = expected
  · rw [if_neg (not_not_intro same)]
    cases rest with
    | nil => exact (isAtEnd_runs faces).bind (.pure false)
    | cons c rest =>
        obtain rfl : c = expected := same
        exact absurd rfl (differs rest)
  · rw [if_pos same]
    exact .pure false

/-! ## Moving on and on -/

variable {test : Scanning Bool} {step : Scanning Unit} {goesOn : Char → Bool}

/-- A loop that tests the next character and passes it comes to the first that fails. -/
theorem repeatWhile_pass
    (tests : ∀ p rest, Faces source p rest → Runs source 0 test p (rest.head?.any goesOn) p)
    (steps : ∀ p c rest, Faces source p (c :: rest) → goesOn c = true →
      Runs source 0 step p () (p.pass [c])) :
    ∀ p, Faces source p rest →
      Runs source 0 (repeatWhile source test step) p () (p.pass (rest.takeWhile goesOn)) := by
  induction rest with
  | nil =>
      intro p faces
      rw [List.takeWhile_nil, pass_nil]
      exact repeatWhile_stop (tests p [] faces)
  | cons c rest inductionHypothesis =>
      intro p faces
      have tested := tests p (c :: rest) faces
      rw [List.head?_cons, Option.any_some] at tested
      cases decided : goesOn c with
      | false =>
          rw [decided] at tested
          rw [List.takeWhile_cons_of_neg (by rw [decided]; exact Bool.false_ne_true), pass_nil]
          exact repeatWhile_stop tested
      | true =>
          rw [decided] at tested
          rw [List.takeWhile_cons_of_pos decided, ← List.singleton_append, pass_append]
          have onward : Faces source (p.pass [c]) rest := faces.pass
          exact repeatWhile_next tested (steps p c rest faces decided) (Nat.lt_succ_self _)
            onward.inside (inductionHypothesis (p.pass [c]) onward)

/-- Behind some text that was passed, the characters of a class are passed as well. The
character zero, which is seen at the end of a text, is not one of them. -/
theorem passWhile_runs (front : List Char) (faces : Faces source p (front ++ rest))
    (ofClass : Char → Bool) (noZero : ofClass '\x00' = false) (noBreak : ofClass '\n' = false) :
    Runs source 0 (passWhile source ofClass) (p.pass front) ()
      (p.pass (front ++ rest.takeWhile ofClass)) := by
  rw [pass_append]
  refine repeatWhile_pass ?_ ?_ _ faces.pass
  · intro p rest faces
    have seen : ofClass (rest.headD '\x00') = rest.head?.any ofClass := by
      cases rest with
      | nil => exact noZero
      | cons c rest => rfl
    rw [← seen]
    exact (peek_runs faces).bind (.pure _)
  · intro p c rest faces isOfClass
    refine advance_pass faces fun isBreak => ?_
    rw [isBreak, noBreak] at isOfClass
    contradiction

theorem passQuoted_runs (faces : Faces source p (c :: rest)) :
    Runs source 0 (passQuoted source) p () (p.pass [c]) := by
  refine (peek_runs faces).bind ?_
  rw [List.headD_cons]
  by_cases isBreak : c = '\n'
  · subst isBreak
    rw [if_pos rfl]
    have onNext : Faces source { p with line := p.line + 1 } ('\n' :: rest) :=
      faces.of_places rfl rfl
    exact (move_runs _).bind (advance_runs onNext).discard
  · rw [if_neg isBreak]
    exact (Runs.pure ()).bind (advance_pass faces isBreak)

/-! ## Cutting and filing -/

theorem slice_runs (faces : Faces source p rest) {first last : Nat} (ordered : first ≤ last)
    (inside : last ≤ source.length) :
    Runs source 0 (slice source first last) p
      (String.ofList (source.toList.extract first last)) p := by
  have cuts := exactSlice ordered inside
  refine faces.looks nofun cuts fun calls => ⟨[], ?_, List.forall_mem_nil _, rfl⟩
  rw [cuts.cut]
  rfl

theorem lexeme_runs (faces : Faces source p rest) :
    Runs source 0 (lexeme source) p
      (String.ofList (source.toList.extract p.start p.current)) p :=
  look_runs.bind (slice_runs faces faces.started faces.inside)

/-- The lexeme at hand behind a word that was passed from its start is this word. -/
theorem Faces.extract_pass {word : List Char} (faces : Faces source p (word ++ rest))
    (fresh : p.start = p.current) :
    source.toList.extract (p.pass word).start (p.pass word).current = word := by
  rw [List.extract_eq_take_drop, Cursor.pass, fresh, faces.ahead, Nat.add_sub_cancel_left,
    List.take_left]

/-- What is found in a segment, with a cursor on the line where it ends. -/
def found (p : Cursor) (s : Segment) : Cursor :=
  { p with
    tokens := p.tokens ++ (s.token? p.line).toList
    errors := p.errors ++ (s.error? p.line).toList }

/-- Nothing is found in a comment or a blank. -/
theorem found_eq_self (p : Cursor) {s : Segment} (noToken : ∀ line, s.token? line = none)
    (noError : ∀ line, s.error? line = none) : p.found s = p := by
  rw [found, noToken, noError]
  simp only [Option.toList_none, List.append_nil]

theorem report_runs (p : Cursor) {s : Segment} {fault : LexicalFault}
    (noToken : ∀ line, s.token? line = none)
    (isError : ∀ line, s.error? line = some ⟨line, fault⟩) :
    Runs source 0 (report fault) p () (p.found s) := by
  have isFound : p.found s = { p with errors := p.errors ++ [⟨p.line, fault⟩] } := by
    simp only [found, noToken, isError, Option.toList_none, Option.toList_some, List.append_nil]
  rw [isFound]
  exact move_runs _

/-- Behind a word that was passed from its start, its token is added. -/
theorem addToken_runs (word : List Char) (faces : Faces source p (word ++ rest))
    (fresh : p.start = p.current) (kind : Kind) :
    Runs source 0 (addToken source kind (literalOf kind word)) (p.pass word) ()
      ((p.pass word).found ⟨.token kind, word⟩) := by
  have isToken : ∀ line, (⟨.token kind, word⟩ : Segment).token? line =
      some ⟨kind, String.ofList word, literalOf kind word, line⟩ := fun _ => rfl
  have noError : ∀ line, (⟨.token kind, word⟩ : Segment).error? line = none := fun _ => rfl
  have read := lexeme_runs faces.pass
  rw [faces.extract_pass fresh] at read
  rw [found, isToken, noError, Option.toList_some, Option.toList_none, List.append_nil]
  exact faces.pass.called (faces.pass.of_places rfl rfl) (Nat.le_refl _) nofun trivial
    (read.bind (move_runs _))

end

end LoxCalc.Cursor
