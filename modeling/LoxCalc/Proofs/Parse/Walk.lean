import LoxCalc.Parse.Descent
import LoxCalc.Proofs.Parse.Position

/-!
Contract: what the operations of a reading in place do, and that they look at tokens only.

Owns:
- `Call.Inside`, that a call keeps to the places up to the end mark;
- `Runs`, a step that leads from one place to another by such calls;
- `Marked`, a list of tokens with its first end mark, and `Faces`, the tokens from a place up
  to that mark;
- the law of every operation on single tokens, and of loops.

Does **not** own: which trees are read.
-/

set_option autoImplicit false

namespace LoxCalc.Parse.Descent

/-! ## Calls inside a list -/

/-- A call is made at most at the end mark, which is at `last`, goes forward, and returns there
or before. -/
structure Call.Inside (last : Nat) (call : Call) : Prop where
  inside : call.current ≤ last
  forward : call.current ≤ call.behind
  staysInside : call.behind ≤ last

theorem Op.place_le (op : Op) (current : Nat) : op.place current ≤ current := by
  cases op with
  | previous => exact Nat.sub_le current 1
  | peek => exact Nat.le_refl current
  | advance => exact Nat.le_refl current
  | refuse => exact Nat.le_refl current

/-- A call that keeps inside looks at a token. -/
theorem Call.Inside.looks {tokens : List Token} {last : Nat} {call : Call}
    (inside : call.Inside last) (within : last < tokens.length) :
    ∃ t, tokens[call.op.place call.current]? = some t := by
  have atMost : call.op.place call.current ≤ last :=
    Nat.le_trans (call.op.place_le call.current) inside.inside
  exact ⟨_, List.getElem?_eq_getElem (Nat.lt_of_le_of_lt atMost within)⟩

/-! ## Steps -/

section

variable {α β : Type} {last : Nat} {a : α} {b : β} {result : Option β} {d e f : Descent}

/-- A step leads from one place to another and yields a value, whatever was called before; all
its calls keep inside. -/
def Runs (last : Nat) (step : Walking α) (d : Descent) (value : α) (e : Descent) : Prop :=
  ∀ calls, ∃ own : List Call, step.run ⟨d, calls⟩ = some (value, ⟨e, own ++ calls⟩) ∧
    ∀ call ∈ own, call.Inside last

theorem Runs.pure (value : α) : Runs last (Pure.pure value) d value d :=
  fun _ => ⟨[], rfl, List.forall_mem_nil _⟩

theorem stand_runs : Runs last stand d d d :=
  fun _ => ⟨[], rfl, List.forall_mem_nil _⟩

theorem change_runs (next : Descent → Descent) : Runs last (change next) d () (next d) :=
  fun _ => ⟨[], rfl, List.forall_mem_nil _⟩

theorem Runs.bind {step : Walking α} {next : α → Walking β} (first : Runs last step d a e)
    (second : Runs last (next a) e b f) : Runs last (step >>= next) d b f := by
  intro calls
  obtain ⟨firstCalls, firstRun, firstInside⟩ := first calls
  obtain ⟨secondCalls, secondRun, secondInside⟩ := second (firstCalls ++ calls)
  refine ⟨secondCalls ++ firstCalls, ?_, List.forall_mem_append.mpr ⟨secondInside, firstInside⟩⟩
  rw [StateT.run_bind, firstRun, List.append_assoc]
  exact secondRun

theorem Runs.discard {step : Walking α} (runs : Runs last step d a e) :
    Runs last (discard step) d () e := by
  intro calls
  obtain ⟨own, run, inside⟩ := runs calls
  have mapped : (Functor.discard step).run ⟨d, calls⟩ =
      step.run ⟨d, calls⟩ >>= fun result => Pure.pure ((), result.2) := rfl
  refine ⟨own, ?_, inside⟩
  rw [mapped, run]
  rfl

/-- A step that is carried out as a call adds this call to its own. -/
theorem Runs.called {op : Op} {body : Walking α} (runs : Runs last body d a e)
    (inside : Call.Inside last ⟨op, d.current, e.current⟩) :
    Runs last (Descent.called op body) d a e := by
  have recorded : Runs last (do
      modify fun s : Recording =>
        { s with calls := ⟨op, d.current, s.descent.current⟩ :: s.calls }
      return a) e a e :=
    fun _ => ⟨[⟨op, d.current, e.current⟩], rfl, List.forall_mem_singleton.mpr inside⟩
  exact stand_runs.bind (runs.bind recorded)

/-! ## Steps that may have reported a fault -/

theorem Runs.lift {step : Walking α} (runs : Runs last step d a e) :
    Runs last (OptionT.run (liftM step)) d (some a) e := by
  change Runs last (OptionT.run (OptionT.lift step)) d (some a) e
  rw [OptionT.run_lift]
  exact runs.bind (.pure (some a))

theorem Runs.someBind {step : Reading α} {next : α → Reading β}
    (first : Runs last step.run d (some a) e) (second : Runs last (next a).run e result f) :
    Runs last (step >>= next).run d result f := by
  rw [OptionT.run_bind]
  exact first.bind second

theorem Runs.noneBind {step : Reading α} {next : α → Reading β}
    (first : Runs last step.run d none e) : Runs last (step >>= next).run d none e := by
  rw [OptionT.run_bind]
  exact first.bind (.pure none)

/-! ## Loops -/

variable {g : Descent} {tokens : List Token} {test : Walking Bool} {round : β → Reading β}

theorem repeatWhile_stop (stops : Runs last test d false e) :
    Runs last (OptionT.run (repeatWhile tokens test round b)) d (some b) e := by
  intro calls
  obtain ⟨own, run, inside⟩ := stops calls
  refine ⟨own, ?_, inside⟩
  show repeatWhile tokens test round b ⟨d, calls⟩ = _
  rw [repeatWhile, run]

/-- A round that reports a fault is the last. -/
theorem repeatWhile_fails (goesOn : Runs last test d true e)
    (fails : Runs last (round b).run e none f) :
    Runs last (OptionT.run (repeatWhile tokens test round b)) d none f := by
  intro calls
  obtain ⟨testCalls, testRun, testInside⟩ := goesOn calls
  obtain ⟨roundCalls, roundRun, roundInside⟩ := fails (testCalls ++ calls)
  refine ⟨roundCalls ++ testCalls, ?_, List.forall_mem_append.mpr ⟨roundInside, testInside⟩⟩
  show repeatWhile tokens test round b ⟨d, calls⟩ = _
  rw [repeatWhile, testRun]
  simp only [roundRun, List.append_assoc]

/-- A round that comes nearer to the end of the list is followed by the others. -/
theorem repeatWhile_next {next : β} (goesOn : Runs last test d true e)
    (once : Runs last (round b).run e (some next) f) (forward : d.current < f.current)
    (inside : f.current ≤ tokens.length)
    (others : Runs last (OptionT.run (repeatWhile tokens test round next)) f result g) :
    Runs last (OptionT.run (repeatWhile tokens test round b)) d result g := by
  intro calls
  obtain ⟨testCalls, testRun, testInside⟩ := goesOn calls
  obtain ⟨roundCalls, roundRun, roundInside⟩ := once (testCalls ++ calls)
  obtain ⟨otherCalls, otherRun, otherInside⟩ := others (roundCalls ++ (testCalls ++ calls))
  have nearer : tokens.length - f.current < tokens.length - d.current := by omega
  refine ⟨otherCalls ++ (roundCalls ++ testCalls), ?_, ?_⟩
  · show repeatWhile tokens test round b ⟨d, calls⟩ = _
    rw [repeatWhile, testRun]
    simp only [roundRun, nearer, ↓reduceIte]
    rw [List.append_assoc, List.append_assoc]
    exact otherRun
  · exact List.forall_mem_append.mpr
      ⟨otherInside, List.forall_mem_append.mpr ⟨roundInside, testInside⟩⟩

end

/-! ## The tokens up to the end mark -/

/-- A list of tokens with its first end mark, and the tokens before it. -/
structure Marked (tokens word : List Token) (mark : Token) : Prop where
  split : ∃ behind, tokens = word ++ mark :: behind
  unmarked : ∀ t ∈ word, t.isEof = false
  isMark : mark.isEof = true

/-- The tokens from where a reading stands up to the end mark. -/
structure Faces (word : List Token) (d : Descent) (ahead : List Token) : Prop where
  inside : d.current ≤ word.length
  ahead : word.drop d.current = ahead

/-- Behind some of the tokens in front. -/
def past (d : Descent) (passed : List Token) : Descent :=
  { d with current := d.current + passed.length }

/-- With a fault reported at a token. -/
def refused (d : Descent) (fault : Fault) (t : Token) : Descent :=
  { d with reports := d.reports ++ [Report.atToken t fault.message] }

@[simp] theorem past_append (d : Descent) (first second : List Token) :
    d.past (first ++ second) = (d.past first).past second := by
  simp only [past, List.length_append, Nat.add_assoc]

theorem past_cons (d : Descent) (t : Token) (passed : List Token) :
    d.past (t :: passed) = (d.past [t]).past passed :=
  d.past_append [t] passed

section

variable {tokens word ahead rest : List Token} {mark t : Token} {d e : Descent}

theorem Marked.length_lt (marked : Marked tokens word mark) : word.length < tokens.length := by
  obtain ⟨behind, split⟩ := marked.split
  rw [split, List.length_append, List.length_cons]
  omega

theorem Faces.length_eq (faces : Faces word d ahead) :
    word.length = d.current + ahead.length := by
  have inside := faces.inside
  rw [← faces.ahead, List.length_drop]
  omega

theorem Faces.past {passed : List Token} (faces : Faces word d (passed ++ rest)) :
    Faces word (d.past passed) rest := by
  refine ⟨?_, ?_⟩
  · rw [faces.length_eq, List.length_append, ← Nat.add_assoc]
    exact Nat.le_add_right _ _
  · rw [Descent.past, ← List.drop_drop, faces.ahead, List.drop_left]

/-- The next token is the first of those in front, or the end mark. -/
theorem Faces.current (marked : Marked tokens word mark) (faces : Faces word d ahead) :
    tokens[d.current]? = some (TokenStream.mk ahead mark).current := by
  obtain ⟨behind, split⟩ := marked.split
  rw [← List.head?_drop, split, List.drop_append_of_le_length faces.inside, faces.ahead,
    List.head?_append, List.head?_cons, TokenStream.current]
  cases ahead with
  | nil => rfl
  | cons t rest => rfl

theorem Faces.previous (marked : Marked tokens word mark) (faces : Faces word d (t :: rest)) :
    tokens[(d.past [t]).current - 1]? = some t :=
  faces.current marked

/-- There is a token before every place, or the first one stands for it. -/
theorem Faces.exists_previous (marked : Marked tokens word mark) (faces : Faces word d ahead) :
    ∃ t, tokens[d.current - 1]? = some t := by
  have within : d.current - 1 < tokens.length :=
    Nat.lt_of_le_of_lt (Nat.le_trans (Nat.sub_le _ _) faces.inside) marked.length_lt
  exact ⟨_, List.getElem?_eq_getElem within⟩

theorem Faces.isEof_current (marked : Marked tokens word mark) (faces : Faces word d ahead) :
    (TokenStream.mk ahead mark).current.isEof = ahead.isEmpty := by
  cases ahead with
  | nil => exact marked.isMark
  | cons t rest =>
      have member : t ∈ word.drop d.current := by
        rw [faces.ahead]
        exact List.mem_cons_self
      exact marked.unmarked t (List.mem_of_mem_drop member)

/-! ## Looking -/

variable {α : Type} {a : α}

/-- A call that moves on inside the list. -/
theorem Faces.called {op : Op} {body : Walking α} (faces : Faces word d ahead)
    (facesBehind : Faces word e rest) (forward : d.current ≤ e.current)
    (runs : Runs word.length body d a e) : Runs word.length (Descent.called op body) d a e :=
  runs.called ⟨faces.inside, forward, facesBehind.inside⟩

theorem lookAt_runs {place : Nat} (found : tokens[place]? = some t) :
    Runs word.length (lookAt tokens place) d t d := by
  intro calls
  refine ⟨[], ?_, List.forall_mem_nil _⟩
  rw [lookAt, found]
  rfl

theorem peek_runs (marked : Marked tokens word mark) (faces : Faces word d ahead) :
    Runs word.length (peek tokens) d (TokenStream.mk ahead mark).current d :=
  faces.called faces (Nat.le_refl _) (stand_runs.bind (lookAt_runs (faces.current marked)))

theorem previous_runs (faces : Faces word d ahead) (found : tokens[d.current - 1]? = some t) :
    Runs word.length (previous tokens) d t d :=
  faces.called faces (Nat.le_refl _) (stand_runs.bind (lookAt_runs found))

theorem isAtEnd_runs (marked : Marked tokens word mark) (faces : Faces word d ahead) :
    Runs word.length (isAtEnd tokens) d ahead.isEmpty d := by
  rw [← faces.isEof_current marked]
  exact (peek_runs marked faces).bind (.pure _)

/-! ## Moving on -/

theorem advance_runs (marked : Marked tokens word mark) (faces : Faces word d (t :: rest)) :
    Runs word.length (advance tokens) d t (d.past [t]) := by
  have behind : Faces word (d.past [t]) rest := faces.past
  refine faces.called behind (Nat.le_succ _) ((isAtEnd_runs marked faces).bind ?_)
  exact (change_runs _).bind (previous_runs behind (faces.previous marked))

/-- The end mark is not passed. -/
theorem advance_atEnd (marked : Marked tokens word mark) (faces : Faces word d []) :
    ∃ t, Runs word.length (advance tokens) d t d := by
  obtain ⟨t, found⟩ := faces.exists_previous marked
  refine ⟨t, faces.called faces (Nat.le_refl _) ((isAtEnd_runs marked faces).bind ?_)⟩
  exact previous_runs faces found

theorem check_runs (marked : Marked tokens word mark) (faces : Faces word d ahead)
    (kind : Kind) :
    Runs word.length (check tokens kind) d (ahead.head?.any (·.kind = kind)) d := by
  refine (isAtEnd_runs marked faces).bind ?_
  cases ahead with
  | nil => exact .pure false
  | cons t rest => exact (peek_runs marked faces).bind (.pure _)

theorem accept_runs (marked : Marked tokens word mark) (faces : Faces word d (t :: rest))
    {kinds : List Kind} (isOne : t.kind ∈ kinds) :
    Runs word.length (accept tokens kinds) d true (d.past [t]) := by
  induction kinds with
  | nil => contradiction
  | cons kind others inductionHypothesis =>
      have checked := check_runs marked faces kind
      rw [List.head?_cons, Option.any_some] at checked
      refine checked.bind ?_
      by_cases same : t.kind = kind
      · rw [decide_eq_true same, if_pos rfl]
        exact (advance_runs marked faces).discard.bind (.pure true)
      · rw [decide_eq_false same, if_neg Bool.false_ne_true]
        exact inductionHypothesis ((List.mem_cons.mp isOne).resolve_left same)

theorem accept_refuses (marked : Marked tokens word mark) (faces : Faces word d ahead)
    {kinds : List Kind} (differs : ∀ t ∈ ahead.head?, t.kind ∉ kinds) :
    Runs word.length (accept tokens kinds) d false d := by
  induction kinds with
  | nil => exact .pure false
  | cons kind others inductionHypothesis =>
      have unequal : ahead.head?.any (·.kind = kind) = false := by
        rw [Option.any_eq_false]
        intro t atHead
        simpa using fun same => differs t atHead (by rw [same]; exact List.mem_cons_self)
      have checked := check_runs marked faces kind
      rw [unequal] at checked
      refine checked.bind (inductionHypothesis ?_)
      intro t atHead member
      exact differs t atHead (List.mem_cons_of_mem kind member)

/-! ## Faults -/

theorem refuse_runs (marked : Marked tokens word mark) (faces : Faces word d ahead)
    (fault : Fault) :
    Runs word.length (OptionT.run (refuse tokens fault : Reading α)) d none
      (d.refused fault (TokenStream.mk ahead mark).current) := by
  have behind : Faces word (d.refused fault (TokenStream.mk ahead mark).current) ahead :=
    ⟨faces.inside, faces.ahead⟩
  have reported : Runs word.length (report tokens fault) d ()
      (d.refused fault (TokenStream.mk ahead mark).current) :=
    faces.called behind (Nat.le_refl _)
      (stand_runs.bind ((lookAt_runs (faces.current marked)).bind (change_runs _)))
  exact reported.lift.someBind (.pure none)

theorem consume_runs (marked : Marked tokens word mark) (faces : Faces word d (t :: rest))
    {kind : Kind} (same : t.kind = kind) (fault : Fault) :
    Runs word.length (consume tokens kind fault).run d (some t) (d.past [t]) := by
  have checked := check_runs marked faces kind
  rw [List.head?_cons, Option.any_some, decide_eq_true same] at checked
  exact checked.lift.someBind (advance_runs marked faces).lift

theorem consume_refuses (marked : Marked tokens word mark) (faces : Faces word d ahead)
    {kind : Kind} (differs : ∀ t ∈ ahead.head?, t.kind ≠ kind) (fault : Fault) :
    Runs word.length (consume tokens kind fault).run d none
      (d.refused fault (TokenStream.mk ahead mark).current) := by
  have unequal : ahead.head?.any (·.kind = kind) = false := by
    rw [Option.any_eq_false]
    intro t atHead
    simpa using differs t atHead
  have checked := check_runs marked faces kind
  rw [unequal] at checked
  exact checked.lift.someBind (refuse_runs marked faces fault)

end

end LoxCalc.Parse.Descent
