import LoxCalc.Parse.Automaton

/-!
Contract: reading expressions one after the other from a list of tokens.

Owns:
- `TokenStream`, the tokens still to be read and the end mark behind them;
- `TokenStream.parse`, reading one expression;
- `TokenStream.synchronize`, skipping to a place where reading may resume;
- `completed`, a list of tokens with an end mark behind them.

Nothing behind the first end mark is ever read. After a fault the stream stands at
the token that was not taken.
-/

set_option autoImplicit false

namespace LoxCalc.Parse

/-- The tokens still to be read, and the end mark behind them. -/
structure TokenStream where
  pending : List Token
  finish : Token
deriving DecidableEq, Repr

/-- A fault and the token in front of which it was found. -/
structure Error where
  token : Token
  fault : Fault
deriving DecidableEq, Repr

namespace TokenStream

/-- The end mark for a list of tokens without one: on the line of the last token,
or on the first line. -/
def missingEof (tokens : List Token) : Token :=
  Token.eof ((tokens.getLast?.map Token.line).getD 1)

/-- The stream of a list of tokens: those before the first end mark, and that
mark. -/
def ofTokens (tokens : List Token) : TokenStream where
  pending := tokens.takeWhile (fun t => !t.isEof)
  finish := (tokens.find? Token.isEof).getD (missingEof tokens)

/-- The token that is read next. -/
def current (s : TokenStream) : Token := s.pending.head?.getD s.finish

/-- Reads one expression. The tokens behind it stay in the stream. -/
def parse (s : TokenStream) : Except Error Expr × TokenStream :=
  let read := State.start.read s.pending
  let after : TokenStream := { s with pending := read.2 }
  (read.1.mapError (fun fault => ⟨after.current, fault⟩), after)

/-- The tokens from the first place at which reading may resume, when `previous`
was just passed: behind a semicolon or in front of a word that opens a statement. -/
def resume (previous : Token) : List Token → List Token
  | [] => []
  | t :: rest =>
      if previous.kind = .semicolon || t.kind.opensStatement then t :: rest
      else resume t rest

/-- Passes one token, and then all up to the next place at which reading may
resume. -/
def synchronize (s : TokenStream) : TokenStream :=
  match s.pending with
  | [] => s
  | t :: rest => { s with pending := resume t rest }

/-! ## Tokens are only dropped from the front -/

theorem parse_pending_suffix (s : TokenStream) : s.parse.2.pending <:+ s.pending :=
  State.read_suffix s.pending State.start

@[simp] theorem parse_finish (s : TokenStream) : s.parse.2.finish = s.finish := rfl

theorem resume_suffix (tokens : List Token) :
    ∀ previous : Token, resume previous tokens <:+ tokens := by
  induction tokens with
  | nil =>
      intro previous
      exact List.suffix_refl []
  | cons t rest inductionHypothesis =>
      intro previous
      unfold resume
      split
      · exact List.suffix_refl (t :: rest)
      · exact (inductionHypothesis t).trans (List.suffix_cons t rest)

theorem synchronize_pending_suffix (s : TokenStream) :
    s.synchronize.pending <:+ s.pending := by
  unfold synchronize
  split
  · exact List.suffix_refl s.pending
  · rename_i t rest isPending
    rw [isPending]
    exact (resume_suffix rest t).trans (List.suffix_cons t rest)

@[simp] theorem synchronize_finish (s : TokenStream) : s.synchronize.finish = s.finish := by
  unfold synchronize
  split <;> rfl

end TokenStream

/-- The tokens with an end mark behind them, unless they end with one already. -/
def completed (tokens : List Token) : List Token :=
  if tokens.getLast?.any Token.isEof then tokens
  else tokens ++ [TokenStream.missingEof tokens]

end LoxCalc.Parse
