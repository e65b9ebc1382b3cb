import LoxCalc.Token.Kind

/-!
Contract: cutting a source text into segments.

Owns:
- `Segment`, a stretch of text with its lexical class;
- `Segment.cut`, the segment at the front of a text;
- `segments`, the segments of a whole text, in order.

Does **not** own: lines, literals, or the reports about faulty segments.

A text is cut greedily: operators of two characters, digits, words, strings and
comments reach as far as they can. A quote that is never closed takes the whole
rest, and a character that starts nothing is a segment of its own.
-/

set_option autoImplicit false

namespace LoxCalc

inductive SegmentClass where
  | token (kind : Kind)
  | comment
  | blank
  | unterminated
  | unexpected
deriving DecidableEq, Repr

/-- A stretch of source text and its class. -/
structure Segment where
  cls : SegmentClass
  text : List Char
deriving DecidableEq, Repr

namespace Segment

/-! ## Character classes -/

/-- The characters that separate tokens and mean nothing else. -/
def isBlank (c : Char) : Bool := c = ' ' || c = '\r' || c = '\t' || c = '\n'

def isWordStart (c : Char) : Bool := c.isAlpha || c = '_'

/-- The characters that continue a word: also ASCII digits. -/
def isWordPart (c : Char) : Bool := isWordStart c || c.isDigit

/-- The characters that are tokens by themselves, whatever follows. -/
def symbol? : Char → Option Kind
  | '(' => some .leftParen
  | ')' => some .rightParen
  | '{' => some .leftBrace
  | '}' => some .rightBrace
  | ',' => some .comma
  | '.' => some .dot
  | '-' => some .minus
  | '+' => some .plus
  | ';' => some .semicolon
  | '*' => some .star
  | _ => none

/-- The characters that an equals sign may join, with the kind of the character
alone and of the pair. -/
def joinable? : Char → Option (Kind × Kind)
  | '!' => some (.bang, .bangEqual)
  | '=' => some (.equal, .equalEqual)
  | '<' => some (.less, .lessEqual)
  | '>' => some (.greater, .greaterEqual)
  | _ => none

/-! ## Cutting one segment

Each function takes what follows the first character and returns the segment
with the text behind it. -/

/-- After a joinable character: the pair if an equals sign follows. -/
def cutJoinable (c : Char) (alone joined : Kind) : List Char → Segment × List Char
  | '=' :: rest => (⟨.token joined, [c, '=']⟩, rest)
  | rest => (⟨.token alone, [c]⟩, rest)

/-- After a slash: a second slash opens a comment, which ends before the next
line break. -/
def cutSlash : List Char → Segment × List Char
  | '/' :: rest =>
      (⟨.comment, '/' :: '/' :: rest.takeWhile (· ≠ '\n')⟩, rest.dropWhile (· ≠ '\n'))
  | rest => (⟨.token .slash, ['/']⟩, rest)

/-- After a quote: a string up to the next quote, line breaks included, or the
whole rest if there is none. -/
def cutQuote (rest : List Char) : Segment × List Char :=
  match rest.dropWhile (· ≠ '"') with
  | [] => (⟨.unterminated, '"' :: rest⟩, [])
  | _ :: behind => (⟨.token .string, '"' :: (rest.takeWhile (· ≠ '"') ++ ['"'])⟩, behind)

/-- After a digit: the further digits, and a point if a digit follows it, with
the digits behind it. -/
def cutDigits (c : Char) (rest : List Char) : Segment × List Char :=
  let whole := c :: rest.takeWhile Char.isDigit
  match rest.dropWhile Char.isDigit with
  | '.' :: d :: behind =>
      if d.isDigit then
        (⟨.token .number, whole ++ '.' :: d :: behind.takeWhile Char.isDigit⟩,
          behind.dropWhile Char.isDigit)
      else (⟨.token .number, whole⟩, '.' :: d :: behind)
  | behind => (⟨.token .number, whole⟩, behind)

/-- After the start of a word: the rest of the word. -/
def cutWord (c : Char) (rest : List Char) : Segment × List Char :=
  let word := c :: rest.takeWhile isWordPart
  (⟨.token (Kind.ofWord (String.ofList word)), word⟩, rest.dropWhile isWordPart)

/-- The segment at the front of a text that starts with `c`, and the text behind
it. -/
def cut (c : Char) (rest : List Char) : Segment × List Char :=
  match symbol? c, joinable? c with
  | some kind, _ => (⟨.token kind, [c]⟩, rest)
  | none, some (alone, joined) => cutJoinable c alone joined rest
  | none, none =>
      if c = '/' then cutSlash rest
      else if isBlank c then (⟨.blank, [c]⟩, rest)
      else if c = '"' then cutQuote rest
      else if c.isDigit then cutDigits c rest
      else if isWordStart c then cutWord c rest
      else (⟨.unexpected, [c]⟩, rest)

/-! ## Nothing is lost -/

theorem cutJoinable_append (c : Char) (alone joined : Kind) (rest : List Char) :
    (cutJoinable c alone joined rest).1.text ++ (cutJoinable c alone joined rest).2
      = c :: rest := by
  unfold cutJoinable
  split <;> rfl

theorem cutSlash_append (rest : List Char) :
    (cutSlash rest).1.text ++ (cutSlash rest).2 = '/' :: rest := by
  unfold cutSlash
  split
  · simp only [List.cons_append, List.takeWhile_append_dropWhile]
  · rfl

theorem cutQuote_append (rest : List Char) :
    (cutQuote rest).1.text ++ (cutQuote rest).2 = '"' :: rest := by
  unfold cutQuote
  split
  · simp
  · rename_i quote behind isRest
    have isQuote : quote = '"' := by
      have atHead := List.head?_dropWhile_not (fun c : Char => decide (c ≠ '"')) rest
      rw [isRest] at atHead
      simpa using atHead
    subst isQuote
    have whole := List.takeWhile_append_dropWhile (p := fun c : Char => decide (c ≠ '"')) (l := rest)
    rw [isRest] at whole
    simpa using whole

theorem cutDigits_append (c : Char) (rest : List Char) :
    (cutDigits c rest).1.text ++ (cutDigits c rest).2 = c :: rest := by
  have whole := List.takeWhile_append_dropWhile (p := Char.isDigit) (l := rest)
  unfold cutDigits
  split
  · rename_i d behind isRest
    rw [isRest] at whole
    split
    · simpa using whole
    · simpa using whole
  · simp

theorem cutWord_append (c : Char) (rest : List Char) :
    (cutWord c rest).1.text ++ (cutWord c rest).2 = c :: rest := by
  simp [cutWord]

/-- A segment and the text behind it are the text that was cut. -/
@[simp] theorem cut_append (c : Char) (rest : List Char) :
    (cut c rest).1.text ++ (cut c rest).2 = c :: rest := by
  unfold cut
  split
  · rfl
  · exact cutJoinable_append c _ _ rest
  · split
    · rename_i isSlash
      rw [isSlash]
      exact cutSlash_append rest
    split
    · rfl
    split
    · rename_i isQuote
      rw [isQuote]
      exact cutQuote_append rest
    split
    · exact cutDigits_append c rest
    split
    · exact cutWord_append c rest
    · rfl

theorem cut_text_ne_nil (c : Char) (rest : List Char) : (cut c rest).1.text ≠ [] := by
  unfold cut cutJoinable cutSlash cutQuote cutDigits cutWord
  repeat' split
  all_goals simp

theorem cut_rest_length_lt (c : Char) (rest : List Char) :
    (cut c rest).2.length < (c :: rest).length := by
  have sizes := congrArg List.length (cut_append c rest)
  have nonempty := List.length_pos_iff.mpr (cut_text_ne_nil c rest)
  rw [List.length_append] at sizes
  omega

end Segment

def segments : List Char → List Segment
  | [] => []
  | c :: rest => (Segment.cut c rest).1 :: segments (Segment.cut c rest).2
termination_by text => text.length
decreasing_by exact Segment.cut_rest_length_lt c rest

@[simp] theorem segments_nil : segments [] = [] := by
  rw [segments]

@[simp] theorem segments_flatMap_text (text : List Char) :
    (segments text).flatMap Segment.text = text := by
  fun_induction segments text with
  | case1 => rfl
  | case2 c rest inductionHypothesis =>
      rw [List.flatMap_cons, inductionHypothesis, Segment.cut_append]

end LoxCalc
