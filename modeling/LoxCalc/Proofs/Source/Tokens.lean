import LoxCalc.Proofs.Source.RoundedLiteral

/-!
Contract: a scan yields the longest words of its text as tokens, each with its literal.

Owns:
- `Carries`, the literal of every word, by its letters alone;
- `carries_of_lexeme`, that words are given these literals;
- `scan_maximalMunch`, the tokens and errors of every text.

Does **not** own: the lines of tokens and errors.

A number carries the double nearest to what its digits write. Which double that is is said by
`NearestTo`, without the arithmetic that finds it.
-/

set_option autoImplicit false

namespace LoxCalc

open Double (Numeral NearestTo)

/-! ## Literals -/

/-- The number that digits write, most significant digit first. -/
def writtenNumber (digits : List Char) : Nat := Nat.ofDigitChars 10 digits 0

/-- The literal that a word carries as a token of a kind: the text between the quotes of a
string, the double nearest to what a number writes, and none for all other words. -/
inductive Carries : Kind → List Char → Option Value → Prop where
  | string {body : List Char} (unquoted : '"' ∉ body) :
      Carries .string ('"' :: (body ++ ['"'])) (some (.string (String.ofList body)))
  | integer {digits : List Char} {x : Float} (nonempty : digits ≠ [])
      (all : ∀ d ∈ digits, Digit d) (nearest : NearestTo (writtenNumber digits) x) :
      Carries .number digits (some (.number x))
  | decimal {whole fraction : List Char} {x : Float} (wholeNonempty : whole ≠ [])
      (fractionNonempty : fraction ≠ []) (wholeDigits : ∀ d ∈ whole, Digit d)
      (fractionDigits : ∀ d ∈ fraction, Digit d)
      (nearest : NearestTo
        (writtenNumber whole + (writtenNumber fraction : ℚ) / 10 ^ fraction.length) x) :
      Carries .number (whole ++ '.' :: fraction) (some (.number x))
  | bare {kind : Kind} {word : List Char} (notString : kind ≠ .string)
      (notNumber : kind ≠ .number) : Carries kind word none

/-- What the digits of a numeral write is the value that it is read with. -/
theorem value_eq_writtenNumber (n : Numeral) :
    n.value = writtenNumber n.whole + (writtenNumber n.fraction : ℚ) / 10 ^ n.fraction.length :=
  n.value_eq

/-- A word is given the literal that it carries. -/
theorem carries_of_lexeme {kind : Kind} {word : List Char}
    (lexeme : Lexeme (.token kind) word) : Carries kind word (literalOf kind word) := by
  have bare : ∀ {kinds : List Kind}, (∀ k ∈ kinds, k ≠ .string ∧ k ≠ .number) → kind ∈ kinds →
      Carries kind word (literalOf kind word) := by
    intro kinds noDatum isKind
    obtain ⟨notString, notNumber⟩ := noDatum kind isKind
    rw [literalOf_other notNumber notString]
    exact .bare notString notNumber
  cases lexeme with
  | fixed listed =>
      have noDatum : ∀ k ∈ fixedSpellings.map Prod.snd, k ≠ .string ∧ k ≠ .number := by decide
      exact bare noDatum (List.mem_map_of_mem listed)
  | @string body unquoted =>
      rw [literalOf_quoted]
      exact .string unquoted
  | integer nonempty all =>
      have plain : (⟨word, []⟩ : Numeral).Plain := ⟨nonempty, all, by simp⟩
      have isText : (⟨word, []⟩ : Numeral).text = word := if_pos rfl
      have isWhole : (⟨word, []⟩ : Numeral).value = writtenNumber word := by
        rw [value_eq_writtenNumber]
        simp [writtenNumber]
      have nearest := (Numeral.nearestTo_iff ⟨word, []⟩ _).mpr rfl
      rw [isWhole] at nearest
      rw [← isText, literalOf_numeral plain, isText]
      exact .integer nonempty all nearest
  | @decimal whole fraction wholeNonempty fractionNonempty wholeDigits fractionDigits =>
      have plain : (⟨whole, fraction⟩ : Numeral).Plain :=
        ⟨wholeNonempty, wholeDigits, fractionDigits⟩
      have isText : (⟨whole, fraction⟩ : Numeral).text = whole ++ '.' :: fraction :=
        if_neg fractionNonempty
      have nearest := (Numeral.nearestTo_iff ⟨whole, fraction⟩ _).mpr rfl
      rw [value_eq_writtenNumber] at nearest
      rw [← isText, literalOf_numeral plain, isText]
      exact .decimal wholeNonempty fractionNonempty wholeDigits fractionDigits nearest
  | keyword reserved =>
      exact bare (by decide) (mem_wordKinds_of_reserved reserved)
  | identifier _ _ _ =>
      have isWord : Kind.identifier ∈ wordKinds := List.mem_cons_self
      exact bare (by decide) isWord

/-! ## Scanning -/

/-- **A scan cuts its text at the longest words.** There is one way to do so. Its segments are
the tokens in order, each with the kind of its class and the literal of its word, then one end
mark; and they are the errors. -/
theorem scan_maximalMunch (source : String) :
    ∃ segs body line,
      (∀ other, Cuts source.toList other ↔ other = segs) ∧
        segs.flatMap Segment.text = source.toList ∧
        (scan source).tokens = body ++ [⟨.eof, "", none, line⟩] ∧
        (∀ t ∈ body, t.kind ≠ .eof) ∧
        body.map (fun t => (t.kind, t.lexeme)) = segs.filterMap Segment.word? ∧
        (∀ t ∈ body, Carries t.kind t.lexeme.toList t.literal) ∧
        (scan source).errors.map (fun e => e.fault.message) =
          segs.filterMap Segment.complaint? := by
  let segs := segments source.toList
  refine ⟨segs, tokensOn 1 segs, endLine 1 segs, cuts_iff source.toList,
    segments_flatMap_text source.toList, rfl, ?_,
    filterMap_placed Segment.token? _ _ token?_word segs 1, ?_,
    filterMap_placed Segment.error? _ _ error?_complaint segs 1⟩
  · intro t member
    exact (lexeme_of_mem_tokensOn member).1.ne_eof
  · intro t member
    obtain ⟨lexeme, isLiteral⟩ := lexeme_of_mem_tokensOn member
    rw [isLiteral]
    exact carries_of_lexeme lexeme

end LoxCalc
