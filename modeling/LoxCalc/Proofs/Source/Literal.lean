import LoxCalc.Proofs.Double.Bits
import LoxCalc.Proofs.Source.Lines
import Mathlib.Data.List.TakeWhile

/-!
Contract: the literals of scanned tokens.

Owns:
- `Numeral.Plain` and `Numeral.text`, the numerals that a text can hold and how they are
  written;
- `LiteralLaw`, the literal of a token by its kind, with `literalLaw_of_mem_scan`.
-/

set_option autoImplicit false

namespace LoxCalc

open Double (Numeral)

/-! ## Written numerals -/

/-- A numeral of decimal digits, with at least one before the point. -/
structure Double.Numeral.Plain (n : Numeral) : Prop where
  nonempty : n.whole ≠ []
  whole : ∀ d ∈ n.whole, Digit d
  fraction : ∀ d ∈ n.fraction, Digit d

/-- How a numeral is written: with a point exactly if there are digits behind it. -/
def Double.Numeral.text (n : Numeral) : List Char :=
  if n.fraction = [] then n.whole else n.whole ++ '.' :: n.fraction

theorem Double.Numeral.Plain.exists_digit {n : Numeral} (plain : n.Plain) :
    ∃ c rest, n.text = c :: rest ∧ Digit c := by
  obtain ⟨c, rest, isWhole⟩ := List.exists_cons_of_ne_nil plain.nonempty
  have digit : Digit c := plain.whole c (isWhole ▸ List.mem_cons_self)
  unfold Numeral.text
  rw [isWhole]
  split
  · exact ⟨c, _, rfl, digit⟩
  · exact ⟨c, _, rfl, digit⟩

theorem ne_point_of_digit {d : Char} (digit : Digit d) : d ≠ '.' := by
  rintro rfl
  exact absurd digit (by decide)

/-- A plain numeral is read back from how it is written. -/
theorem ofChars_text {n : Numeral} (plain : n.Plain) : Numeral.ofChars n.text = n := by
  have noPoint : ∀ d ∈ n.whole, decide (d ≠ '.') = true := by
    intro d member
    exact decide_eq_true (ne_point_of_digit (plain.whole d member))
  obtain ⟨whole, fraction⟩ := n
  by_cases isInteger : fraction = []
  · subst isInteger
    have taken : whole.takeWhile (fun d => decide (d ≠ '.')) = whole :=
      List.takeWhile_eq_self_iff.mpr noPoint
    have dropped : whole.dropWhile (fun d => decide (d ≠ '.')) = [] :=
      List.dropWhile_eq_nil_iff.mpr noPoint
    simp only [Numeral.ofChars, Numeral.text, ↓reduceIte, taken, dropped, List.drop_nil]
  · have parts : (whole ++ '.' :: fraction).takeWhile (fun d => decide (d ≠ '.')) = whole ∧
        (whole ++ '.' :: fraction).dropWhile (fun d => decide (d ≠ '.')) = '.' :: fraction :=
      takeWhile_append_stop noPoint (by decide)
    simp only [Numeral.ofChars, Numeral.text, isInteger, ↓reduceIte, parts.1, parts.2,
      List.drop_one, List.tail_cons]

/-- Number words are the written forms of plain numerals. -/
theorem Lexeme.exists_numeral {word : List Char} (lexeme : Lexeme (.token .number) word) :
    ∃ n : Numeral, n.Plain ∧ n.text = word := by
  cases lexeme with
  | fixed listed =>
      have noneListed : ∀ entry ∈ fixedSpellings, entry.2 ≠ .number := by decide
      exact absurd rfl (noneListed _ listed)
  | integer nonempty all =>
      exact ⟨⟨word, []⟩, ⟨nonempty, all, by simp⟩, by simp [Numeral.text]⟩
  | @decimal whole fraction wholeNonempty fractionNonempty wholeDigits fractionDigits =>
      exact ⟨⟨whole, fraction⟩, ⟨wholeNonempty, wholeDigits, fractionDigits⟩,
        by simp [Numeral.text, fractionNonempty]⟩
  | keyword reserved =>
      have noWord : ∀ kind ∈ wordKinds, kind ≠ .number := by decide
      exact absurd rfl (noWord _ (mem_wordKinds_of_reserved reserved))

theorem Lexeme.exists_body {word : List Char} (lexeme : Lexeme (.token .string) word) :
    ∃ body, word = '"' :: (body ++ ['"']) := by
  cases lexeme with
  | fixed listed =>
      have noneListed : ∀ entry ∈ fixedSpellings, entry.2 ≠ .string := by decide
      exact absurd rfl (noneListed _ listed)
  | @string body unquoted => exact ⟨body, rfl⟩
  | keyword reserved =>
      have noWord : ∀ kind ∈ wordKinds, kind ≠ .string := by decide
      exact absurd rfl (noWord _ (mem_wordKinds_of_reserved reserved))

/-! ## Literals -/

/-- The literal of a token by its kind: the unsigned double of a number, the text between
the quotes of a string, and none for all others. -/
structure LiteralLaw (t : Token) : Prop where
  number : t.kind = .number → ∃ n : Numeral, n.Plain ∧ t.lexeme.toList = n.text ∧
    t.literal = some (.number n.toFloat) ∧ n.toFloat.isNaN = false ∧
    n.toFloat.toBits.toNat < 2 ^ 63
  string : t.kind = .string → ∃ body, t.lexeme.toList = '"' :: (body ++ ['"']) ∧
    t.literal = some (.string (String.ofList body))
  others : t.kind ≠ .number → t.kind ≠ .string → t.literal = none

theorem literalOf_numeral {n : Numeral} (plain : n.Plain) :
    literalOf .number n.text = some (.number n.toFloat) := by
  rw [literalOf, ofChars_text plain]

@[simp] theorem literalOf_quoted (body : List Char) :
    literalOf .string ('"' :: (body ++ ['"'])) = some (.string (String.ofList body)) := by
  rw [literalOf, List.tail_cons, List.dropLast_concat]

theorem literalOf_other {kind : Kind} (notNumber : kind ≠ .number) (notString : kind ≠ .string)
    (text : List Char) : literalOf kind text = none := by
  unfold literalOf
  split
  · exact absurd rfl notString
  · exact absurd rfl notNumber
  · rfl

theorem literalOf_fixed {spelling : List Char} {kind : Kind}
    (listed : (spelling, kind) ∈ fixedSpellings) (text : List Char) :
    literalOf kind text = none := by
  have noneListed : ∀ entry ∈ fixedSpellings, entry.2 ≠ .number ∧ entry.2 ≠ .string := by decide
  obtain ⟨notNumber, notString⟩ := noneListed _ listed
  exact literalOf_other notNumber notString text

theorem literalOf_ofWord (word : String) (text : List Char) :
    literalOf (Kind.ofWord word) text = none := by
  have noDatum : ∀ kind ∈ wordKinds, kind ≠ .number ∧ kind ≠ .string := by decide
  obtain ⟨notNumber, notString⟩ := noDatum _ (ofWord_mem_wordKinds word)
  exact literalOf_other notNumber notString text

theorem literalLaw_of_lexeme {t : Token} (lexeme : Lexeme (.token t.kind) t.lexeme.toList)
    (isLiteral : t.literal = literalOf t.kind t.lexeme.toList) : LiteralLaw t where
  number := by
    intro isNumber
    rw [isNumber] at lexeme isLiteral
    obtain ⟨n, plain, isText⟩ := lexeme.exists_numeral
    obtain ⟨notNaN, unsigned⟩ := n.toFloat_unsigned
    refine ⟨n, plain, isText.symm, ?_, notNaN, unsigned⟩
    rw [isLiteral, ← isText, literalOf_numeral plain]
  string := by
    intro isString
    rw [isString] at lexeme isLiteral
    obtain ⟨body, isText⟩ := lexeme.exists_body
    refine ⟨body, isText, ?_⟩
    simp [isLiteral, isText]
  others := by
    intro notNumber notString
    rw [isLiteral, literalOf_other notNumber notString]

theorem literalLaw_of_mem_scan {source : String} {t : Token} (member : t ∈ (scan source).tokens) :
    LiteralLaw t := by
  rw [scan_tokens, List.mem_append, List.mem_singleton] at member
  rcases member with isWord | rfl
  · obtain ⟨lexeme, isLiteral⟩ := lexeme_of_mem_tokensOn isWord
    exact literalLaw_of_lexeme lexeme isLiteral
  · exact ⟨fun isNumber => by contradiction, fun isString => by contradiction, fun _ _ => rfl⟩

end LoxCalc
