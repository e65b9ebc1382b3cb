import LoxCalc.Proofs.Double.Notation
import LoxCalc.Proofs.Double.Order
import LoxCalc.Proofs.Fresh
import LoxCalc.Proofs.Source.Boundary

/-!
Contract: which numbers are read back from how they are written.

Owns:
- `Tail`, what may stand behind the numeral of a written number, and that it is dropped;
- `written_run`, what a written numeral with a tail comes to;
- `readBack` and `Readable`, with `readBack_laws`, which numbers are read back.

A number that is written with an exponent does not read back: the exponent is a word to the
scanner, and the tokens behind a whole expression are dropped.
-/

set_option autoImplicit false

namespace LoxCalc

open Double Parse Segment

/-! ## Numerals in a text -/

theorem Double.Numeral.Plain.lexeme {n : Numeral} (plain : n.Plain) :
    Lexeme (.token .number) n.text := by
  unfold Numeral.text
  split
  · exact .integer plain.nonempty plain.whole
  · rename_i fractional
    exact .decimal plain.nonempty fractional plain.whole plain.fraction

/-- A numeral is cut off in front of what continues no number. -/
theorem segments_numeral_stop {n : Numeral} (plain : n.Plain) {stop : Char}
    (notDigit : stop.isDigit = false) (notPoint : stop ≠ '.') (behind : List Char) :
    segments (n.text ++ stop :: behind) =
      ⟨.token .number, n.text⟩ :: segments (stop :: behind) := by
  obtain ⟨c, rest, isText, digit⟩ := plain.exists_digit
  have starts : initial? c = some .digit := (initial?_eq_some_iff c .digit).mpr digit
  have alone := segments_lexeme plain.lexeme
  rw [isText, segments, cut_eq, starts] at alone
  obtain ⟨isNumber, noneLeft⟩ := List.cons.inj alone
  have empty : (cutDigits c rest).2 = [] := by
    rw [← segments_flatMap_text (cutDigits c rest).2, noneLeft, List.flatMap_nil]
  rw [isText, List.cons_append, segments, cut_eq, starts,
    cutDigits_append_stop notDigit notPoint c rest behind, isNumber, empty, List.nil_append]

/-! ## What stands behind a numeral -/

/-- What may stand behind the numeral of a written number: nothing, or an exponent. -/
inductive Tail : List Char → Prop where
  | nothing : Tail []
  | exponent (power : Int) : Tail ('e' :: Decimal.signed power)

theorem level?_ofWord (word : String) : (Kind.ofWord word).level? = none := by
  have noOperators : ∀ kind ∈ wordKinds, kind.level? = none := by decide
  exact noOperators _ (ofWord_mem_wordKinds word)

/-- An exponent is scanned as a word, with a minus sign and a number behind it if it is
negative. -/
theorem segments_exponent (power : Int) :
    ∃ word rest, segments ('e' :: Decimal.signed power) =
        ⟨.token (Kind.ofWord word), word.toList⟩ :: rest ∧ ∀ s ∈ rest, s.complaint? = none := by
  have digits : ∀ c ∈ Nat.toDigits 10 power.natAbs, Digit c := fun c member =>
    digit_of_mem_toDigits member
  unfold Decimal.signed
  split
  · -- The minus sign ends the word in front of it.
    have cutWord_e : cutWord 'e' ('-' :: Nat.toDigits 10 power.natAbs) =
        (⟨.token (Kind.ofWord "e"), ['e']⟩, '-' :: Nat.toDigits 10 power.natAbs) := rfl
    have starts : initial? 'e' = some .word := by decide
    have isMinus : symbol? '-' = some .minus := rfl
    have number := segments_lexeme (.integer Nat.toDigits_ne_nil digits)
    refine ⟨"e", [⟨.token .minus, ['-']⟩, ⟨.token .number, Nat.toDigits 10 power.natAbs⟩], ?_, ?_⟩
    · rw [segments, cut_eq, starts]
      show (cutWord _ _).1 :: segments (cutWord _ _).2 = _
      simp [cutWord_e, isMinus, number]
    · simp [Segment.complaint?]
  · have word : Lexeme _ ('e' :: Nat.toDigits 10 power.natAbs) :=
      lexeme_word (by decide) fun c member => .inr (digits c member)
    refine ⟨String.ofList ('e' :: Nat.toDigits 10 power.natAbs), [], ?_, by simp⟩
    rw [segments_lexeme word, String.toList_ofList]

/-- A numeral with a tail is scanned without errors as a number, behind which no operator
stands. -/
theorem Tail.segments_numeral {n : Numeral} (plain : n.Plain) {tail : List Char}
    (isTail : Tail tail) :
    ∃ rest, segments (n.text ++ tail) = ⟨.token .number, n.text⟩ :: rest ∧
      (∀ s ∈ rest, s.complaint? = none) ∧
      ∀ line, ∀ t ∈ (tokensOn line rest).head?, t.kind.level? = none := by
  cases isTail with
  | nothing =>
      refine ⟨[], ?_, by simp, ?_⟩
      · rw [List.append_nil, segments_lexeme plain.lexeme]
      · rintro line t ⟨⟩
  | exponent power =>
      obtain ⟨word, rest, isCut, clean⟩ := segments_exponent power
      refine ⟨_, segments_numeral_stop plain (by decide) (by decide) _, ?_, ?_⟩
      · rw [isCut]
        exact List.forall_mem_cons.mpr ⟨rfl, clean⟩
      · intro line t atHead
        rw [isCut, tokensOn_cons] at atHead
        obtain rfl := Option.some.inj atHead
        exact level?_ofWord word

/-! ## Running a written number -/

/-- A text without lexical errors that starts with an expression comes to its value. -/
theorem run_of_read {text : List Char} (clean : ∀ s ∈ segments text, s.complaint? = none)
    {e : Expr} {rest : List Token} {value : Value}
    (reads : State.start.read (tokensOn 1 (segments text)) = (.ok e, rest))
    (eval : e.eval = .ok value) :
    Diagnostics.empty.run (String.ofList text) = (some value, .empty) := by
  have noErrors : (scan (String.ofList text)).errors = [] := by
    rwa [scan_errors_eq_nil_iff, String.toList_ofList]
  have parses : Run.parseScan (scan (String.ofList text)) = .ok e := by
    rw [← String.toList_ofList (l := text)] at reads
    exact parseScan_of_read reads
  obtain ⟨isValue, noReports⟩ := fresh_value noErrors parses eval
  show ((Run.fresh _).value?, (⟨[] ++ (Run.fresh _).reports⟩ : Diagnostics)) = _
  rw [isValue, noReports]
  rfl

section

variable {n : Numeral} (plain : n.Plain) {tail : List Char} (isTail : Tail tail)

include plain isTail

theorem written_tokens (line : UInt32) :
    ∃ t rest, tokensOn line (segments (n.text ++ tail)) = t :: rest ∧ t.kind = .number ∧
      t.literal = some (.number n.toFloat) ∧ ∀ next ∈ rest.head?, next.kind.level? = none := by
  obtain ⟨rest, isCut, _, noOperator⟩ := isTail.segments_numeral plain
  rw [isCut, tokensOn_cons]
  exact ⟨_, _, rfl, rfl, literalOf_numeral plain, noOperator _⟩

theorem written_clean : ∀ s ∈ segments (n.text ++ tail), s.complaint? = none := by
  obtain ⟨rest, isCut, clean, _⟩ := isTail.segments_numeral plain
  rw [isCut]
  exact List.forall_mem_cons.mpr ⟨rfl, clean⟩

/-- A written number comes to the double of its numeral, whatever its tail. -/
theorem written_run :
    Diagnostics.empty.run (String.ofList (n.text ++ tail)) =
      (some (.number n.toFloat), .empty) := by
  obtain ⟨t, rest, isTokens, isNumber, isLiteral, ends⟩ := written_tokens plain isTail 1
  have spells : Spells (.literal (t.literal.getD .nil)) [t] := .datum (.inl isNumber)
  have reads := read_start_complete spells (.literal _) ends
  rw [List.singleton_append, ← isTokens] at reads
  refine run_of_read (written_clean plain isTail) reads ?_
  rw [isLiteral]
  rfl

/-- Behind a minus sign it comes to the negation. -/
theorem written_run_negative :
    Diagnostics.empty.run (String.ofList ('-' :: (n.text ++ tail))) =
      (some (.number (-n.toFloat)), .empty) := by
  obtain ⟨t, rest, isTokens, isNumber, isLiteral, ends⟩ := written_tokens plain isTail 1
  have isMinus : symbol? '-' = some .minus := rfl
  have isCut := segments_cons_symbol isMinus (n.text ++ tail)
  have clean : ∀ s ∈ segments ('-' :: (n.text ++ tail)), s.complaint? = none := by
    rw [isCut]
    exact List.forall_mem_cons.mpr ⟨rfl, written_clean plain isTail⟩
  have signedTokens : tokensOn 1 (segments ('-' :: (n.text ++ tail))) =
      [⟨.minus, "-", none, 1⟩, t] ++ rest := by
    rw [isCut, tokensOn_cons_word (by decide) rfl, isTokens]
    rfl
  have operand : Spells (.literal (t.literal.getD .nil)) [t] := .datum (.inl isNumber)
  have spells : Spells (.unary ⟨.minus, "-", none, 1⟩ (.literal (t.literal.getD .nil)))
      [⟨.minus, "-", none, 1⟩, t] := .unary operand
  have shaped : WellShaped
      (.unary ⟨.minus, "-", none, 1⟩ (.literal (t.literal.getD .nil))) :=
    .unary (.inr rfl) (show looseToTight.length ≤ 5 by decide) (.literal _)
  have reads := read_start_complete spells shaped ends
  rw [← signedTokens] at reads
  refine run_of_read clean reads ?_
  rw [isLiteral]
  rfl

end

/-! ## Written magnitudes -/

/-- The written form of a finite magnitude is a numeral with a tail, and the numeral denotes
it exactly if it is zero or lies between the powers of ten that are written in full. -/
theorem exists_written {b : Nat} (finite : b < infinityBits) :
    ∃ (n : Numeral) (tail : List Char), n.Plain ∧ Tail tail ∧
      layout.magnitude b = n.text ++ tail ∧
      (n.bits = b ↔ b = 0 ∨ leastPlain ≤ b ∧ b < firstLarge) := by
  rw [Layout.magnitude]
  split
  · rename_i isZero
    have zeroBits : (⟨['0'], []⟩ : Numeral).bits = 0 := by decide +kernel
    have plain : (⟨['0'], []⟩ : Numeral).Plain :=
      ⟨List.cons_ne_nil _ _, List.forall_mem_singleton.mpr (by decide), by simp⟩
    refine ⟨_, [], plain, .nothing, rfl, ?_⟩
    exact iff_of_true (by rw [zeroBits, isZero]) (.inl isZero)
  · rename_i nonzero
    by_cases inRange : leastPlain ≤ b ∧ b < firstLarge
    · obtain ⟨isText, denotes⟩ := decimal_inFull inRange
      exact ⟨_, [], Decimal.inFull_plain _, .nothing, by rw [isText, List.append_nil],
        iff_of_true denotes (.inr inRange)⟩
    · obtain ⟨isText, other⟩ := decimal_scientific (Nat.pos_of_ne_zero nonzero) inRange
      exact ⟨_, _, Decimal.normalized_plain _, .exponent _, isText,
        iff_of_false other (not_or.mpr ⟨nonzero, inRange⟩)⟩

/-! ## Written numbers -/

/-- What the written form of a number comes to, with a new record of reports. -/
def readBack (x : Float) : Option Value × Diagnostics :=
  Diagnostics.empty.run (Value.number x).text

/-- A finite number comes to a number, which is the same exactly if its magnitude is zero or
is written in full. -/
theorem finite_run {x : Float} (finite : magnitude x < infinityBits) :
    ∃ y, readBack x = (some (.number y), .empty) ∧
      (y = x ↔ magnitude x = 0 ∨ leastPlain ≤ magnitude x ∧ magnitude x < firstLarge) := by
  obtain ⟨n, tail, plain, isTail, isText, denotes⟩ := exists_written finite
  have bits := toNat_toBits_eq x
  show ∃ y, Diagnostics.empty.run (String.ofList (chars x)) = _ ∧ _
  rw [← denotes, chars_eq, if_neg (Nat.not_lt_of_le finite.le), isText]
  by_cases unsigned : x.toBits.toNat < signBit
  · rw [if_pos unsigned] at bits
    rw [if_pos unsigned]
    refine ⟨_, written_run plain isTail, ?_⟩
    rw [eq_iff_toNat_toBits, n.toBits_toFloat, bits]
  · rw [if_neg unsigned] at bits
    rw [if_neg unsigned]
    refine ⟨_, written_run_negative plain isTail, ?_⟩
    rw [eq_iff_toNat_toBits, n.unsigned_toFloat.toNat_toBits_neg, n.toBits_toFloat, bits,
      Nat.add_left_cancel_iff]

/-- The words for what is not finite are no expressions. -/
theorem words_run :
    ∀ word ∈ ["NaN", "inf", "-inf"], ∃ line location message,
      Diagnostics.empty.run word = (none, ⟨[.syntactic line location message]⟩) := by
  intro word listed
  simp only [List.mem_cons, List.not_mem_nil, or_false] at listed
  rcases listed with rfl | rfl | rfl
  · exact ⟨1, .atLexeme "NaN", "Expect expression.", by decide +kernel⟩
  · exact ⟨1, .atLexeme "inf", "Expect expression.", by decide +kernel⟩
  · exact ⟨1, .atLexeme "inf", "Expect expression.", by decide +kernel⟩

theorem text_mem_words {x : Float} (notFinite : infinityBits ≤ magnitude x) :
    (Value.number x).text ∈ ["NaN", "inf", "-inf"] := by
  show String.ofList (chars x) ∈ _
  rw [chars_eq]
  split
  · decide
  · have isInfinity : magnitude x = infinityBits := by omega
    have isWord : layout.magnitude infinityBits = ['i', 'n', 'f'] := rfl
    rw [isInfinity, isWord]
    split <;> decide

/-! ## The range -/

theorem eq_zero_iff (x : Float) : x = 0 ∨ x = -0 ↔ magnitude x = 0 := by
  have zero : (0 : Float).toBits.toNat = 0 := by decide +kernel
  have negativeZero : (-0 : Float).toBits.toNat = signBit := by decide +kernel
  have bits := toNat_toBits_eq x
  rw [eq_iff_toNat_toBits, eq_iff_toNat_toBits, zero, negativeZero]
  have positive : 0 < signBit := by decide
  split at bits <;> omega

/-- The numbers that are written in full, as doubles are compared. -/
theorem inRange_iff {x : Float} (atMost : magnitude x ≤ infinityBits) :
    (1e-4 ≤ x.abs ∧ x.abs < 1e16) ↔ leastPlain ≤ magnitude x ∧ magnitude x < firstLarge := by
  have least : (1e-4 : Float).toBits.toNat = leastPlain := by decide +kernel
  have first : (1e16 : Float).toBits.toNat = firstLarge := by decide +kernel
  have isAbs := toNat_toBits_abs atMost
  have unsigned : Unsigned x.abs := isAbs.le.trans atMost
  have unsignedLeast : Unsigned 1e-4 := least.le.trans (by decide)
  have unsignedFirst : Unsigned 1e16 := first.le.trans (by decide)
  rw [unsignedLeast.le_iff unsigned, unsigned.lt_iff unsignedFirst, isAbs, least, first]

/-- The zeros, and the numbers from `1e-4` up to, and without, `1e16` of either sign. -/
def Readable (x : Float) : Prop := x = 0 ∨ x = -0 ∨ (1e-4 ≤ x.abs ∧ x.abs < 1e16)

theorem readable_iff {x : Float} (atMost : magnitude x ≤ infinityBits) :
    Readable x ↔ magnitude x = 0 ∨ leastPlain ≤ magnitude x ∧ magnitude x < firstLarge := by
  rw [Readable, ← or_assoc, eq_zero_iff, inRange_iff atMost]

/-- Nothing that is not finite is readable. -/
theorem Readable.finite {x : Float} (readable : Readable x) : magnitude x < infinityBits := by
  have notInRange : ¬ (1e-4 : Float) ≤ Float.nan.abs := by decide +kernel
  have zero : ¬ (Float.nan = 0 ∨ Float.nan = -0) := by
    rw [eq_zero_iff]
    decide +kernel
  rcases Nat.lt_or_ge infinityBits (magnitude x) with isNaN | atMost
  · -- There is one NaN, and it can be compared by evaluation.
    have beyond := (isInf_iff_and_isNaN_iff x).2.mpr isNaN
    rw [Float.isNaN_eq_decide_eq_nan, decide_eq_true_iff] at beyond
    rw [beyond, Readable, ← or_assoc] at readable
    exact absurd readable (not_or.mpr ⟨zero, fun range => notInRange range.1⟩)
  · have large : firstLarge ≤ infinityBits := by decide
    have some : 0 < infinityBits := by decide
    rw [readable_iff atMost] at readable
    omega

/-- **Which numbers read back.** The written form of a number comes to the number with the
same bits and without an error exactly if the number is readable; NaN and the infinities come
to nothing and a syntax error, and every other number comes to a different one. -/
theorem readBack_laws (x : Float) :
    ((∃ y, y.toBits = x.toBits ∧ readBack x = (some (.number y), .empty)) ↔ Readable x) ∧
      (x.isNaN ∨ x.isInf → ∃ line location message,
        readBack x = (none, ⟨[.syntactic line location message]⟩)) ∧
      (¬ (x.isNaN ∨ x.isInf) → ¬ Readable x →
        ∃ y, y.toBits ≠ x.toBits ∧ readBack x = (some (.number y), .empty)) := by
  obtain ⟨isInf, isNaN⟩ := isInf_iff_and_isNaN_iff x
  rcases Nat.lt_or_ge (magnitude x) infinityBits with finite | notFinite
  · obtain ⟨y, isNumber, same⟩ := finite_run finite
    rw [← readable_iff finite.le, ← Float.toBits_inj] at same
    have isFinite : ¬ (x.isNaN ∨ x.isInf) := by
      rw [isNaN, isInf]
      omega
    refine ⟨⟨?_, ?_⟩, fun isWord => absurd isWord isFinite, ?_⟩
    · rintro ⟨z, sameBits, isOther⟩
      have sameNumber : y = z :=
        Value.number.inj (Option.some.inj (congrArg Prod.fst (isNumber.symm.trans isOther)))
      exact same.mp (sameNumber ▸ sameBits)
    · exact fun readable => ⟨y, same.mpr readable, isNumber⟩
    · exact fun _ unreadable => ⟨y, fun sameBits => unreadable (same.mp sameBits), isNumber⟩
  · obtain ⟨line, location, message, isError⟩ := words_run _ (text_mem_words notFinite)
    have isWord : x.isNaN ∨ x.isInf := by
      rw [isNaN, isInf]
      omega
    refine ⟨⟨?_, ?_⟩, fun _ => ⟨line, location, message, isError⟩, fun finite =>
      absurd isWord finite⟩
    · rintro ⟨y, _, isNumber⟩
      have differs := congrArg Prod.fst (isNumber.symm.trans isError)
      contradiction
    · exact fun readable => absurd readable.finite (Nat.not_lt_of_le notFinite)

/-- The first number that is too large to be read back: its exponent is dropped. -/
example : readBack 1e16 = (some (.number 1), .empty) := by
  decide +kernel

end LoxCalc
