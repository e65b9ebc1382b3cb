import LoxCalc.Proofs.Double.Denotation
import LoxCalc.Proofs.Double.Nearest

/-!
Contract: the doubles of scanned numbers.

Owns:
- `Numeral.value_eq`, the value of a numeral by its digits in front of the point and behind it;
- `Numeral.nearestTo_iff`, that a numeral denotes the double nearest to its value, with
  `Numeral.isInf_toFloat_iff` and `Numeral.toFloat_le_toFloat`;
- `NumberToken`, a scanned number with its numeral and its double;
- `RoundedLiteral` with `number_literals_rounded`, the literal of every scanned number.
-/

set_option autoImplicit false

namespace LoxCalc

open Double

/-! ## Numerals -/

namespace Double.Numeral

/-- The digits in front of the point count whole numbers, those behind it count parts of one. -/
theorem value_eq (n : Numeral) :
    n.value = digitsValue n.whole + (digitsValue n.fraction : ℚ) / 10 ^ n.fraction.length := by
  have power : (10 : ℚ) ^ n.fraction.length ≠ 0 := by positivity
  rw [value, numerator, denominator, digitsValue_append, Nat.pow_eq]
  push_cast
  field_simp

/-- A numeral with more zeros in front, and behind its fraction. -/
def zeroPadded (n : Numeral) (front behind : Nat) : Numeral :=
  ⟨List.replicate front '0' ++ n.whole, n.fraction ++ List.replicate behind '0'⟩

theorem zeroPadded_value (n : Numeral) (front behind : Nat) :
    (n.zeroPadded front behind).value = n.value := by
  have power : (10 : ℚ) ^ n.fraction.length ≠ 0 := by positivity
  have zeros : (10 : ℚ) ^ behind ≠ 0 := by positivity
  rw [value_eq, value_eq, zeroPadded]
  simp only [digitsValue_append, digitsValue_replicate, List.length_append,
    List.length_replicate, pow_add]
  push_cast
  field_simp
  ring

/-- **A numeral denotes the double nearest to its value.** -/
theorem nearestTo_iff (n : Numeral) (y : Float) : NearestTo n.value y ↔ y = n.toFloat := by
  obtain ⟨b, rounds, isBits⟩ := n.exists_roundsTo
  have nearest := rounds.nearestTo (n.toBits_toFloat.trans isBits)
  constructor
  · intro others
    exact others.unique rounds.nonneg nearest
  · rintro rfl
    exact nearest

theorem isInf_toFloat_iff (n : Numeral) :
    n.toFloat.isInf = true ↔ 2 ^ 1024 - 2 ^ 970 ≤ n.value := by
  obtain ⟨b, rounds, isBits⟩ := n.exists_roundsTo
  have noSign : infinityBits < signBit := by decide
  have isMagnitude : magnitude n.toFloat = n.bits := by
    rw [magnitude, n.toBits_toFloat, Nat.mod_eq_of_lt (Nat.lt_of_le_of_lt n.bits_le noSign)]
  rw [(isInf_iff_and_isNaN_iff _).1, isMagnitude, isBits, ← lowerEnd_infinity, ← not_lt,
    ← rounds.lt_infinity_iff]
  omega

theorem toFloat_le_toFloat {n m : Numeral} (atMost : n.value ≤ m.value) :
    n.toFloat ≤ m.toFloat := by
  obtain ⟨b, rounds, isBits⟩ := n.exists_roundsTo
  obtain ⟨p, others, areBits⟩ := m.exists_roundsTo
  have inOrder : b ≤ p := rounds.le_of_le others atMost
  rw [n.unsigned_toFloat.le_iff m.unsigned_toFloat, n.toBits_toFloat, m.toBits_toFloat, isBits,
    areBits]
  exact min_le_min_left infinityBits inOrder

end Double.Numeral

/-! ## Scanned numbers -/

/-- A scanned number: its lexeme is the written form of `n`, and its literal is `x`. -/
structure NumberToken (t : Token) (n : Numeral) (x : Float) : Prop where
  scanned : ∃ source, t ∈ (scan source).tokens
  isNumber : t.kind = .number
  plain : n.Plain
  lexeme : t.lexeme.toList = n.text
  literal : t.literal = some (.number x)

theorem exists_numberToken {source : String} {t : Token} (member : t ∈ (scan source).tokens)
    (isNumber : t.kind = .number) : ∃ n : Numeral, NumberToken t n n.toFloat := by
  obtain ⟨n, plain, lexeme, literal, _⟩ := (literalLaw_of_mem_scan member).number isNumber
  exact ⟨n, ⟨source, member⟩, isNumber, plain, lexeme, literal⟩

theorem NumberToken.eq_toFloat {t : Token} {n : Numeral} {x : Float}
    (isToken : NumberToken t n x) : x = n.toFloat := by
  obtain ⟨source, member⟩ := isToken.scanned
  obtain ⟨m, others⟩ := exists_numberToken member isToken.isNumber
  have sameNumeral : n = m :=
    isToken.plain.eq_of_text others.plain (isToken.lexeme.symm.trans others.lexeme)
  have sameLiteral := isToken.literal.symm.trans others.literal
  rw [sameNumeral]
  exact Value.number.inj (Option.some.inj sameLiteral)

/-- The literal of a scanned number is the double nearest to the value of its numeral. -/
structure RoundedLiteral (t : Token) (n : Numeral) (x : Float) : Prop where
  isToken : NumberToken t n x
  value : n.value = digitsValue n.whole + (digitsValue n.fraction : ℚ) / 10 ^ n.fraction.length
  nearest : ∀ y, NearestTo n.value y ↔ y = x
  overflow : x.isInf = true ↔ 2 ^ 1024 - 2 ^ 970 ≤ n.value
  monotone : ∀ {u m y}, NumberToken u m y → n.value ≤ m.value → x ≤ y
  zeros : ∀ {u front behind y}, NumberToken u (n.zeroPadded front behind) y → y = x

/-- **Number literals are correctly rounded.** Every scanned number is the written form of a
numeral, and its literal is the double nearest to the value of this numeral, however long it
is. -/
theorem number_literals_rounded {source : String} {t : Token}
    (member : t ∈ (scan source).tokens) (isNumber : t.kind = .number) :
    ∃ n x, RoundedLiteral t n x := by
  obtain ⟨n, isToken⟩ := exists_numberToken member isNumber
  refine ⟨n, n.toFloat, isToken, n.value_eq, n.nearestTo_iff, n.isInf_toFloat_iff, ?_, ?_⟩
  · intro u m y others atMost
    rw [others.eq_toFloat]
    exact Numeral.toFloat_le_toFloat atMost
  · intro u front behind y others
    rw [others.eq_toFloat, ← n.nearestTo_iff, ← n.zeroPadded_value front behind,
      Numeral.nearestTo_iff]

/-- A digit far behind the point decides between the neighbours of a middle. -/
theorem number_literals_rounded_middle :
    let t : Token := ⟨.number, "9007199254740993.00000000000000000001",
      some (.number 9007199254740994), 1⟩
    t ∈ (scan "9007199254740993.00000000000000000001").tokens ∧ t.kind = .number ∧
      ∃ n x, RoundedLiteral t n x := by
  intro t
  have member : t ∈ (scan "9007199254740993.00000000000000000001").tokens := by decide +kernel
  exact ⟨member, rfl, number_literals_rounded member rfl⟩

end LoxCalc
