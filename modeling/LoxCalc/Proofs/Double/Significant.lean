import LoxCalc.Proofs.Double.Denotation
import LoxCalc.Proofs.Double.Fewest
import Mathlib.Data.List.DropRight

/-!
Contract: the digits of a written number that are significant.

Owns:
- `stripZeros`, a list of digits without the zeros on the outside;
- `significantDigits`, those of a written number, with `Denotes.eq_significantDigits`, that the
  number is made of them;
- `WrittenDecimal`, how the digits of a decimal stand in its written form;
- `magnitude_significantDigits_le`, that no decimal that rounds to a magnitude has fewer digits;
- `magnitude_not_point_zero`, that no magnitude is written with a fraction of zeros;
- `mark_mem_magnitude_iff`, which magnitudes are written with an exponent.
-/

set_option autoImplicit false

namespace LoxCalc.Double

/-! ## Zeros on the outside -/

/-- Digits without the zeros in front of them and behind. -/
def stripZeros (digits : List Char) : List Char :=
  (digits.dropWhile (· == '0')).rdropWhile (· == '0')

theorem exists_stripZeros (digits : List Char) :
    ∃ front behind,
      digits = List.replicate front '0' ++ stripZeros digits ++ List.replicate behind '0' := by
  have front : ∀ c ∈ digits.takeWhile (· == '0'), c = '0' := by
    intro c member
    simpa using List.mem_takeWhile_imp (p := (· == '0')) member
  have behind : ∀ c ∈ (digits.dropWhile (· == '0')).rtakeWhile (· == '0'), c = '0' := by
    intro c member
    simpa using List.mem_rtakeWhile_imp member
  refine ⟨(digits.takeWhile (· == '0')).length,
    ((digits.dropWhile (· == '0')).rtakeWhile (· == '0')).length, ?_⟩
  rw [← List.eq_replicate_of_mem front, ← List.eq_replicate_of_mem behind, stripZeros,
    List.append_assoc, List.rdropWhile_append_rtakeWhile, List.takeWhile_append_dropWhile]

theorem length_stripZeros_le (digits : List Char) (front behind : Nat) :
    (stripZeros (List.replicate front '0' ++ digits ++ List.replicate behind '0')).length ≤
      digits.length := by
  have zeros : ∀ n, ∀ c ∈ List.replicate n '0', (c == '0') = true := fun n c member =>
    beq_iff_eq.mpr (List.eq_of_mem_replicate member)
  rw [stripZeros, List.append_assoc, List.dropWhile_append_of_pos (zeros front),
    List.dropWhile_append]
  split
  · rw [List.dropWhile_eq_nil_iff.mpr (zeros behind)]
    exact Nat.zero_le _
  · rw [List.rdropWhile, List.reverse_append, List.reverse_replicate,
      List.dropWhile_append_of_pos (zeros behind), ← List.rdropWhile]
    exact (List.rdropWhile_prefix _ _).length_le.trans (List.dropWhile_suffix _).length_le

/-- Zeros in front change nothing, and zeros behind multiply by powers of ten. -/
theorem digitsValue_stripZeros (digits : List Char) :
    ∃ behind, digitsValue digits = digitsValue (stripZeros digits) * 10 ^ behind := by
  obtain ⟨front, behind, isPadded⟩ := exists_stripZeros digits
  refine ⟨behind, ?_⟩
  conv_lhs => rw [isPadded]
  simp

/-! ## Significant digits -/

/-- The significant digits of a written number: those in front of the exponent, without the
zeros on the outside. -/
def significantDigits (text : List Char) : List Char :=
  stripZeros ((text.takeWhile (fun c => decide (c ≠ 'e'))).filter Char.isDigit)

namespace Numeral.Plain

variable {n : Numeral} (plain : n.Plain)

include plain

theorem filter_text : n.text.filter Char.isDigit = n.whole ++ n.fraction := by
  have whole := List.filter_eq_self.mpr fun c member => (isDigit_iff c).mpr (plain.whole c member)
  have fraction :=
    List.filter_eq_self.mpr fun c member => (isDigit_iff c).mpr (plain.fraction c member)
  unfold Numeral.text
  split
  · rename_i noFraction
    rw [whole, noFraction, List.append_nil]
  · rw [List.filter_append, whole, List.filter_cons_of_neg (by decide), fraction]

theorem significantDigits_append {tail : List Char} (stops : ∀ c ∈ tail.head?, c = 'e') :
    significantDigits (n.text ++ tail) = stripZeros (n.whole ++ n.fraction) := by
  rw [significantDigits, takeWhile_append_of_stops plain.ne_mark fun c atHead =>
    not_not_intro (stops c atHead), plain.filter_text]

theorem significantDigits_text : significantDigits n.text = stripZeros (n.whole ++ n.fraction) := by
  have noTail : ∀ c ∈ ([] : List Char).head?, c = 'e' := by simp
  rw [← plain.significantDigits_append noTail, List.append_nil]

end Numeral.Plain

theorem Numeral.exists_power (n : Numeral) :
    ∃ power : Int, n.value = digitsValue (stripZeros (n.whole ++ n.fraction)) * 10 ^ power := by
  obtain ⟨behind, isValue⟩ := digitsValue_stripZeros (n.whole ++ n.fraction)
  refine ⟨(behind : Int) - n.fraction.length, ?_⟩
  rw [value, numerator, denominator, isValue, Nat.pow_eq, zpow_sub₀ (by norm_num), zpow_natCast,
    zpow_natCast]
  push_cast
  ring

/-- **A written number is its significant digits at some place.** -/
theorem Denotes.eq_significantDigits {text : List Char} {v : ℚ} (denotes : Denotes text v) :
    ∃ power : Int, v = digitsValue (significantDigits text) * 10 ^ power := by
  cases denotes with
  | @numeral n plain =>
      rw [plain.significantDigits_text]
      exact n.exists_power
  | @scientific n _ power plain _ =>
      obtain ⟨place, isValue⟩ := n.exists_power
      rw [plain.significantDigits_append (by simp), isValue]
      exact ⟨place + power, by rw [zpow_add₀ (by norm_num), mul_assoc]⟩

/-! ## Written decimals -/

/-- A decimal is written as a numeral of its digits and zeros, alone or in front of an
exponent. Zeros behind the digits make no fraction. -/
inductive WrittenDecimal (d : Decimal) : List Char → Prop where
  | alone {n : Numeral} (plain : n.Plain) (front behind : Nat)
      (padded : n.whole ++ n.fraction =
        List.replicate front '0' ++ d.digits ++ List.replicate behind '0')
      (pointed : n.fraction ≠ [] → behind = 0) : WrittenDecimal d n.text
  | scientific {n : Numeral} {exponent : List Char} {power : Int} (plain : n.Plain)
      (bare : n.whole ++ n.fraction = d.digits) (denotes : DenotesPower exponent power) :
      WrittenDecimal d (n.text ++ 'e' :: exponent)

/-- In full, zeros stand in front of a fraction, or behind the digits of a whole number. -/
theorem Decimal.exists_inFull_padding (d : Decimal) :
    ∃ front behind, d.inFull.whole ++ d.inFull.fraction =
        List.replicate front '0' ++ d.digits ++ List.replicate behind '0' ∧
      (d.inFull.fraction ≠ [] → behind = 0) := by
  unfold Decimal.inFull
  split
  · refine ⟨0, d.exponent.toNat, ?_, fun isFraction => absurd rfl isFraction⟩
    rw [List.append_nil, List.replicate_zero, List.nil_append]
  · refine ⟨(-d.exponent).toNat + 1 - d.digits.length, 0, ?_, fun _ => rfl⟩
    rw [List.take_append_drop, List.replicate_zero, List.append_nil, Decimal.padded]

theorem writtenDecimal_decimal (d : Decimal) : WrittenDecimal d (layout.decimal d) := by
  unfold Layout.decimal
  split
  · obtain ⟨front, behind, padded, pointed⟩ := d.exists_inFull_padding
    rw [Decimal.plain_eq_text]
    exact .alone d.inFull_plain front behind padded pointed
  · rw [Decimal.scientific, Decimal.mantissa_eq_text]
    exact .scientific d.normalized_plain (List.take_append_drop _ _) (denotesPower_signed _)

/-- No more digits of a written decimal are significant than it has. -/
theorem WrittenDecimal.significantDigits_length_le {d : Decimal} {text : List Char}
    (written : WrittenDecimal d text) :
    (significantDigits text).length ≤ d.digits.length := by
  cases written with
  | alone plain front behind padded =>
      rw [plain.significantDigits_text, padded]
      exact length_stripZeros_le _ _ _
  | scientific plain bare _ =>
      have isStripped := length_stripZeros_le d.digits 0 0
      rw [plain.significantDigits_append (by simp), bare]
      simpa using isStripped

/-- A decimal whose digits end in zero is a multiple of ten. -/
theorem Decimal.coefficient_mod_ten {d : Decimal} (ends : ['0'] <:+ d.digits) :
    d.coefficient % 10 = 0 := by
  obtain ⟨before, isDigits⟩ := ends
  have isCoefficient := digitsValue_toDigits d.coefficient
  have zero : digitsValue ['0'] = 0 := by decide
  rw [← Decimal.digits, ← isDigits, digitsValue_append, zero, List.length_singleton,
    Nat.pow_one] at isCoefficient
  omega

/-- A decimal that is no multiple of ten is not written with a fraction of zeros. -/
theorem WrittenDecimal.not_point_zero {d : Decimal} {text : List Char}
    (written : WrittenDecimal d text) (last : d.coefficient % 10 ≠ 0) :
    ¬ ['.', '0'] <:+ text := by
  intro ends
  cases written with
  | @alone n plain front behind padded pointed =>
      obtain ⟨before, isText⟩ := ends
      have hasPoint : '.' ∈ n.text := by simp [← isText]
      have fractional : n.fraction ≠ [] := by
        intro noFraction
        rw [Numeral.text, if_pos noFraction] at hasPoint
        exact ne_point_of_digit (plain.whole _ hasPoint) rfl
      rw [pointed fractional, List.replicate_zero, List.append_nil] at padded
      -- The digits of the text end in zero, and they are those of the decimal.
      have endsInZero : ['0'] <:+ List.replicate front '0' ++ d.digits := by
        rw [← padded, ← plain.filter_text, ← isText, List.filter_append]
        exact List.suffix_append _ _
      have fits : ['0'].length ≤ d.digits.length := List.length_pos_iff.mpr d.digits_ne_nil
      exact last (Decimal.coefficient_mod_ten
        (List.suffix_of_suffix_length_le endsInZero (List.suffix_append _ _) fits))
  | @scientific _ exponent _ plain bare denotes =>
      have nonempty := List.length_pos_iff.mpr denotes.ne_nil
      have fits : ['.', '0'].length ≤ ('e' :: exponent).length := Nat.succ_le_succ nonempty
      have inExponent := List.suffix_of_suffix_length_le ends (List.suffix_append _ _) fits
      have isPoint : '.' ∈ 'e' :: exponent := inExponent.subset (by simp)
      rcases List.mem_cons.mp isPoint with isMark | behind
      · exact absurd isMark (by decide)
      · rcases denotes.mem behind with isDigit | isMinus
        · exact absurd isDigit (by decide)
        · exact absurd isMinus (by decide)

/-! ## Written magnitudes -/

section

variable {b : Nat} (finite : b < infinityBits)

include finite

/-- A magnitude is written as zero or as its shortest decimal. -/
theorem magnitude_finite :
    layout.magnitude b = if b = 0 then ['0'] else layout.decimal (shortest b) := by
  rw [Layout.magnitude, if_pos finite]

/-- **No decimal that rounds to a magnitude has fewer digits** than are significant in its
written form. -/
theorem magnitude_significantDigits_le {d : Decimal} (rounds : RoundsTo d.value b) :
    (significantDigits (layout.magnitude b)).length ≤ d.digits.length := by
  rw [magnitude_finite finite]
  split
  · exact Nat.zero_le _
  · rename_i nonzero
    exact (writtenDecimal_decimal _).significantDigits_length_le.trans
      (shortest_fewest (Nat.pos_of_ne_zero nonzero) rounds)

theorem magnitude_not_point_zero : ¬ ['.', '0'] <:+ layout.magnitude b := by
  rw [magnitude_finite finite]
  split
  · decide
  · rename_i nonzero
    exact (writtenDecimal_decimal _).not_point_zero (shortest_last (Nat.pos_of_ne_zero nonzero))

/-- The magnitudes that are written with an exponent. -/
theorem mark_mem_magnitude_iff :
    'e' ∈ layout.magnitude b ↔ b ≠ 0 ∧ (b < leastPlain ∨ firstLarge ≤ b) := by
  rw [magnitude_finite finite]
  split
  · rename_i isZero
    exact iff_of_false (by simp) fun outside => outside.1 isZero
  · rename_i nonzero
    by_cases inRange : leastPlain ≤ b ∧ b < firstLarge
    · have noMark := (Decimal.inFull_plain (shortest b)).ne_mark
      rw [(decimal_inFull inRange).1]
      exact iff_of_false (fun member => noMark _ member rfl) (by omega)
    · rw [(decimal_scientific (Nat.pos_of_ne_zero nonzero) inRange).1]
      exact iff_of_true (by simp) ⟨nonzero, by omega⟩

end

end LoxCalc.Double
