import LoxCalc.Double.Text
import LoxCalc.Proofs.Double.Shortest
import LoxCalc.Proofs.Source.Literal

/-!
Contract: the numerals that the written forms of a decimal hold, and what they denote.

Owns:
- `Numeral.value`, the exact value of a numeral, with `Numeral.bits_eq`;
- `Decimal.inFull` and `Decimal.normalized`, the numerals of the two written forms;
- `le_leadingExponent_iff`, that the place of the first digit says between which powers of
  ten a decimal lies;
- `isPlain_iff`, which magnitudes are written in full;
- `decimal_inFull` and `decimal_scientific`, that the numeral of a written form denotes the
  magnitude if it is in full, and does not if it stands in front of an exponent.
-/

set_option autoImplicit false

namespace LoxCalc.Double

/-! ## Numerals -/

@[simp] theorem digitsValue_toDigits (n : Nat) : digitsValue (Nat.toDigits 10 n) = n :=
  Nat.ofDigitChars_toDigits (by decide) (by decide)

/-- Digits count by the places behind them. -/
@[simp] theorem digitsValue_append (front behind : List Char) :
    digitsValue (front ++ behind) =
      digitsValue front * 10 ^ behind.length + digitsValue behind := by
  show Nat.ofDigitChars 10 _ 0 = Nat.ofDigitChars 10 _ 0 * _ + Nat.ofDigitChars 10 _ 0
  rw [Nat.ofDigitChars_append, Nat.ofDigitChars_eq_ofDigitChars_zero, Nat.mul_comm]

@[simp] theorem digitsValue_replicate (zeros : Nat) : digitsValue (List.replicate zeros '0') = 0 := by
  show Nat.ofDigitChars 10 _ 0 = 0
  rw [Nat.ofDigitChars_replicate_zero, Nat.mul_zero]

/-- Zeros behind the digits multiply by powers of ten, zeros in front change nothing. -/
theorem digitsValue_zeros (n zeros : Nat) :
    digitsValue (Nat.toDigits 10 n ++ List.replicate zeros '0') = n * 10 ^ zeros ∧
      digitsValue (List.replicate zeros '0' ++ Nat.toDigits 10 n) = n := by
  constructor
  · show Nat.ofDigitChars 10 _ 0 = _
    rw [Nat.ofDigitChars_append, Nat.ofDigitChars_toDigits (by decide) (by decide),
      Nat.ofDigitChars_replicate_zero, Nat.mul_comm]
  · show Nat.ofDigitChars 10 _ 0 = _
    rw [Nat.ofDigitChars_append, Nat.ofDigitChars_replicate_zero, Nat.mul_zero,
      Nat.ofDigitChars_toDigits (by decide) (by decide)]

theorem digit_of_mem_toDigits {n : Nat} {c : Char} (member : c ∈ Nat.toDigits 10 n) : Digit c :=
  (isDigit_iff c).mp (Nat.isDigit_of_mem_toDigits (by decide) (by decide) member)

namespace Numeral

/-- The exact value of a numeral. -/
def value (n : Numeral) : ℚ := n.numerator / n.denominator

theorem denominator_pos (n : Numeral) : 0 < n.denominator := Nat.pow_pos (by decide)

theorem bits_eq {n : Numeral} {b : Nat} (rounds : RoundsTo n.value b) :
    n.bits = min infinityBits b :=
  nearest_eq n.denominator_pos rounds

theorem exists_roundsTo (n : Numeral) :
    ∃ b, RoundsTo n.value b ∧ n.bits = min infinityBits b :=
  exists_nearest n.numerator n.denominator_pos

end Numeral

/-! ## The numerals of a decimal -/

namespace Decimal

theorem digits_ne_nil (d : Decimal) : d.digits ≠ [] := Nat.toDigits_ne_nil

theorem digit_of_mem_digits {d : Decimal} {c : Char} (member : c ∈ d.digits) : Digit c :=
  digit_of_mem_toDigits member

/-- The digits with zeros in front as far as a point before the last `places` needs them. -/
def padded (d : Decimal) (places : Nat) : List Char :=
  List.replicate (places + 1 - d.digits.length) '0' ++ d.digits

/-- The numeral of a decimal that is written in full. -/
def inFull (d : Decimal) : Numeral :=
  if 0 ≤ d.exponent then ⟨d.digits ++ List.replicate d.exponent.toNat '0', []⟩
  else
    let places := (-d.exponent).toNat
    let whole := (d.padded places).length - places
    ⟨(d.padded places).take whole, (d.padded places).drop whole⟩

/-- The numeral of a decimal with one digit before the point. -/
def normalized (d : Decimal) : Numeral := ⟨d.digits.take 1, d.digits.drop 1⟩

theorem lt_length_padded (d : Decimal) (places : Nat) : places < (d.padded places).length := by
  have nonempty := List.length_pos_iff.mpr d.digits_ne_nil
  rw [padded, List.length_append, List.length_replicate]
  omega

theorem digit_of_mem_padded {d : Decimal} {places : Nat} {c : Char}
    (member : c ∈ d.padded places) : Digit c := by
  rcases List.mem_append.mp member with isZero | isDigit
  · rw [List.eq_of_mem_replicate isZero]
    decide
  · exact digit_of_mem_digits isDigit

theorem inFull_plain (d : Decimal) : d.inFull.Plain := by
  unfold inFull
  split
  · refine ⟨List.append_ne_nil_of_left_ne_nil d.digits_ne_nil _, ?_, by simp⟩
    intro c member
    rcases List.mem_append.mp member with isDigit | isZero
    · exact digit_of_mem_digits isDigit
    · rw [List.eq_of_mem_replicate isZero]
      decide
  · have inside := d.lt_length_padded (-d.exponent).toNat
    refine ⟨?_, ?_, ?_⟩
    · rw [← List.length_pos_iff, List.length_take]
      omega
    · exact fun c member => digit_of_mem_padded (List.mem_of_mem_take member)
    · exact fun c member => digit_of_mem_padded (List.mem_of_mem_drop member)

theorem plain_eq_text (d : Decimal) : d.plain = d.inFull.text := by
  unfold plain inFull
  split
  · rw [Numeral.text, if_pos rfl]
  · have inside := d.lt_length_padded (-d.exponent).toNat
    have fraction : (d.padded (-d.exponent).toNat).drop
        ((d.padded (-d.exponent).toNat).length - (-d.exponent).toNat) ≠ [] := by
      rw [← List.length_pos_iff, List.length_drop]
      omega
    rw [Numeral.text, if_neg fraction]
    rfl

theorem inFull_value (d : Decimal) : d.inFull.value = d.value := by
  unfold inFull Numeral.value value Numeral.numerator Numeral.denominator
  split
  · rename_i whole
    obtain ⟨zeros, isExponent⟩ := Int.eq_ofNat_of_zero_le whole
    rw [List.append_nil, isExponent, Int.toNat_natCast, digits, (digitsValue_zeros _ _).1,
      zpow_natCast]
    simp
  · rename_i negative
    obtain ⟨places, isExponent⟩ : ∃ places : Nat, d.exponent = -(places : Int) :=
      ⟨(-d.exponent).toNat, by omega⟩
    have inside := d.lt_length_padded places
    have width : ((d.padded places).drop ((d.padded places).length - places)).length = places := by
      rw [List.length_drop]
      omega
    simp only [isExponent, neg_neg, Int.toNat_natCast, List.take_append_drop, width]
    rw [padded, digits, (digitsValue_zeros _ _).2, zpow_neg, zpow_natCast, Nat.pow_eq,
      div_eq_mul_inv]
    push_cast
    rfl

theorem normalized_plain (d : Decimal) : d.normalized.Plain := by
  have nonempty := List.length_pos_iff.mpr d.digits_ne_nil
  refine ⟨?_, ?_, ?_⟩
  · rw [← List.length_pos_iff, normalized, List.length_take]
    omega
  · exact fun c member => digit_of_mem_digits (List.mem_of_mem_take member)
  · exact fun c member => digit_of_mem_digits (List.mem_of_mem_drop member)

theorem mantissa_eq_text (d : Decimal) : mantissa d.digits = d.normalized.text := by
  have nonempty := d.digits_ne_nil
  unfold normalized Numeral.text
  match d.digits, nonempty with
  | [c], _ => rfl
  | c :: second :: rest, _ => rfl

theorem normalized_value (d : Decimal) :
    d.normalized.value = d.coefficient / (10 ^ (d.digits.length - 1) : Nat) := by
  unfold normalized Numeral.value Numeral.numerator Numeral.denominator
  rw [List.take_append_drop, List.length_drop, digits, digitsValue_toDigits, Nat.pow_eq]

/-! ## Powers of ten -/

/-- A number lies between the powers of ten of its number of digits. -/
theorem digits_bounds {d : Decimal} (positive : 0 < d.coefficient) :
    10 ^ (d.digits.length - 1) ≤ d.coefficient ∧ d.coefficient < 10 ^ d.digits.length := by
  have nonempty := List.length_pos_iff.mpr d.digits_ne_nil
  constructor
  · rcases Nat.eq_zero_or_pos (d.digits.length - 1) with single | several
    · rw [single, Nat.pow_zero]
      exact positive
    · apply Nat.le_of_not_lt
      intro less
      have shorter := (Nat.length_toDigits_le_iff (by decide) several).mpr less
      rw [← digits] at shorter
      omega
  · exact (Nat.length_toDigits_le_iff (by decide) nonempty).mp (Nat.le_refl _)

theorem normalized_bounds {d : Decimal} (positive : 0 < d.coefficient) :
    1 ≤ d.normalized.value ∧ d.normalized.value ≤ 10 := by
  obtain ⟨least, most⟩ := digits_bounds positive
  have power : (0 : ℚ) < (10 ^ (d.digits.length - 1) : Nat) := by positivity
  have width : d.digits.length = d.digits.length - 1 + 1 := by
    have := List.length_pos_iff.mpr d.digits_ne_nil
    omega
  rw [normalized_value]
  constructor
  · rw [le_div_iff₀ power, one_mul]
    exact_mod_cast least
  · rw [div_le_iff₀ power]
    rw [width, Nat.pow_succ, Nat.mul_comm] at most
    exact_mod_cast most.le

theorem leadingExponent_bounds {d : Decimal} (positive : 0 < d.coefficient) :
    (10 : ℚ) ^ d.leadingExponent ≤ d.value ∧ d.value < 10 ^ (d.leadingExponent + 1) := by
  obtain ⟨least, most⟩ := digits_bounds positive
  have nonempty := List.length_pos_iff.mpr d.digits_ne_nil
  have scale : (0 : ℚ) < 10 ^ d.exponent := zpow_pos (by norm_num) _
  have lower : d.leadingExponent = ((d.digits.length - 1 : Nat) : Int) + d.exponent := by
    rw [leadingExponent]
    omega
  have upper : d.leadingExponent + 1 = (d.digits.length : Int) + d.exponent := by
    rw [leadingExponent]
    omega
  rw [upper, lower, zpow_add₀ (by norm_num), zpow_add₀ (by norm_num), zpow_natCast, zpow_natCast,
    value]
  constructor
  · exact mul_le_mul_of_nonneg_right (by exact_mod_cast least) scale.le
  · exact mul_lt_mul_of_pos_right (by exact_mod_cast most) scale

/-- The place of the first digit says which powers of ten a decimal reaches. -/
theorem le_leadingExponent_iff {d : Decimal} (positive : 0 < d.coefficient) (n : Int) :
    n ≤ d.leadingExponent ↔ (10 : ℚ) ^ n ≤ d.value := by
  obtain ⟨least, most⟩ := leadingExponent_bounds positive
  have base : (1 : ℚ) < 10 := by norm_num
  constructor
  · intro reaches
    exact (zpow_le_zpow_right₀ base.le reaches).trans least
  · intro reaches
    exact Int.lt_add_one_iff.mp ((zpow_lt_zpow_iff_right₀ base).mp (reaches.trans_lt most))

end Decimal

/-! ## Magnitudes -/

/-- The pattern of the least magnitude that is written in full, which is `0.0001`. -/
def leastPlain : Nat := 0x3F1A36E2EB1C432D

/-- The pattern of the first magnitude that is too large to be written in full, which is
`10 ^ 16`. -/
def firstLarge : Nat := 0x4341C37937E08000

/-- The shortest decimals of powers of ten between which the written form changes, and of
those between which the numeral in front of an exponent lies. -/
theorem shortest_powers :
    shortest leastPlain = ⟨1, -4⟩ ∧ shortest firstLarge = ⟨1, 16⟩ ∧
      shortest 0x3FF0000000000000 = ⟨1, 0⟩ ∧ shortest 0x4024000000000000 = ⟨1, 1⟩ := by
  decide +kernel

theorem roundsTo_power {power : Nat} {exponent : Int} (positive : 0 < power)
    (isPower : shortest power = ⟨1, exponent⟩) : RoundsTo (10 ^ exponent) power := by
  have rounds := (shortest_roundsTo positive).1
  rwa [isPower, Decimal.value, Nat.cast_one, one_mul] at rounds

/-- The shortest decimal of a magnitude reaches a power of ten exactly if the magnitude
does. -/
theorem le_leadingExponent_shortest_iff {power b : Nat} {exponent : Int} (positive : 0 < power)
    (isPower : shortest power = ⟨1, exponent⟩) (some : 0 < b) :
    exponent ≤ (shortest b).leadingExponent ↔ power ≤ b := by
  obtain ⟨rounds, nonzero⟩ := shortest_roundsTo some
  have ofPower := roundsTo_power positive isPower
  rw [Decimal.le_leadingExponent_iff nonzero]
  constructor
  · intro reaches
    exact ofPower.le_of_le rounds reaches
  · intro atLeast
    rcases Nat.lt_or_eq_of_le atLeast with above | rfl
    · exact (ofPower.lt rounds above).le
    · rw [isPower, Decimal.value, Nat.cast_one, one_mul]

/-- The numeral in front of an exponent denotes a magnitude from `1` to `10`. -/
theorem normalized_bits {d : Decimal} (positive : 0 < d.coefficient) :
    0x3FF0000000000000 ≤ d.normalized.bits ∧ d.normalized.bits ≤ 0x4024000000000000 := by
  obtain ⟨least, most⟩ := Decimal.normalized_bounds positive
  obtain ⟨_, _, isOne, isTen⟩ := shortest_powers
  obtain ⟨p, rounds, isBits⟩ := d.normalized.exists_roundsTo
  have fromOne := (roundsTo_power (by decide) isOne).le_of_le rounds (by simpa using least)
  have toTen := rounds.le_of_le (roundsTo_power (by decide) isTen) (by simpa using most)
  have below : 0x4024000000000000 < infinityBits := by decide
  omega

/-- A magnitude is written in full between two powers of ten. -/
theorem isPlain_iff {b : Nat} (positive : 0 < b) :
    layout.plainFrom ≤ (shortest b).leadingExponent ∧
        (shortest b).leadingExponent < layout.plainBelow ↔
      leastPlain ≤ b ∧ b < firstLarge := by
  obtain ⟨isLeast, isFirst, _, _⟩ := shortest_powers
  have reachesLeast : layout.plainFrom ≤ (shortest b).leadingExponent ↔ leastPlain ≤ b :=
    le_leadingExponent_shortest_iff (by decide) isLeast positive
  have reachesFirst : layout.plainBelow ≤ (shortest b).leadingExponent ↔ firstLarge ≤ b :=
    le_leadingExponent_shortest_iff (by decide) isFirst positive
  rw [reachesLeast, ← not_le, reachesFirst, not_le]

/-- What is written in full is a numeral that denotes the magnitude. -/
theorem decimal_inFull {b : Nat} (inRange : leastPlain ≤ b ∧ b < firstLarge) :
    layout.decimal (shortest b) = (shortest b).inFull.text ∧ (shortest b).inFull.bits = b := by
  have positive : 0 < b := Nat.lt_of_lt_of_le (by decide) inRange.1
  have finite : b ≤ infinityBits := inRange.2.le.trans (by decide)
  have rounds := (shortest_roundsTo positive).1
  rw [← Decimal.inFull_value] at rounds
  rw [Layout.decimal, if_pos ((isPlain_iff positive).mpr inRange), Numeral.bits_eq rounds]
  exact ⟨Decimal.plain_eq_text _, Nat.min_eq_right finite⟩

/-- What is written with an exponent starts with a numeral that denotes another magnitude. -/
theorem decimal_scientific {b : Nat} (positive : 0 < b)
    (outside : ¬ (leastPlain ≤ b ∧ b < firstLarge)) :
    layout.decimal (shortest b) = (shortest b).normalized.text ++
        'e' :: Decimal.signed (shortest b).leadingExponent ∧
      (shortest b).normalized.bits ≠ b := by
  obtain ⟨fromOne, toTen⟩ := normalized_bits (shortest_roundsTo positive).2
  constructor
  · rw [Layout.decimal, if_neg fun isPlain => outside ((isPlain_iff positive).mp isPlain),
      Decimal.scientific, Decimal.mantissa_eq_text]
    rfl
  · unfold leastPlain firstLarge at outside
    omega

end LoxCalc.Double
