import LoxCalc.Proofs.Double.Nearest
import LoxCalc.Proofs.Double.Significant
import LoxCalc.Proofs.Pattern.Tree

/-!
Contract: what the written form of a number says of it.

Owns:
- `fieldValue_lt_leastPlain_iff` and `firstLarge_le_fieldValue_iff`, the bounds of what is
  written in full as exact values;
- `isFinite_iff`, the finite doubles by their magnitudes;
- `minus` and `chars_of_finite`, the sign of a written number;
- `FaithfulText` with `number_text_faithful`, the laws of the written form.

Does **not** own: whether a written number is read back by the scanner, which drops exponents.
-/

set_option autoImplicit false

namespace LoxCalc

open Double

namespace Double

/-! ## The bounds of what is written in full -/

/-- The least magnitude that is written in full is the first one from `10 ^ -4` on. -/
theorem fieldValue_lt_leastPlain_iff (b : Nat) :
    fieldValue b < 1 / 10 ^ 4 ↔ b < leastPlain := by
  have least : 1 / 10 ^ 4 ≤ fieldValue leastPlain := by norm_num [fieldValue, leastPlain]
  have before : fieldValue (leastPlain - 1) < 1 / 10 ^ 4 := by norm_num [fieldValue, leastPlain]
  constructor
  · intro small
    exact fieldValue_strictMono.lt_iff_lt.mp (small.trans_le least)
  · intro below
    exact (fieldValue_strictMono.monotone (Nat.le_sub_one_of_lt below)).trans_lt before

theorem firstLarge_le_fieldValue_iff (b : Nat) : 10 ^ 16 ≤ fieldValue b ↔ firstLarge ≤ b := by
  have first : fieldValue firstLarge = 10 ^ 16 := by norm_num [fieldValue, firstLarge]
  rw [← first, fieldValue_strictMono.le_iff_le]

/-! ## Finite numbers -/

theorem isFinite_iff (x : Float) : x.isFinite = true ↔ magnitude x < infinityBits := by
  obtain ⟨isInf, isNaN⟩ := isInf_iff_and_isNaN_iff x
  have kinds : ∀ u : Float.Model.UnpackedFloat,
      u.isFinite = true ↔ ¬ u.isInf = true ∧ ¬ u.isNaN = true := by
    intro u
    cases u <;> simp [Float.Model.UnpackedFloat.isFinite, Float.Model.UnpackedFloat.isInf,
      Float.Model.UnpackedFloat.isNaN]
  have isFinite : x.isFinite = true ↔ ¬ x.isInf = true ∧ ¬ x.isNaN = true := kinds _
  rw [isFinite, isInf, isNaN]
  omega

/-- The sign of a written number: a minus exactly if the sign bit is set. -/
def minus (x : Float) : List Char := if x.toBits.toNat < signBit then [] else ['-']

theorem chars_of_finite {x : Float} (finite : magnitude x < infinityBits) :
    chars x = minus x ++ layout.magnitude (magnitude x) := by
  rw [chars_eq, if_neg (Nat.not_lt_of_le finite.le), minus]
  split
  · rfl
  · rfl

theorem mem_of_mem_minus {x : Float} {c : Char} (member : c ∈ minus x) : c = '-' := by
  unfold minus at member
  split at member
  · contradiction
  · exact List.mem_singleton.mp member

theorem Decimal.value_nonneg (d : Decimal) : 0 ≤ d.value :=
  mul_nonneg (Nat.cast_nonneg _) (zpow_nonneg (by norm_num) _)

end Double

/-! ## The laws of the written form -/

/-- What the written form of a finite number says of it: behind the sign, `body` denotes `v`. -/
structure FaithfulText (x : Float) (body : List Char) (v : ℚ) : Prop where
  isText : (Value.number x).text.toList = minus x ++ body
  denotes : Denotes body v
  /-- The number is the double nearest to what is written, with the sign in front. -/
  nearest : ∀ y, NearestTo v y ↔ y = x.abs
  digits : ∃ power : Int, v = digitsValue (significantDigits body) * 10 ^ power
  /-- No decimal with fewer digits has the same nearest double. -/
  fewest : ∀ d : Decimal, NearestTo d.value x.abs →
    (significantDigits body).length ≤ d.digits.length
  /-- An exponent is written if the number is small and not zero, or large, and only then. -/
  exponent : 'e' ∈ (Value.number x).text.toList ↔
    exact x ≠ 0 ∧ (|exact x| < 1 / 10 ^ 4 ∨ 10 ^ 16 ≤ |exact x|)
  fraction : ¬ ['.', '0'] <:+ (Value.number x).text.toList

theorem toList_text_number (x : Float) : (Value.number x).text.toList = chars x :=
  String.toList_ofList

theorem exists_faithfulText {x : Float} (finite : magnitude x < infinityBits) :
    ∃ body v, FaithfulText x body v := by
  have isText : (Value.number x).text.toList = minus x ++ layout.magnitude (magnitude x) :=
    (toList_text_number x).trans (chars_of_finite finite)
  obtain ⟨v, denotes, rounds⟩ := denotes_magnitude finite
  have nearest := (nearestTo_abs_iff finite rounds.nonneg).mpr rounds
  refine ⟨_, v, isText, denotes, fun y => ⟨fun others => ?_, ?_⟩, denotes.eq_significantDigits,
    fun d others => ?_, ?_, ?_⟩
  · exact others.unique rounds.nonneg nearest
  · rintro rfl
    exact nearest
  · exact magnitude_significantDigits_le finite
      ((nearestTo_abs_iff finite d.value_nonneg).mp others)
  · have noMark : 'e' ∉ minus x := fun member => absurd (mem_of_mem_minus member) (by decide)
    rw [isText, List.mem_append, or_iff_right noMark, mark_mem_magnitude_iff finite, abs_exact,
      fieldValue_lt_leastPlain_iff, firstLarge_le_fieldValue_iff, ne_eq, ne_eq,
      exact_eq_zero_iff]
  · rw [isText]
    have inBody := magnitude_not_point_zero finite
    unfold minus
    split
    · exact inBody
    · rw [List.singleton_append, List.suffix_cons_iff, not_or]
      exact ⟨fun same => absurd (List.cons.inj same).1 (by decide), inBody⟩

/-- **The written form of a number loses nothing and adds nothing.** A finite number is the
double nearest to what is written, in as few digits as can be; and any two patterns are written
alike exactly if they are equal as values, so that all NaNs are written alike and zeros of two
signs are not. -/
theorem number_text_faithful :
    (∀ x : Float, x.isFinite = true → ∃ body v, FaithfulText x body v) ∧
      ∀ p q : UInt64,
        (Value.number (Float.ofBits p)).text = (Value.number (Float.ofBits q)).text ↔
          (Pattern.Value.number p).Same (.number q) := by
  constructor
  · intro x finite
    exact exists_faithfulText ((isFinite_iff x).mp finite)
  · intro p q
    rw [Pattern.Value.same_iff, Pattern.Value.decode, Pattern.Value.decode, Value.number.injEq,
      ← String.toList_inj, toList_text_number, toList_text_number, chars_injective.eq_iff]

/-- The least positive double, to which the decimals between half of it and one and a half are
nearest, is written with one digit and a negative exponent. -/
theorem number_text_faithful_least :
    (5e-324 : Float).isFinite = true ∧
      FaithfulText 5e-324 "5e-324".toList (5 * 10 ^ (-324 : Int)) := by
  have finite : (5e-324 : Float).isFinite = true := by decide +kernel
  have isText : (Value.number 5e-324).text.toList = "5e-324".toList := by decide +kernel
  have noSign : minus 5e-324 = [] := by decide +kernel
  have plain : (⟨['5'], []⟩ : Numeral).Plain :=
    ⟨List.cons_ne_nil _ _, List.forall_mem_singleton.mpr (by decide), List.forall_mem_nil _⟩
  have digits : ∀ d ∈ ['3', '2', '4'], Digit d := by
    simp only [List.forall_mem_cons, List.not_mem_nil, false_implies, implies_true, and_true]
    decide
  have size : digitsValue ['3', '2', '4'] = 324 := by decide
  have power : DenotesPower ('-' :: ['3', '2', '4']) (-324) := by
    have denotes := DenotesPower.negative (List.cons_ne_nil _ _) digits
    rwa [size] at denotes
  have value : (⟨['5'], []⟩ : Numeral).value = 5 := by
    have numerator : (⟨['5'], []⟩ : Numeral).numerator = 5 := by decide
    have denominator : (⟨['5'], []⟩ : Numeral).denominator = 1 := by decide
    rw [Numeral.value, numerator, denominator]
    norm_num
  obtain ⟨body, v, faithful⟩ := number_text_faithful.1 _ finite
  have isBody : body = "5e-324".toList := by
    rw [← isText, faithful.isText, noSign, List.nil_append]
  have isValue : v = 5 * 10 ^ (-324 : Int) := by
    rw [← value]
    exact faithful.denotes.unique (.scientific plain power) isBody
  exact ⟨finite, isBody ▸ isValue ▸ faithful⟩

end LoxCalc
