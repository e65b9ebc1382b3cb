import LoxCalc.Double.Text
import LoxCalc.Proofs.Double.Bits
import LoxCalc.Proofs.Double.Units

/-!
Contract: the sign and the order of doubles by their bit patterns.

Owns:
- `magnitude`, the pattern of a double without its sign, and `Unsigned`, the doubles that
  have none;
- `toNat_toBits_abs` and `Unsigned.toNat_toBits_neg`, the patterns of absolute values and
  negations;
- `Unpacked`, what an unsigned pattern stands for, with `Unpacked.compare_eq`;
- `Unsigned.le_iff` and `Unsigned.lt_iff`, that doubles are ordered as their patterns are;
- `isInf_iff_and_isNaN_iff`, the patterns of what is not finite.

NaN has one pattern, so a double that is no NaN is packed again as it was unpacked.
-/

set_option autoImplicit false

namespace LoxCalc.Double

open Float.Model (Format UnpackedFloat)
open Float.Model.UnpackedFloat

/-! ## Signs -/

theorem neg_unpack {spec : Format} (s : Sign) (e : BitVec spec.exponentBits)
    (m : BitVec spec.mantissaBitsWithoutImplicit) :
    (unpack spec (packComponents spec s e m)).neg = unpack spec (packComponents spec (-s) e m) := by
  simp only [unpack, unpackMantissa_packComponents, unpackExponent_packComponents,
    unpackSign_packComponents, Sign.ofBitVec_toBitVec]
  split_ifs <;> rfl

theorem abs_unpack {spec : Format} (s : Sign) (e : BitVec spec.exponentBits)
    (m : BitVec spec.mantissaBitsWithoutImplicit) :
    (unpack spec (packComponents spec s e m)).abs =
      unpack spec (packComponents spec .positive e m) := by
  simp only [unpack, unpackMantissa_packComponents, unpackExponent_packComponents,
    unpackSign_packComponents, Sign.ofBitVec_toBitVec]
  split_ifs <;> rfl

theorem toNat_packComponents (s : Sign) (e : BitVec 11) (m : BitVec 52) :
    (packComponents .binary64 s e m).toNat =
      s.toBitVec.toNat * 2 ^ 63 + (e.toNat * 2 ^ 52 + m.toNat) := by
  have parts : (packComponents .binary64 s e m).toNat =
      (s.toBitVec.toNat <<< 11 ||| e.toNat) <<< 52 ||| m.toNat := by
    rw [packComponents, BitVec.toNat_append, BitVec.toNat_append]
  rw [parts, ← Nat.shiftLeft_add_eq_or_of_lt e.isLt, ← Nat.shiftLeft_add_eq_or_of_lt m.isLt,
    Nat.shiftLeft_eq, Nat.shiftLeft_eq]
  omega

/-- The pattern of a double without its sign. -/
def magnitude (x : Float) : Nat := x.toBits.toNat % signBit

theorem eq_iff_toNat_toBits (x y : Float) : x = y ↔ x.toBits.toNat = y.toBits.toNat := by
  rw [UInt64.toNat_inj, Float.toBits_inj]

/-- A double has its magnitude and perhaps the sign bit. -/
theorem toNat_toBits_eq (x : Float) :
    x.toBits.toNat = if x.toBits.toNat < signBit then magnitude x else signBit + magnitude x := by
  have bound := x.toBits.toNat_lt
  have isSign : signBit = 2 ^ 63 := rfl
  rw [magnitude, isSign]
  split <;> omega

/-- How a number is written, by its magnitude and its sign. -/
theorem chars_eq (x : Float) :
    chars x =
      if infinityBits < magnitude x then layout.nan
      else if x.toBits.toNat < signBit then layout.magnitude (magnitude x)
      else '-' :: layout.magnitude (magnitude x) :=
  rfl

/-- Every double is packed from a sign, an exponent and a mantissa. -/
theorem exists_components (x : Float) :
    ∃ (s : Sign) (e : BitVec 11) (m : BitVec 52),
      x.toBits.toBitVec = packComponents .binary64 s e m ∧
        x.toBits.toNat = s.toBitVec.toNat * 2 ^ 63 + magnitude x ∧
        magnitude x = e.toNat * 2 ^ 52 + m.toNat := by
  have packed :=
    @packComponents_unpackSign_unpackExponent_unpackMantissa .binary64 x.toBits.toBitVec
  generalize Sign.ofBitVec (@unpackSign .binary64 x.toBits.toBitVec) = s at packed
  generalize @unpackExponent .binary64 x.toBits.toBitVec = e at packed
  generalize @unpackMantissa .binary64 x.toBits.toBitVec = m at packed
  have whole : x.toBits.toNat = s.toBitVec.toNat * 2 ^ 63 + (e.toNat * 2 ^ 52 + m.toNat) := by
    rw [← toNat_packComponents, packed]
    rfl
  have small : e.toNat * 2 ^ 52 + m.toNat < 2 ^ 63 := by
    have exponentBound : e.toNat < 2 ^ 11 := e.isLt
    have mantissaBound : m.toNat < 2 ^ 52 := m.isLt
    omega
  have isMagnitude : magnitude x = e.toNat * 2 ^ 52 + m.toNat := by
    rw [magnitude, signBit, Nat.pow_eq, whole, Nat.add_comm, Nat.add_mul_mod_self_right,
      Nat.mod_eq_of_lt small]
  exact ⟨s, e, m, packed.symm, by rw [whole, isMagnitude], isMagnitude⟩

/-- What is no NaN is packed again as it was. -/
theorem pack_unpack_components (s : Sign) {e : BitVec 11} {m : BitVec 52}
    (atMost : e.toNat * 2 ^ 52 + m.toNat ≤ infinityBits) :
    pack .binary64 (unpack .binary64 (packComponents .binary64 s e m)) =
      packComponents .binary64 s e m := by
  have unsigned : (packComponents .binary64 .positive e m).toNat ≤ infinityBits := by
    rw [toNat_packComponents]
    simpa [Sign.toBitVec] using atMost
  have noNaN := isNaNBits_eq_false unsigned
  simp only [isNaNBits, unpackExponent_packComponents, unpackMantissa_packComponents] at noNaN
  rw [pack_unpack _ (by decide), isNaNBits, unpackExponent_packComponents,
    unpackMantissa_packComponents, noNaN, if_neg Bool.false_ne_true]

/-- The absolute value drops the sign. -/
theorem toNat_toBits_abs {x : Float} (atMost : magnitude x ≤ infinityBits) :
    x.abs.toBits.toNat = magnitude x := by
  obtain ⟨s, e, m, packed, _, isMagnitude⟩ := exists_components x
  have isAbs : x.abs.toBits.toBitVec = pack .binary64 (unpack .binary64 x.toBits.toBitVec).abs :=
    rfl
  rw [packed, abs_unpack, pack_unpack_components .positive (isMagnitude ▸ atMost)] at isAbs
  show x.abs.toBits.toBitVec.toNat = _
  rw [isAbs, toNat_packComponents, isMagnitude]
  simp [Sign.toBitVec]

/-- A double without a sign that is no NaN. -/
def Unsigned (x : Float) : Prop := x.toBits.toNat ≤ infinityBits

theorem Numeral.unsigned_toFloat (n : Numeral) : Unsigned n.toFloat := by
  rw [Unsigned, n.toBits_toFloat]
  exact n.bits_le

theorem Unsigned.exists_components {x : Float} (unsigned : Unsigned x) :
    ∃ (e : BitVec 11) (m : BitVec 52),
      x.toBits.toBitVec = packComponents .binary64 .positive e m ∧
        x.toBits.toNat = e.toNat * 2 ^ 52 + m.toNat := by
  obtain ⟨s, e, m, packed, whole, isMagnitude⟩ := Double.exists_components x
  have top : infinityBits < 2 ^ 63 := by decide
  have atMost : x.toBits.toNat ≤ infinityBits := unsigned
  cases s with
  | positive =>
      have isZero : Sign.positive.toBitVec.toNat = 0 := rfl
      rw [isZero, Nat.zero_mul, Nat.zero_add, isMagnitude] at whole
      exact ⟨e, m, packed, whole⟩
  | negative =>
      have isOne : Sign.negative.toBitVec.toNat = 1 := rfl
      omega

/-- Negation sets the sign of a double without one. -/
theorem Unsigned.toNat_toBits_neg {x : Float} (unsigned : Unsigned x) :
    (-x).toBits.toNat = signBit + x.toBits.toNat := by
  obtain ⟨e, m, packed, whole⟩ := unsigned.exists_components
  have isNeg : (-x).toBits.toBitVec = pack .binary64 (unpack .binary64 x.toBits.toBitVec).neg :=
    rfl
  rw [packed, neg_unpack, pack_unpack_components _ (whole ▸ unsigned)] at isNeg
  show (-x).toBits.toBitVec.toNat = _
  rw [isNeg, toNat_packComponents, whole]
  rfl

/-! ## Magnitudes -/

/-- What an unsigned pattern up to that of infinity stands for: zero, a number of steps in a
binade, or infinity. -/
inductive Unpacked (b : Nat) : UnpackedFloat → Prop where
  | zero (isZero : b = 0) : Unpacked b (.zero .positive)
  | finite (binade : Nat) {steps : Nat} {exponent : Int} (positive : 0 < steps)
      (isPattern : b = binade * implicitBit + steps) (inside : steps < 2 * implicitBit)
      (normal : binade = 0 ∨ implicitBit ≤ steps) (isExponent : exponent = binade - unitExponent)
      (belowTop : b < infinityBits) : Unpacked b (.finite .positive steps exponent positive)
  | infinity (isInfinity : b = infinityBits) : Unpacked b (.infinity .positive)

theorem unpacked_components {e : BitVec 11} {m : BitVec 52}
    (atMost : e.toNat * 2 ^ 52 + m.toNat ≤ infinityBits) :
    Unpacked (e.toNat * 2 ^ 52 + m.toNat)
      (unpack .binary64 (packComponents .binary64 .positive e m)) := by
  have exponentBound : e.toNat < 2 ^ 11 := e.isLt
  have mantissaBound : m.toNat < 2 ^ 52 := m.isLt
  have top : infinityBits = 2047 * 2 ^ 52 := rfl
  have hidden : implicitBit = 2 ^ 52 := rfl
  simp only [unpack, unpackMantissa_packComponents, unpackExponent_packComponents,
    unpackSign_packComponents, Sign.ofBitVec_toBitVec]
  split_ifs with isTop noMantissa isBottom noMantissa
  · apply Unpacked.infinity
    rw [isTop, noMantissa]
    rfl
  · -- With all exponent bits set, a mantissa would make the pattern larger than that of infinity.
    have isFull : e.toNat = 2047 := by rw [isTop]; rfl
    have isEmpty : m.toNat = 0 := by omega
    exact absurd (BitVec.eq_of_toNat_eq isEmpty) noMantissa
  · apply Unpacked.zero
    rw [isBottom, noMantissa]
    rfl
  · have isZero : e.toNat = 0 := by rw [isBottom]; rfl
    refine .finite 0 _ ?_ ?_ (.inl rfl) ?_ ?_
    · rw [isZero, Nat.zero_mul, Nat.zero_mul]
    · omega
    · rw [isZero]
      rfl
    · omega
  · have steps : (1#1 ++ m).toNat = implicitBit + m.toNat := by
      rw [BitVec.toNat_append, ← Nat.shiftLeft_add_eq_or_of_lt m.isLt]
      rfl
    have notTop : e.toNat ≠ 2047 := fun isFull => isTop (BitVec.eq_of_toNat_eq isFull)
    have notZero : e.toNat ≠ 0 := fun isZero => isBottom (BitVec.eq_of_toNat_eq isZero)
    obtain ⟨binade, isBinade⟩ := Nat.exists_eq_add_one_of_ne_zero notZero
    have bias : (Format.binary64.exponentBias : Int) +
        Format.binary64.mantissaBitsWithoutImplicit = unitExponent + 1 := rfl
    refine .finite binade _ ?_ ?_ (.inr ?_) ?_ ?_
    · rw [steps, isBinade, hidden]
      omega
    · omega
    · omega
    · rw [bias, isBinade]
      omega
    · omega

/-! ## Order -/

theorem pattern_lt {binade steps otherBinade otherSteps : Nat} (inside : steps < 2 * implicitBit)
    (normal : otherBinade = 0 ∨ implicitBit ≤ otherSteps) (below : binade < otherBinade) :
    binade * implicitBit + steps < otherBinade * implicitBit + otherSteps := by
  have large : implicitBit ≤ otherSteps := normal.resolve_left (by omega)
  calc
    binade * implicitBit + steps < binade * implicitBit + 2 * implicitBit :=
      Nat.add_lt_add_left inside _
    _ = (binade + 1) * implicitBit + implicitBit := by ring
    _ ≤ otherBinade * implicitBit + otherSteps :=
      Nat.add_le_add (Nat.mul_le_mul_right _ below) large

/-- Magnitudes are compared as their patterns are. -/
theorem Unpacked.compare_eq {a b : Nat} {x y : UnpackedFloat} (left : Unpacked a x)
    (right : Unpacked b y) : x.compare y = some (compare a b) := by
  have less : ∀ {m n : Nat}, m < n → some Ordering.lt = some (compare m n) := by
    intro m n below
    rw [Nat.compare_eq_lt.mpr below]
  have greater : ∀ {m n : Nat}, n < m → some Ordering.gt = some (compare m n) := by
    intro m n above
    rw [Nat.compare_eq_gt.mpr above]
  have top : 0 < infinityBits := by decide
  cases left with
  | zero isZero =>
      cases right with
      | zero alsoZero => rw [isZero, alsoZero]; rfl
      | finite _ positive isPattern => exact less (by omega)
      | infinity isInfinity => exact less (by omega)
  | infinity isInfinity =>
      cases right with
      | zero alsoZero => exact greater (by omega)
      | finite _ _ _ _ _ _ belowTop => exact greater (by omega)
      | infinity alsoInfinity => rw [isInfinity, alsoInfinity, Nat.compare_eq_eq.mpr rfl]; rfl
  | @finite binade steps _ positive isPattern inside normal isExponent belowTop =>
      cases right with
      | zero alsoZero => exact greater (by omega)
      | infinity alsoInfinity => exact less (by omega)
      | @finite otherBinade others _ _ isOther otherInside otherNormal isOtherExponent _ =>
          show some ((compare _ _).then (compare _ _)) = _
          rw [isExponent, isOtherExponent, isPattern, isOther]
          -- The binade decides, and within a binade the number of steps.
          rcases Nat.lt_trichotomy binade otherBinade with below | rfl | above
          · rw [Int.compare_eq_lt.mpr (by omega)]
            exact less (pattern_lt inside otherNormal below)
          · rw [Int.compare_eq_eq.mpr rfl, Ordering.eq_then]
            rcases Nat.lt_trichotomy steps others with fewer | rfl | more
            · rw [Nat.compare_eq_lt.mpr fewer]
              exact less (Nat.add_lt_add_left fewer _)
            · rw [Nat.compare_eq_eq.mpr rfl, Nat.compare_eq_eq.mpr rfl]
            · rw [Nat.compare_eq_gt.mpr more]
              exact greater (Nat.add_lt_add_left more _)
          · rw [Int.compare_eq_gt.mpr (by omega)]
            exact greater (pattern_lt otherInside normal above)

theorem Unsigned.unpacked {x : Float} (unsigned : Unsigned x) :
    Unpacked x.toBits.toNat (unpack .binary64 x.toBits.toBitVec) := by
  obtain ⟨e, m, packed, whole⟩ := unsigned.exists_components
  rw [packed, whole]
  exact unpacked_components (whole ▸ unsigned)

/-- Doubles without a sign are ordered as their patterns are. -/
theorem Unsigned.le_iff {x y : Float} (left : Unsigned x) (right : Unsigned y) :
    x ≤ y ↔ x.toBits.toNat ≤ y.toBits.toNat := by
  have compared := left.unpacked.compare_eq right.unpacked
  have isLe : x ≤ y ↔ (unpack .binary64 x.toBits.toBitVec).le
      (unpack .binary64 y.toBits.toBitVec) = true := decide_eq_true_iff
  rw [isLe, UnpackedFloat.le, compared, Option.any_some, Nat.isLE_compare]

theorem Unsigned.lt_iff {x y : Float} (left : Unsigned x) (right : Unsigned y) :
    x < y ↔ x.toBits.toNat < y.toBits.toNat := by
  have compared := left.unpacked.compare_eq right.unpacked
  have isLt : x < y ↔ (unpack .binary64 x.toBits.toBitVec).lt
      (unpack .binary64 y.toBits.toBitVec) = true := decide_eq_true_iff
  rw [isLt, UnpackedFloat.lt, compared, ← Nat.compare_eq_lt]
  simp

/-! ## What is not finite -/

/-- Infinities and NaN are the magnitudes from the pattern of infinity on. -/
theorem isInf_iff_and_isNaN_iff (x : Float) :
    (x.isInf = true ↔ magnitude x = infinityBits) ∧
      (x.isNaN = true ↔ infinityBits < magnitude x) := by
  obtain ⟨s, e, m, packed, _, isMagnitude⟩ := exists_components x
  have exponentBound : e.toNat < 2 ^ 11 := e.isLt
  have mantissaBound : m.toNat < 2 ^ 52 := m.isLt
  have top : infinityBits = 2047 * 2 ^ 52 := rfl
  have isInf : x.isInf = (unpack .binary64 x.toBits.toBitVec).isInf := rfl
  have isNaN : x.isNaN = (unpack .binary64 x.toBits.toBitVec).isNaN := rfl
  have notTop : e ≠ -1#_ → e.toNat ≠ 2047 := fun other isFull =>
    other (BitVec.eq_of_toNat_eq isFull)
  have notEmpty : m ≠ 0#_ → m.toNat ≠ 0 := fun other isEmpty =>
    other (BitVec.eq_of_toNat_eq isEmpty)
  rw [isInf, isNaN, packed, isMagnitude]
  simp only [unpack, unpackMantissa_packComponents, unpackExponent_packComponents]
  split_ifs with isTop noMantissa isBottom noMantissa
  · rw [isTop, noMantissa]
    exact ⟨iff_of_true rfl rfl, iff_of_false Bool.false_ne_true (by decide)⟩
  · have isFull : e.toNat = 2047 := by rw [isTop]; rfl
    have := notEmpty noMantissa
    exact ⟨iff_of_false Bool.false_ne_true (by omega), iff_of_true rfl (by omega)⟩
  all_goals
    have := notTop isTop
    exact ⟨iff_of_false Bool.false_ne_true (by omega),
      iff_of_false Bool.false_ne_true (by omega)⟩

end LoxCalc.Double
