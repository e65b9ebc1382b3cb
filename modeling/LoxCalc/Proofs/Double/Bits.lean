import LoxCalc.Double.Numeral
import Mathlib

/-!
Contract: the bit patterns of the doubles that numerals denote.

Owns:
- `isNaNBits_eq_false`, that no pattern up to that of infinity encodes a NaN;
- `Numeral.toBits_toFloat`, the bits of the double that a numeral denotes;
- `Numeral.toFloat_unsigned`, that this double is no NaN and has no sign.
-/

set_option autoImplicit false

namespace LoxCalc.Double

open Float.Model Float.Model.UnpackedFloat

/-- Infinity has all exponent bits set and none of the mantissa, and what is below it has
not all exponent bits set. -/
theorem isNaNBits_eq_false {b : BitVec 64} (atMost : b.toNat ≤ infinityBits) :
    @isNaNBits Format.binary64 b = false := by
  have exponentIs : (@unpackExponent Format.binary64 b).toNat = b.toNat / 2 ^ 52 % 2 ^ 11 := by
    simp [unpackExponent, BitVec.extractLsb, Nat.shiftRight_eq_div_pow]
  have mantissaIs : (@unpackMantissa Format.binary64 b).toNat = b.toNat % 2 ^ 52 := by
    simp [unpackMantissa, BitVec.extractLsb]
  have bound : b.toNat ≤ 2047 * 2 ^ 52 := atMost
  refine decide_eq_false ?_
  rintro ⟨isTop, notZero⟩
  have allSet : (@unpackExponent Format.binary64 b).toNat = 2047 := by
    rw [isTop]
    rfl
  apply notZero
  apply BitVec.eq_of_toNat_eq
  rw [mantissaIs]
  show b.toNat % 2 ^ 52 = 0
  omega

theorem toBits_ofBits {b : UInt64} (atMost : b.toNat ≤ infinityBits) :
    (Float.ofBits b).toBits = b := by
  have packed := @pack_unpack Format.binary64 b.toBitVec (by decide)
  rw [isNaNBits_eq_false atMost, if_neg Bool.false_ne_true] at packed
  exact UInt64.toBitVec_inj.mp packed

theorem Numeral.bits_le (n : Numeral) : n.bits ≤ infinityBits :=
  Nat.min_le_left _ _

/-- The double that a numeral denotes has the bits that rounding its value yields. -/
theorem Numeral.toBits_toFloat (n : Numeral) : n.toFloat.toBits.toNat = n.bits := by
  have infinityBound : infinityBits < 2 ^ 64 := by decide
  have isBits : (UInt64.ofNat n.bits).toNat = n.bits :=
    UInt64.toNat_ofNat_of_lt' (Nat.lt_of_le_of_lt n.bits_le infinityBound)
  have atMost : (UInt64.ofNat n.bits).toNat ≤ infinityBits := by
    rw [isBits]
    exact n.bits_le
  rw [Numeral.toFloat, toBits_ofBits atMost, isBits]

/-- A numeral denotes no NaN, and its double has no sign. -/
theorem Numeral.toFloat_unsigned (n : Numeral) :
    n.toFloat.isNaN = false ∧ n.toFloat.toBits.toNat < 2 ^ 63 := by
  have isBits := n.toBits_toFloat
  have atMost := n.bits_le
  constructor
  · rw [Float.isNaN_eq_decide_eq_nan]
    refine decide_eq_false ?_
    intro isNaN
    have beyond : infinityBits < Float.nan.toBits.toNat := by decide +kernel
    rw [isNaN] at isBits
    omega
  · have bound : infinityBits < 2 ^ 63 := by decide
    omega

end LoxCalc.Double
