import LoxCalc.Double.Text
import LoxCalc.Proofs.Double.Bits

/-!
Contract: the bit patterns that encode a NaN, and how doubles hide their payloads.

Owns:
- `encodesNaN`, the patterns of NaN with any sign and payload;
- `ofBits_eq_iff`, which patterns are the same double;
- `patternChars`, the written form by the pattern;
- `Strict` and `Unordered`, the operations and comparisons to which one NaN operand is enough,
  with the laws of the arithmetic of doubles.

A double has one NaN, so its bits are one of the patterns that encode it.
-/

set_option autoImplicit false

namespace LoxCalc.Double

open Float.Model (UnpackedFloat)
open Float.Model.UnpackedFloat

/-! ## Patterns -/

/-- Whether 64 bits encode a NaN. Its sign and its payload may be any. -/
def encodesNaN (bits : UInt64) : Bool := decide (infinityBits < bits.toNat % signBit)

/-- The bits of the one NaN of doubles. -/
def nanPattern : UInt64 := 0x7FF8000000000000

theorem encodesNaN_nanPattern : encodesNaN nanPattern = true := by decide

/-- All exponent bits are set and some of the mantissa are. -/
theorem isNaNBits_eq_encodesNaN (bits : UInt64) :
    @isNaNBits .binary64 bits.toBitVec = encodesNaN bits := by
  have exponentIs : (@unpackExponent .binary64 bits.toBitVec).toNat =
      bits.toNat / 2 ^ 52 % 2 ^ 11 := by
    simp [unpackExponent, BitVec.extractLsb, Nat.shiftRight_eq_div_pow]
  have mantissaIs : (@unpackMantissa .binary64 bits.toBitVec).toNat = bits.toNat % 2 ^ 52 := by
    simp [unpackMantissa, BitVec.extractLsb]
  have allSet : (@unpackExponent .binary64 bits.toBitVec) = -1#_ ↔
      bits.toNat / 2 ^ 52 % 2 ^ 11 = 2047 := by
    rw [← exponentIs, ← BitVec.toNat_inj]
    exact Iff.rfl
  have noneSet : (@unpackMantissa .binary64 bits.toBitVec) = 0#_ ↔ bits.toNat % 2 ^ 52 = 0 := by
    rw [← mantissaIs, ← BitVec.toNat_inj]
    exact Iff.rfl
  have top : infinityBits = 2047 * 2 ^ 52 := rfl
  have sign : signBit = 2 ^ 63 := rfl
  rw [isNaNBits, encodesNaN, decide_eq_decide, ne_eq, allSet, noneSet, top, sign]
  omega

theorem toBits_ofBits_eq (bits : UInt64) :
    (Float.ofBits bits).toBits = if encodesNaN bits = true then nanPattern else bits := by
  have packed := @pack_unpack .binary64 bits.toBitVec (by decide)
  rw [isNaNBits_eq_encodesNaN] at packed
  apply UInt64.toBitVec_inj.mp
  refine Eq.trans packed ?_
  split
  · rfl
  · rfl

/-- Two patterns are one double exactly if they are equal or both encode a NaN. -/
theorem ofBits_eq_iff (x y : UInt64) :
    Float.ofBits x = Float.ofBits y ↔ x = y ∨ (encodesNaN x = true ∧ encodesNaN y = true) := by
  rw [← Float.toBits_inj, toBits_ofBits_eq, toBits_ofBits_eq]
  have isNaN := encodesNaN_nanPattern
  split <;> split <;> grind

/-! ## Written forms -/

/-- The written form of the double that a pattern encodes. -/
def patternChars (bits : UInt64) : List Char :=
  let b := bits.toNat % signBit
  if encodesNaN bits then layout.nan
  else if bits.toNat < signBit then layout.magnitude b
  else '-' :: layout.magnitude b

theorem chars_ofBits (bits : UInt64) : chars (Float.ofBits bits) = patternChars bits := by
  have byPattern : ∀ x : Float, chars x = patternChars x.toBits := by
    intro x
    simp only [chars, patternChars, encodesNaN, decide_eq_true_eq]
  rw [byPattern, toBits_ofBits_eq]
  split
  · rename_i isNaN
    simp only [patternChars, isNaN, encodesNaN_nanPattern, ↓reduceIte]
  · rfl

/-! ## Arithmetic -/

/-- The result encodes a NaN whenever one of the operands does. -/
def Strict (op : UInt64 → UInt64 → UInt64) : Prop :=
  ∀ x y, encodesNaN x = true ∨ encodesNaN y = true → encodesNaN (op x y) = true

/-- Nothing compares with a NaN. -/
def Unordered (compares : UInt64 → UInt64 → Bool) : Prop :=
  ∀ x y, encodesNaN x = true ∨ encodesNaN y = true → compares x y = false

theorem unpack_of_encodesNaN {bits : UInt64} (isNaN : encodesNaN bits = true) :
    unpack .binary64 (Float.ofBits bits).toBits.toBitVec = .notANumber := by
  rw [toBits_ofBits_eq, if_pos isNaN]
  exact unpack_packedNaN

theorem encodesNaN_of_notANumber {x : Float}
    (isNaN : x.toBits.toBitVec = pack .binary64 .notANumber) : encodesNaN x.toBits = true := by
  have isPattern : x.toBits = nanPattern := UInt64.toBitVec_inj.mp isNaN
  rw [isPattern]
  exact encodesNaN_nanPattern

/-- An operation on doubles that passes NaN on does so on patterns. -/
theorem strict_of_unpacked {op : Float → Float → Float}
    {unpacked : UnpackedFloat → UnpackedFloat → UnpackedFloat}
    (isOp : ∀ x y, (op x y).toBits.toBitVec = pack .binary64
      (unpacked (unpack .binary64 x.toBits.toBitVec) (unpack .binary64 y.toBits.toBitVec)))
    (left : ∀ u, unpacked .notANumber u = .notANumber)
    (right : ∀ u, unpacked u .notANumber = .notANumber) :
    Strict fun x y => (op (Float.ofBits x) (Float.ofBits y)).toBits := by
  intro x y isNaN
  apply encodesNaN_of_notANumber
  rw [isOp]
  rcases isNaN with inLeft | inRight
  · rw [unpack_of_encodesNaN inLeft, left]
  · rw [unpack_of_encodesNaN inRight, right]

theorem strict_add : Strict fun x y => (Float.ofBits x + Float.ofBits y).toBits :=
  strict_of_unpacked (fun _ _ => rfl) (fun u => by cases u <;> rfl) fun u => by cases u <;> rfl

theorem strict_sub : Strict fun x y => (Float.ofBits x - Float.ofBits y).toBits :=
  strict_of_unpacked (fun _ _ => rfl) (fun u => by cases u <;> rfl) fun u => by cases u <;> rfl

theorem strict_mul : Strict fun x y => (Float.ofBits x * Float.ofBits y).toBits :=
  strict_of_unpacked (fun _ _ => rfl) (fun u => by cases u <;> rfl) fun u => by cases u <;> rfl

theorem strict_div : Strict fun x y => (Float.ofBits x / Float.ofBits y).toBits :=
  strict_of_unpacked (fun _ _ => rfl) (fun u => by cases u <;> rfl) fun u => by cases u <;> rfl

theorem encodesNaN_neg {bits : UInt64} (isNaN : encodesNaN bits = true) :
    encodesNaN (-Float.ofBits bits).toBits = true := by
  have isNeg : (-Float.ofBits bits).toBits.toBitVec =
      pack .binary64 (unpack .binary64 (Float.ofBits bits).toBits.toBitVec).neg := rfl
  apply encodesNaN_of_notANumber
  rw [isNeg, unpack_of_encodesNaN isNaN]
  rfl

theorem compare_of_encodesNaN {x y : UInt64}
    (isNaN : encodesNaN x = true ∨ encodesNaN y = true) :
    (unpack .binary64 (Float.ofBits x).toBits.toBitVec).compare
      (unpack .binary64 (Float.ofBits y).toBits.toBitVec) = none := by
  rcases isNaN with inLeft | inRight
  · rw [unpack_of_encodesNaN inLeft]
    rfl
  · rw [unpack_of_encodesNaN inRight]
    cases unpack .binary64 (Float.ofBits x).toBits.toBitVec <;> rfl

theorem unordered_lt : Unordered fun x y => decide (Float.ofBits x < Float.ofBits y) := by
  intro x y isNaN
  apply decide_eq_false
  intro less
  have isLt : (unpack .binary64 (Float.ofBits x).toBits.toBitVec).lt
      (unpack .binary64 (Float.ofBits y).toBits.toBitVec) = true := decide_eq_true_iff.mp less
  rw [UnpackedFloat.lt, compare_of_encodesNaN isNaN] at isLt
  contradiction

theorem unordered_le : Unordered fun x y => decide (Float.ofBits x ≤ Float.ofBits y) := by
  intro x y isNaN
  apply decide_eq_false
  intro atMost
  have isLe : (unpack .binary64 (Float.ofBits x).toBits.toBitVec).le
      (unpack .binary64 (Float.ofBits y).toBits.toBitVec) = true := decide_eq_true_iff.mp atMost
  rw [UnpackedFloat.le, compare_of_encodesNaN isNaN] at isLe
  contradiction

end LoxCalc.Double
