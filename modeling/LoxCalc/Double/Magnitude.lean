/-!
Contract: the non-negative double-precision magnitudes as exact integers, and
correct rounding of an exact quotient onto them.

Owns:
- `units`, the exact size of a magnitude given by its bit pattern;
- `roundQuotient`, rounding of a quotient to the nearest integer, ties to even;
- `nearest`, the magnitude nearest to an exact quotient.

Does **not** own: signs, NaN, or any decimal notation.

A magnitude is named by its bit pattern `b`, a natural number: the eleven
exponent bits and the 52 fraction bits of a double, without the sign bit.
Patterns below `infinityBits` are the finite magnitudes, and `infinityBits`
itself is infinity. The order of patterns is the order of magnitudes, so the
neighbours of `b` are `b - 1` and `b + 1`.
-/

set_option autoImplicit false

namespace LoxCalc.Double

def fractionBits : Nat := 52

/-- The place above the fraction bits: the step of the exponent field in a bit
pattern, and the leading one that a normal fraction leaves out. -/
def implicitBit : Nat := Nat.pow 2 fractionBits

/-- The smallest positive magnitude is `2 ^ -1074`; sizes are counted in it. -/
def unitExponent : Nat := 1074

/-- The bit pattern of infinity. Read by `units` it stands for `2 ^ 1024`, the
first magnitude that is out of range. -/
def infinityBits : Nat := 2047 * implicitBit

/-- The size of the magnitude with bit pattern `b`, in units of `2 ^ -1074`. With
exponent field zero the fraction counts units directly; otherwise the fraction
has an implicit leading one and each further exponent step doubles the unit. -/
def units (b : Nat) : Nat :=
  let field := b / implicitBit
  let fraction := b % implicitBit
  if field = 0 then fraction
  else (implicitBit + fraction) * Nat.pow 2 (field - 1)

/-- The integer nearest to `num / den`; a tie goes to the even neighbour. -/
def roundQuotient (num den : Nat) : Nat :=
  let floor := num / den
  let twice := 2 * (num % den)
  if twice < den then floor
  else if den < twice then floor + 1
  else if floor % 2 = 0 then floor
  else floor + 1

/-- The bit pattern of the magnitude nearest to the exact quotient `num / den`,
ties to the even pattern. The quotient is measured in units; `drop` low bits do
not fit beside the leading 53 and are rounded away. Since a rounded-up block of
53 ones carries into the exponent field, the pattern is one sum in every case,
and a quotient at or above the rounding threshold of infinity becomes infinity. -/
def nearest (num den : Nat) : Nat :=
  let scaled := num * Nat.pow 2 unitExponent
  let drop := (scaled / den).log2 - fractionBits
  min infinityBits (drop * implicitBit + roundQuotient scaled (den * Nat.pow 2 drop))

end LoxCalc.Double
