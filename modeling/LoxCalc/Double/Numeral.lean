import LoxCalc.Double.Magnitude

/-!
Contract: the double that a decimal numeral denotes.

Owns:
- `digitsValue`, the natural number written by a list of decimal digits;
- `Numeral`, whole and fraction digits of an unsigned numeral;
- `Numeral.toFloat`, the double nearest to the exact value.

Does **not** own: signs and exponents, which a numeral does not have.
-/

set_option autoImplicit false

namespace LoxCalc.Double

def digitValue (c : Char) : Nat := c.toNat - '0'.toNat

/-- The natural number that a list of decimal digits writes, most significant
digit first. -/
def digitsValue (digits : List Char) : Nat :=
  digits.foldl (fun value c => 10 * value + digitValue c) 0

/-- An unsigned numeral: the digits before the point and those after it, the
latter empty when there is no point. -/
structure Numeral where
  whole : List Char
  fraction : List Char
deriving DecidableEq, Repr

namespace Numeral

def ofChars (text : List Char) : Numeral where
  whole := text.takeWhile (· ≠ '.')
  fraction := (text.dropWhile (· ≠ '.')).drop 1

/-- The numerator of the exact value: all digits read as one number. -/
def numerator (n : Numeral) : Nat := digitsValue (n.whole ++ n.fraction)

/-- The denominator of the exact value: one place for each fraction digit. -/
def denominator (n : Numeral) : Nat := Nat.pow 10 n.fraction.length

def bits (n : Numeral) : Nat := nearest n.numerator n.denominator

/-- The double nearest to the exact value, ties to even; a value out of range is
infinite. -/
def toFloat (n : Numeral) : Float := Float.ofBits (UInt64.ofNat n.bits)

end Numeral

end LoxCalc.Double
