import LoxCalc.Double.Shortest

/-!
Contract: how a double is written.

Owns:
- the two forms of a decimal, in full and with an exponent;
- `Layout`, the decisions of the written form, and `layout`, the one in use;
- `text`, the written form of every double.

Does **not** own: the choice of the digits, which is `shortest`.
-/

set_option autoImplicit false

namespace LoxCalc.Double

namespace Decimal

def digits (d : Decimal) : List Char := Nat.toDigits 10 d.coefficient

/-- The power of ten of the first digit. -/
def leadingExponent (d : Decimal) : Int := d.exponent + (d.digits.length : Int) - 1

/-- Digits with a point before the last `places` of them, and zeros in front as
far as the point needs them. -/
def pointed (digits : List Char) (places : Nat) : List Char :=
  let padded := List.replicate (places + 1 - digits.length) '0' ++ digits
  let whole := padded.length - places
  padded.take whole ++ '.' :: padded.drop whole

/-- The decimal in full: trailing zeros for a positive exponent, a point for a
negative one. -/
def plain (d : Decimal) : List Char :=
  if 0 ≤ d.exponent then d.digits ++ List.replicate d.exponent.toNat '0'
  else pointed d.digits (-d.exponent).toNat

/-- The digits with a point after the first; a lone digit has no point. -/
def mantissa : List Char → List Char
  | first :: second :: rest => first :: '.' :: second :: rest
  | digits => digits

/-- An integer in decimal, with a sign only if it is negative. -/
def signed (n : Int) : List Char :=
  if n < 0 then '-' :: Nat.toDigits 10 n.natAbs else Nat.toDigits 10 n.natAbs

/-- The decimal with one digit before the point and its power of ten behind
`mark`. -/
def scientific (mark : Char) (d : Decimal) : List Char :=
  mantissa d.digits ++ mark :: signed d.leadingExponent

end Decimal

/-- The decisions of a written form: which powers of ten of the first digit are
written in full, the exponent mark, and the words for what is not finite. -/
structure Layout where
  plainFrom : Int
  plainBelow : Int
  mark : Char
  infinity : List Char
  nan : List Char

/-- Numbers from `0.0001` up to, and without, `10 ^ 16` are written in full. No
number has a fraction of zeros, and an exponent has no plus sign and no padding. -/
def layout : Layout where
  plainFrom := -4
  plainBelow := 16
  mark := 'e'
  infinity := "inf".toList
  nan := "NaN".toList

def Layout.decimal (l : Layout) (d : Decimal) : List Char :=
  if l.plainFrom ≤ d.leadingExponent ∧ d.leadingExponent < l.plainBelow then d.plain
  else d.scientific l.mark

def Layout.magnitude (l : Layout) (b : Nat) : List Char :=
  if b = 0 then ['0']
  else if b < infinityBits then l.decimal (shortest b)
  else l.infinity

def signBit : Nat := Nat.pow 2 63

/-- The written form of a double: the shortest digits that read back, a minus
sign for every double with its sign bit set, negative zero included. A NaN has no
sign. -/
def chars (x : Float) : List Char :=
  let bits := x.toBits.toNat
  let b := bits % signBit
  if infinityBits < b then layout.nan
  else if bits < signBit then layout.magnitude b
  else '-' :: layout.magnitude b

def text (x : Float) : String := String.ofList (chars x)

end LoxCalc.Double
