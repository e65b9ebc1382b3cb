import LoxCalc.Double.Magnitude

/-!
Contract: the shortest decimal that reads back as a given magnitude.

Owns:
- `Decimal`, a coefficient times a power of ten;
- `Interval`, the reals that round to a magnitude, on one common integer scale;
- `shortest`, the decimal with the fewest digits inside that interval and, among
  those, the one nearest to the magnitude.

Does **not** own: how a decimal is written down.

All comparisons are exact. A double and the midpoints to its neighbours are
integer multiples of `2 ^ -1075 = 5 ^ 1075 * 10 ^ -1075`, so on the scale
`10 ^ -1075` they are integers and the decimals with fewer places are the
multiples of powers of ten.
-/

set_option autoImplicit false

namespace LoxCalc.Double

/-- The decimal `coefficient * 10 ^ exponent`. -/
structure Decimal where
  coefficient : Nat
  exponent : Int
deriving DecidableEq, Repr

/-- Half a unit is `2 ^ -1075`; exact sizes are integers on the scale
`10 ^ -1075`. -/
def decimalPlaces : Nat := unitExponent + 1

/-- The reals that round to one magnitude, with the magnitude itself, on the
scale `10 ^ -decimalPlaces`. The ends belong to the interval iff `closed`. -/
structure Interval where
  low : Nat
  value : Nat
  high : Nat
  closed : Bool
deriving DecidableEq, Repr

namespace Interval

/-- The interval of the magnitude with bit pattern `b`: from the midpoint to the
magnitude below to the midpoint to the magnitude above. A midpoint rounds to the
even pattern, so the ends belong to the interval iff `b` is even. -/
def ofBits (b : Nat) : Interval where
  low := (units (b - 1) + units b) * Nat.pow 5 decimalPlaces
  value := 2 * units b * Nat.pow 5 decimalPlaces
  high := (units b + units (b + 1)) * Nat.pow 5 decimalPlaces
  closed := b % 2 = 0

def contains (i : Interval) (n : Nat) : Bool :=
  if i.closed then i.low ≤ n && n ≤ i.high else i.low < n && n < i.high

/-- The coefficient of the multiple of `10 ^ place` that is nearest to the value
among the multiples inside the interval; of two equally near ones the larger. If
any multiple lies inside, so does one of the two neighbours of the value. -/
def multiple? (i : Interval) (place : Nat) : Option Nat :=
  let step := Nat.pow 10 place
  let below := i.value / step
  let above := below + 1
  match i.contains (below * step), i.contains (above * step) with
  | false, false => none
  | true, false => some below
  | false, true => some above
  | true, true =>
      if i.value - below * step < above * step - i.value then some below else some above

/-- The first multiple found from `place` downwards. At place zero the value
itself is an integer, so the search always ends with a decimal. -/
def search (i : Interval) : Nat → Decimal
  | 0 => ⟨i.value, -(decimalPlaces : Int)⟩
  | place + 1 =>
      match i.multiple? (place + 1) with
      | some coefficient => ⟨coefficient, (place + 1 : Nat) - (decimalPlaces : Int)⟩
      | none => i.search place

/-- A place whose power of ten exceeds the value. Since `2 ^ 33 ≤ 10 ^ 10`, a
number of `k` bits is below `10 ^ (10 * k / 33 + 1)`. -/
def topPlace (i : Interval) : Nat := 10 * (i.value.log2 + 1) / 33 + 1

def shortest (i : Interval) : Decimal := i.search i.topPlace

end Interval

/-- The shortest decimal that rounds to the magnitude with bit pattern `b`. -/
def shortest (b : Nat) : Decimal := (Interval.ofBits b).shortest

end LoxCalc.Double
