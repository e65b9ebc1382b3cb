import LoxCalc.Double.Shortest
import LoxCalc.Proofs.Double.Rounding
import Mathlib.Algebra.Order.Field.Power

/-!
Contract: the shortest decimal of a magnitude reads back as that magnitude.

Owns:
- `Decimal.value`, the exact value of a decimal;
- `contains_iff`, that an `Interval` holds what rounds to its magnitude;
- `shortest_roundsTo`, that the decimal that is found is not zero and rounds to the magnitude.

Does **not** own: that no shorter decimal does.
-/

set_option autoImplicit false

namespace LoxCalc.Double

/-- The exact value of a decimal. -/
def Decimal.value (d : Decimal) : ℚ := d.coefficient * 10 ^ d.exponent

/-! ## The interval of a magnitude -/

section

variable (b : Nat)

theorem ofBits_low : (Interval.ofBits b).low = ends b * 5 ^ decimalPlaces := by
  rw [Interval.ofBits, ends, Nat.pow_eq]

theorem ofBits_value : (Interval.ofBits b).value = 2 * units b * 5 ^ decimalPlaces := by
  rw [Interval.ofBits, Nat.pow_eq]

theorem ofBits_high : (Interval.ofBits b).high = ends (b + 1) * 5 ^ decimalPlaces := by
  rw [Interval.ofBits, ends, Nat.add_sub_cancel, Nat.pow_eq]

theorem ofBits_closed : (Interval.ofBits b).closed = decide (b % 2 = 0) := rfl

/-- An interval holds exactly what rounds to its magnitude. -/
theorem contains_iff (n : Nat) :
    (Interval.ofBits b).contains n = true ↔ RoundsTo (n / (10 ^ decimalPlaces : Nat)) b := by
  have positive : 0 < 10 ^ decimalPlaces := Nat.pow_pos (by decide)
  have power : 0 < 2 ^ decimalPlaces := Nat.two_pow_pos _
  have scale : ∀ size : Nat, size * 10 ^ decimalPlaces =
      size * 5 ^ decimalPlaces * 2 ^ decimalPlaces := by
    intro size
    rw [Nat.mul_assoc, ← Nat.mul_pow]
  rw [roundsTo_iff positive, ← decimalPlaces, scale, scale, Nat.mul_le_mul_right_iff power,
    Nat.mul_le_mul_right_iff power, Nat.mul_left_inj power.ne', Nat.mul_left_inj power.ne',
    Interval.contains, ofBits_low, ofBits_high, ofBits_closed]
  generalize ends b * 5 ^ decimalPlaces = lower
  generalize ends (b + 1) * 5 ^ decimalPlaces = upper
  by_cases even : b % 2 = 0
  · simp [even]
  · simp [even]
    omega

variable {b} (positive : 0 < b)

include positive

theorem zero_not_contained : (Interval.ofBits b).contains 0 = false := by
  have low : 0 < (Interval.ofBits b).low := by
    have some : units 0 < units b := units_strictMono positive
    rw [ofBits_low, ends]
    have five : 0 < 5 ^ decimalPlaces := Nat.pow_pos (by decide)
    exact Nat.mul_pos (by omega) five
  unfold Interval.contains
  split
  · simp [low.ne']
  · simp

theorem value_contained : (Interval.ofBits b).contains (Interval.ofBits b).value = true := by
  have five : 0 < 5 ^ decimalPlaces := Nat.pow_pos (by decide)
  have low : (Interval.ofBits b).low < (Interval.ofBits b).value := by
    rw [ofBits_low, ofBits_value]
    exact Nat.mul_lt_mul_of_pos_right (ends_lt positive) five
  have high : (Interval.ofBits b).value < (Interval.ofBits b).high := by
    have above := units_lt_succ b
    rw [ofBits_value, ofBits_high]
    apply Nat.mul_lt_mul_of_pos_right _ five
    rw [ends, Nat.add_sub_cancel]
    omega
  unfold Interval.contains
  split <;> simp <;> omega

end

/-! ## The search -/

theorem multiple?_contained {i : Interval} {place coefficient : Nat}
    (found : i.multiple? place = some coefficient) :
    i.contains (coefficient * 10 ^ place) = true := by
  simp only [Interval.multiple?, Nat.pow_eq] at found
  split at found
  · contradiction
  · rename_i below _
    rw [← Option.some.inj found]
    exact below
  · rename_i _ above
    rw [← Option.some.inj found]
    exact above
  · rename_i below above
    split at found
    · rw [← Option.some.inj found]
      exact below
    · rw [← Option.some.inj found]
      exact above

/-- Whatever the search ends with lies inside, if the value does. -/
theorem search_contained {i : Interval} (inside : i.contains i.value = true) (top : Nat) :
    ∃ place coefficient : Nat, i.search top = ⟨coefficient, (place : Int) - decimalPlaces⟩ ∧
      i.contains (coefficient * 10 ^ place) = true := by
  induction top with
  | zero =>
      refine ⟨0, i.value, ?_, by rwa [Nat.pow_zero, Nat.mul_one]⟩
      rw [Interval.search, Int.natCast_zero, zero_sub]
  | succ place inductionHypothesis =>
      rw [Interval.search]
      split
      · rename_i coefficient found
        exact ⟨place + 1, coefficient, rfl, multiple?_contained found⟩
      · exact inductionHypothesis

theorem value_eq_div (coefficient place : Nat) :
    (⟨coefficient, (place : Int) - decimalPlaces⟩ : Decimal).value =
      ((coefficient * 10 ^ place : Nat) : ℚ) / (10 ^ decimalPlaces : Nat) := by
  rw [Decimal.value, zpow_sub₀ (by norm_num), zpow_natCast, zpow_natCast]
  push_cast
  ring

/-- **The shortest decimal reads back.** It is not zero, and it rounds to the magnitude that
it was found for. -/
theorem shortest_roundsTo {b : Nat} (positive : 0 < b) :
    RoundsTo (shortest b).value b ∧ 0 < (shortest b).coefficient := by
  obtain ⟨place, coefficient, isFound, inside⟩ :=
    search_contained (value_contained positive) (Interval.ofBits b).topPlace
  rw [shortest, Interval.shortest, isFound]
  constructor
  · rw [value_eq_div]
    exact (contains_iff b _).mp inside
  · apply Nat.pos_of_ne_zero
    rintro rfl
    rw [Nat.zero_mul, zero_not_contained positive] at inside
    contradiction

end LoxCalc.Double
