import LoxCalc.Double.Magnitude
import Mathlib.Order.Monotone.Basic
import Mathlib.Tactic.Ring

/-!
Contract: the exact sizes of the magnitudes grow with their patterns.

Owns:
- `exists_binade` and `units_eq`, the size of a pattern as a number of equal steps;
- `units_strictMono`, the order of sizes.

Within a binade the step is constant, and the first pattern of the next binade continues
it, so a pattern may be counted from the binade below as well.
-/

set_option autoImplicit false

namespace LoxCalc.Double

theorem implicitBit_pos : 0 < implicitBit := Nat.two_pow_pos fractionBits

theorem implicitBit_even : implicitBit % 2 = 0 := by decide

/-- The size of a pattern with exponent field `field + 1`. -/
theorem units_normal {field fraction : Nat} (isFraction : fraction < implicitBit) :
    units ((field + 1) * implicitBit + fraction) = (implicitBit + fraction) * 2 ^ field := by
  have isField : ((field + 1) * implicitBit + fraction) / implicitBit = field + 1 := by
    rw [Nat.add_comm, Nat.add_mul_div_right _ _ implicitBit_pos, Nat.div_eq_of_lt isFraction,
      Nat.zero_add]
  have rest : ((field + 1) * implicitBit + fraction) % implicitBit = fraction := by
    rw [Nat.add_comm, Nat.add_mul_mod_self_right, Nat.mod_eq_of_lt isFraction]
  simp only [units, isField, rest, Nat.add_one_ne_zero, ↓reduceIte, Nat.add_sub_cancel]
  rfl

theorem units_subnormal {fraction : Nat} (isFraction : fraction < implicitBit) :
    units fraction = fraction := by
  simp only [units, Nat.div_eq_of_lt isFraction, Nat.mod_eq_of_lt isFraction, ↓reduceIte]

/-- The size of the pattern `steps` places behind the origin of a binade. Both ends of the
binade count. -/
theorem units_eq {binade steps : Nat} (atMost : steps ≤ 2 * implicitBit)
    (normal : binade = 0 ∨ implicitBit ≤ steps) :
    units (binade * implicitBit + steps) = steps * 2 ^ binade := by
  have positive := implicitBit_pos
  rcases Nat.lt_or_ge steps implicitBit with isSmall | isLarge
  · obtain rfl : binade = 0 := normal.resolve_right (Nat.not_le_of_lt isSmall)
    rw [Nat.zero_mul, Nat.zero_add, units_subnormal isSmall, Nat.pow_zero, Nat.mul_one]
  obtain ⟨fraction, rfl⟩ := Nat.exists_eq_add_of_le isLarge
  have inField : binade * implicitBit + (implicitBit + fraction) =
      (binade + 1) * implicitBit + fraction := by ring
  rcases Nat.lt_or_ge fraction implicitBit with isFraction | isTop
  · rw [inField, units_normal isFraction]
  · obtain rfl : fraction = implicitBit := by omega
    have inNext : binade * implicitBit + (implicitBit + implicitBit) =
        (binade + 1 + 1) * implicitBit + 0 := by ring
    rw [inNext, units_normal positive]
    ring

/-- Every pattern lies in a binade, in front of its end. -/
theorem exists_binade (b : Nat) :
    ∃ binade steps, b = binade * implicitBit + steps ∧ steps < 2 * implicitBit ∧
      (binade = 0 ∨ implicitBit ≤ steps) := by
  have positive := implicitBit_pos
  have split := Nat.div_add_mod' b implicitBit
  have isFraction := Nat.mod_lt b positive
  cases isField : b / implicitBit with
  | zero =>
      rw [isField, Nat.zero_mul, Nat.zero_add] at split
      exact ⟨0, b, by omega, by omega, .inl rfl⟩
  | succ field =>
      rw [isField] at split
      refine ⟨field, implicitBit + b % implicitBit, ?_, by omega, .inr (by omega)⟩
      calc
        b = (field + 1) * implicitBit + b % implicitBit := split.symm
        _ = field * implicitBit + (implicitBit + b % implicitBit) := by ring

theorem units_lt_succ (b : Nat) : units b < units (b + 1) := by
  obtain ⟨binade, steps, rfl, inside, normal⟩ := exists_binade b
  have normalSucc : binade = 0 ∨ implicitBit ≤ steps + 1 := by omega
  rw [Nat.add_assoc, units_eq (by omega) normal, units_eq (by omega) normalSucc]
  exact Nat.mul_lt_mul_of_pos_right (Nat.lt_succ_self steps) (Nat.two_pow_pos binade)

theorem units_strictMono : StrictMono units := strictMono_nat_of_lt_succ units_lt_succ

theorem units_zero : units 0 = 0 := units_subnormal implicitBit_pos

end LoxCalc.Double
