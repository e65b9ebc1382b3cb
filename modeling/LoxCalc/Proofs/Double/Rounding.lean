import LoxCalc.Proofs.Double.Units
import Mathlib.Algebra.Order.Field.Basic
import Mathlib.Algebra.Order.Ring.Rat
import Mathlib.Data.Rat.Cast.Order
import Mathlib.Tactic.Linarith

/-!
Contract: which reals round to which magnitude.

Owns:
- `lowerEnd` and `RoundsTo`, the stretch of reals that round to a pattern, with
  `roundsTo_iff`, its form in whole numbers;
- `RoundsTo.lt`, that the stretches lie in the order of their patterns and do not meet;
- `exists_nearest` and `nearest_eq`, that `nearest` finds the pattern of a quotient.

A stretch reaches midway to the neighbours of its pattern, and its ends belong to it exactly
if the pattern is even; above the last finite pattern the same rule goes on, and `nearest`
makes infinity of what rounds to a pattern from there on.
-/

set_option autoImplicit false

namespace LoxCalc.Double

/-! ## Stretches -/

/-- Twice the middle between a pattern and the one below, in units. Below the first pattern
there is none, and its stretch starts at zero. -/
def ends (b : Nat) : Nat := units (b - 1) + units b

theorem ends_zero : ends 0 = 0 := by rw [ends, units_zero]

theorem ends_lt {b : Nat} (positive : 0 < b) : ends b < 2 * units b := by
  have below : units (b - 1) < units b := units_strictMono (Nat.sub_one_lt_of_lt positive)
  rw [ends]
  omega

theorem ends_strictMono : StrictMono ends := by
  intro a b less
  have lower : units (a - 1) ≤ units (b - 1) := units_strictMono.monotone (by omega)
  exact Nat.add_lt_add_of_le_of_lt lower (units_strictMono less)

/-- The lower end of the stretch of reals that round to a pattern. -/
def lowerEnd (b : Nat) : ℚ := ends b / 2 ^ (unitExponent + 1)

theorem lowerEnd_strictMono : StrictMono lowerEnd := by
  intro a b less
  have positive : (0 : ℚ) < 2 ^ (unitExponent + 1) := by positivity
  exact div_lt_div_of_pos_right (Nat.cast_lt.mpr (ends_strictMono less)) positive

/-- A real rounds to a pattern if it lies between the middles to the neighbours; the middles
themselves go to the even pattern. -/
structure RoundsTo (v : ℚ) (b : Nat) : Prop where
  above : lowerEnd b ≤ v
  below : v ≤ lowerEnd (b + 1)
  tie : v = lowerEnd b ∨ v = lowerEnd (b + 1) → b % 2 = 0

/-- **Stretches lie in the order of their patterns.** -/
theorem RoundsTo.lt {v w : ℚ} {b p : Nat} (rounds : RoundsTo v b) (others : RoundsTo w p)
    (less : b < p) : v < w := by
  have between : lowerEnd (b + 1) ≤ lowerEnd p := lowerEnd_strictMono.monotone less
  apply lt_of_le_of_ne (rounds.below.trans (between.trans others.above))
  intro same
  -- All that lies between the two is one point, which would belong to an odd pattern.
  have isUpper : v = lowerEnd (b + 1) := by
    have := others.above
    have := rounds.below
    linarith
  have isLower : w = lowerEnd p := by
    have := others.above
    linarith
  have neighbours : b + 1 = p :=
    lowerEnd_strictMono.injective (isUpper.symm.trans (same.trans isLower))
  have even := rounds.tie (.inr isUpper)
  have alsoEven := others.tie (.inl isLower)
  omega

theorem RoundsTo.le_of_le {v w : ℚ} {b p : Nat} (rounds : RoundsTo v b) (others : RoundsTo w p)
    (atMost : v ≤ w) : b ≤ p :=
  Nat.le_of_not_lt fun less => absurd (others.lt rounds less) (not_lt.mpr atMost)

theorem RoundsTo.unique {v : ℚ} {b p : Nat} (rounds : RoundsTo v b) (others : RoundsTo v p) :
    b = p :=
  Nat.le_antisymm (rounds.le_of_le others le_rfl) (others.le_of_le rounds le_rfl)

section

variable {num den : Nat} (positive : 0 < den)

include positive

theorem lowerEnd_le_iff (b : Nat) :
    lowerEnd b ≤ (num / den : ℚ) ↔ ends b * den ≤ num * 2 ^ (unitExponent + 1) := by
  rw [lowerEnd, div_le_div_iff₀ (by positivity) (Nat.cast_pos.mpr positive)]
  exact_mod_cast Iff.rfl

theorem le_lowerEnd_iff (b : Nat) :
    (num / den : ℚ) ≤ lowerEnd b ↔ num * 2 ^ (unitExponent + 1) ≤ ends b * den := by
  rw [lowerEnd, div_le_div_iff₀ (Nat.cast_pos.mpr positive) (by positivity)]
  exact_mod_cast Iff.rfl

theorem eq_lowerEnd_iff (b : Nat) :
    (num / den : ℚ) = lowerEnd b ↔ num * 2 ^ (unitExponent + 1) = ends b * den := by
  rw [le_antisymm_iff, Nat.le_antisymm_iff, le_lowerEnd_iff positive, lowerEnd_le_iff positive]

theorem roundsTo_iff (b : Nat) :
    RoundsTo (num / den) b ↔
      ends b * den ≤ num * 2 ^ (unitExponent + 1) ∧
        num * 2 ^ (unitExponent + 1) ≤ ends (b + 1) * den ∧
        (num * 2 ^ (unitExponent + 1) = ends b * den ∨
          num * 2 ^ (unitExponent + 1) = ends (b + 1) * den → b % 2 = 0) := by
  rw [← lowerEnd_le_iff positive, ← le_lowerEnd_iff positive, ← eq_lowerEnd_iff positive,
    ← eq_lowerEnd_iff positive]
  exact ⟨fun rounds => ⟨rounds.above, rounds.below, rounds.tie⟩,
    fun ⟨above, below, tie⟩ => ⟨above, below, tie⟩⟩

end

/-! ## Rounding a quotient -/

/-- A quotient is rounded by at most one half, and by one half to an even number only. -/
theorem roundQuotient_bounds (num : Nat) {den : Nat} (positive : 0 < den) :
    2 * roundQuotient num den * den ≤ 2 * num + den ∧
      2 * num ≤ (2 * roundQuotient num den + 1) * den ∧
      (2 * roundQuotient num den * den = 2 * num + den ∨
        2 * num = (2 * roundQuotient num den + 1) * den → roundQuotient num den % 2 = 0) := by
  have split := Nat.div_add_mod' num den
  have rest := Nat.mod_lt num positive
  generalize isFloor : num / den = floor at split
  generalize isRest : num % den = left at split rest
  have down : 2 * floor * den = 2 * (floor * den) := Nat.mul_assoc 2 floor den
  have up : 2 * (floor + 1) * den = 2 * (floor * den) + 2 * den := by ring
  have middle : (2 * floor + 1) * den = 2 * (floor * den) + den := by ring
  have top : (2 * (floor + 1) + 1) * den = 2 * (floor * den) + 3 * den := by ring
  simp only [roundQuotient, isFloor, isRest]
  split_ifs <;> simp only [down, up, middle, top] <;> omega

theorem roundQuotient_mem (num den : Nat) :
    num / den ≤ roundQuotient num den ∧ roundQuotient num den ≤ num / den + 1 := by
  simp only [roundQuotient]
  split_ifs <;> omega

/-! ## The ends of a stretch in its binade -/

section

variable {binade steps : Nat} (atMost : steps ≤ 2 * implicitBit)

include atMost

theorem le_ends_succ (normal : binade = 0 ∨ implicitBit ≤ steps) :
    (2 * steps + 1) * 2 ^ binade ≤ ends (binade * implicitBit + steps + 1) := by
  have next : (steps + 1) * 2 ^ binade ≤ units (binade * implicitBit + steps + 1) := by
    rcases Nat.lt_or_eq_of_le atMost with inside | atEnd
    · have normalNext : binade = 0 ∨ implicitBit ≤ steps + 1 := by omega
      rw [Nat.add_assoc, units_eq (by omega) normalNext]
    · -- The next pattern lies in the next binade, where a step counts twice.
      have inNext : binade * implicitBit + steps + 1 =
          (binade + 1) * implicitBit + (implicitBit + 1) := by
        rw [atEnd]
        ring
      have positive := implicitBit_pos
      rw [inNext, units_eq (by omega) (.inr (by omega)), atEnd]
      calc
        (2 * implicitBit + 1) * 2 ^ binade ≤ (2 * implicitBit + 2) * 2 ^ binade :=
          Nat.mul_le_mul_right _ (by omega)
        _ = (implicitBit + 1) * 2 ^ (binade + 1) := by ring
  rw [ends, Nat.add_sub_cancel, units_eq atMost normal]
  calc
    (2 * steps + 1) * 2 ^ binade = steps * 2 ^ binade + (steps + 1) * 2 ^ binade := by ring
    _ ≤ _ := Nat.add_le_add_left next _

theorem ends_add (positive : 0 < steps) (normal : binade = 0 ∨ implicitBit < steps) :
    ends (binade * implicitBit + steps) + 2 ^ binade = 2 * steps * 2 ^ binade := by
  obtain ⟨before, rfl⟩ := Nat.exists_eq_add_one_of_ne_zero (Nat.pos_iff_ne_zero.mp positive)
  have normalBefore : binade = 0 ∨ implicitBit ≤ before := by omega
  have normalHere : binade = 0 ∨ implicitBit ≤ before + 1 := by omega
  rw [ends, Nat.add_sub_assoc positive, Nat.add_sub_cancel, units_eq atMost normalHere,
    units_eq (by omega) normalBefore]
  ring

end

/-- The lower end of the stretch of a pattern, against a quotient that was rounded to it. At
the origin of a binade the steps below are half as long, but there the quotient itself is not
smaller than the pattern. -/
theorem ends_le_of_rounded {scaled den binade steps : Nat} (positive : 0 < den)
    (atMost : steps ≤ 2 * implicitBit)
    (normal : binade = 0 ∨
      implicitBit ≤ steps ∧ implicitBit * (den * 2 ^ binade) ≤ scaled)
    (above : 2 * steps * (den * 2 ^ binade) ≤ 2 * scaled + den * 2 ^ binade) :
    ends (binade * implicitBit + steps) * den ≤ 2 * scaled ∧
      (2 * scaled = ends (binade * implicitBit + steps) * den → steps = 0 ∨
        2 * steps * (den * 2 ^ binade) = 2 * scaled + den * 2 ^ binade) := by
  rcases Nat.eq_zero_or_pos steps with none | some
  · have bottom : binade = 0 := by
      have := implicitBit_pos
      omega
    rw [none, bottom, Nat.zero_mul, ends_zero, Nat.zero_mul]
    exact ⟨Nat.zero_le _, fun _ => .inl rfl⟩
  by_cases inside : binade = 0 ∨ implicitBit < steps
  · have sum : ends (binade * implicitBit + steps) * den + den * 2 ^ binade =
        2 * steps * (den * 2 ^ binade) := by
      calc
        _ = (ends (binade * implicitBit + steps) + 2 ^ binade) * den := by ring
        _ = 2 * steps * 2 ^ binade * den := by rw [ends_add atMost some inside]
        _ = 2 * steps * (den * 2 ^ binade) := by ring
    omega
  · obtain ⟨notBottom, notAbove⟩ := not_or.mp inside
    obtain ⟨inBinade, large⟩ := normal.resolve_left notBottom
    have atOrigin : steps = implicitBit := by omega
    have size : units (binade * implicitBit + steps) = steps * 2 ^ binade :=
      units_eq atMost (.inr inBinade)
    have strict : ends (binade * implicitBit + steps) * den < 2 * scaled := by
      calc
        _ < 2 * (steps * 2 ^ binade) * den := by
          rw [← size]
          exact Nat.mul_lt_mul_of_pos_right (ends_lt (by omega)) positive
        _ = 2 * (implicitBit * (den * 2 ^ binade)) := by
          rw [atOrigin]
          ring
        _ ≤ 2 * scaled := Nat.mul_le_mul_left 2 large
    exact ⟨strict.le, fun same => absurd same.symm strict.ne⟩

/-- A quotient rounds to the pattern of its rounded number of steps in a binade. -/
theorem roundsTo_steps {num den binade steps : Nat} (positive : 0 < den)
    (rounded : roundQuotient (num * 2 ^ unitExponent) (den * 2 ^ binade) = steps)
    (atMost : steps ≤ 2 * implicitBit)
    (normal : binade = 0 ∨
      implicitBit ≤ steps ∧ implicitBit * (den * 2 ^ binade) ≤ num * 2 ^ unitExponent) :
    RoundsTo (num / den) (binade * implicitBit + steps) := by
  have step : 0 < den * 2 ^ binade := Nat.mul_pos positive (Nat.two_pow_pos binade)
  obtain ⟨above, below, tie⟩ := roundQuotient_bounds (num * 2 ^ unitExponent) step
  rw [rounded] at above below tie
  have twice : num * 2 ^ (unitExponent + 1) = 2 * (num * 2 ^ unitExponent) := by ring
  have even : steps % 2 = 0 → (binade * implicitBit + steps) % 2 = 0 := by
    intro stepsEven
    simp [Nat.add_mod, Nat.mul_mod, implicitBit_even, stepsEven]
  obtain ⟨least, atLeast⟩ := ends_le_of_rounded positive atMost normal above
  have most : (2 * steps + 1) * (den * 2 ^ binade) ≤
      ends (binade * implicitBit + steps + 1) * den := by
    calc
      _ = (2 * steps + 1) * 2 ^ binade * den := by ring
      _ ≤ _ := Nat.mul_le_mul_right den (le_ends_succ atMost (normal.imp_right And.left))
  rw [roundsTo_iff positive, twice]
  refine ⟨least, below.trans most, ?_⟩
  intro isEnd
  apply even
  rcases isEnd with isLower | isUpper
  · rcases atLeast isLower with none | half
    · rw [none]
    · exact tie (.inl half)
  · exact tie (.inr (Nat.le_antisymm below (most.trans_eq isUpper.symm)))

/-- The binade of a number: its bits behind the leading 53 are dropped. -/
theorem binade_bounds (quotient : Nat) :
    quotient < 2 * implicitBit * 2 ^ (quotient.log2 - fractionBits) ∧
      (quotient.log2 - fractionBits = 0 ∨
        implicitBit * 2 ^ (quotient.log2 - fractionBits) ≤ quotient) := by
  generalize isBinade : quotient.log2 - fractionBits = binade
  have leading : implicitBit * 2 ^ binade = 2 ^ (fractionBits + binade) :=
    (Nat.pow_add 2 fractionBits binade).symm
  constructor
  · calc
      quotient < 2 ^ (quotient.log2 + 1) := Nat.lt_log2_self
      _ ≤ 2 ^ (fractionBits + binade + 1) := Nat.pow_le_pow_right Nat.two_pos (by omega)
      _ = 2 * implicitBit * 2 ^ binade := by rw [Nat.pow_succ, ← leading]; ring
  · by_cases bottom : binade = 0
    · exact .inl bottom
    · have nonzero : quotient ≠ 0 := by
        rintro rfl
        exact bottom (by rw [← isBinade, Nat.log2_zero, Nat.zero_sub])
      have isLog : fractionBits + binade = quotient.log2 := by omega
      right
      rw [leading, isLog]
      exact Nat.log2_self_le nonzero

/-- **Every quotient rounds to a pattern, and `nearest` finds it**, or infinity if the
pattern is not that of a finite magnitude. -/
theorem exists_nearest (num : Nat) {den : Nat} (positive : 0 < den) :
    ∃ b, RoundsTo (num / den) b ∧ nearest num den = min infinityBits b := by
  generalize isQuotient : num * 2 ^ unitExponent / den = quotient
  obtain ⟨small, large⟩ := binade_bounds quotient
  generalize isBinade : quotient.log2 - fractionBits = binade at small large
  refine ⟨binade * implicitBit +
    roundQuotient (num * 2 ^ unitExponent) (den * 2 ^ binade), ?_, ?_⟩
  · have scaledStep : num * 2 ^ unitExponent / (den * 2 ^ binade) = quotient / 2 ^ binade := by
      rw [← Nat.div_div_eq_div_mul, isQuotient]
    obtain ⟨fromFloor, toCeil⟩ :=
      roundQuotient_mem (num * 2 ^ unitExponent) (den * 2 ^ binade)
    rw [scaledStep] at fromFloor toCeil
    have fits : quotient / 2 ^ binade < 2 * implicitBit :=
      (Nat.div_lt_iff_lt_mul (Nat.two_pow_pos binade)).mpr small
    apply roundsTo_steps positive rfl (toCeil.trans fits)
    refine large.imp_right fun inBinade => ⟨?_, ?_⟩
    · exact ((Nat.le_div_iff_mul_le (Nat.two_pow_pos binade)).mpr inBinade).trans fromFloor
    · calc
        implicitBit * (den * 2 ^ binade) = implicitBit * 2 ^ binade * den := by ring
        _ ≤ quotient * den := Nat.mul_le_mul_right den inBinade
        _ ≤ num * 2 ^ unitExponent := isQuotient ▸ Nat.div_mul_le_self _ den
  · simp only [nearest, Nat.pow_eq, isQuotient, isBinade]

/-- What rounds to the pattern of a finite magnitude is read as that magnitude. -/
theorem nearest_eq {num den b : Nat} (positive : 0 < den) (rounds : RoundsTo (num / den) b) :
    nearest num den = min infinityBits b := by
  obtain ⟨found, alsoRounds, isNearest⟩ := exists_nearest num positive
  rw [isNearest, rounds.unique alsoRounds]

end LoxCalc.Double
