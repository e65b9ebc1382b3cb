import LoxCalc.Proofs.Double.Notation

/-!
Contract: no decimal with fewer digits reads back than the shortest one.

Owns:
- `RoundsTo.between`, that stretches have no gaps;
- `multiple?_eq_none_iff`, that a place at which nothing is found has nothing to be found;
- `not_contains_of_topPlace_lt`, that nothing is to be found above where the search starts;
- `shortest_greatest`, that the search ends at the greatest place at which there is a decimal;
- `shortest_fewest`, that every decimal that rounds to a magnitude has as many digits at least,
  and `shortest_last`, that the last digit is not zero.

A power of ten between two decimals that round to a magnitude rounds to it as well, and would
have been found at its own place.
-/

set_option autoImplicit false

namespace LoxCalc.Double

/-! ## Stretches -/

/-- What lies between two reals that round to a magnitude rounds to it. -/
theorem RoundsTo.between {v w u : ℚ} {b : Nat} (lower : RoundsTo v b) (upper : RoundsTo u b)
    (above : v ≤ w) (below : w ≤ u) : RoundsTo w b where
  above := lower.above.trans above
  below := below.trans upper.below
  tie := by
    rintro (isLower | isUpper)
    · exact lower.tie (.inl (le_antisymm (above.trans isLower.le) lower.above))
    · exact upper.tie (.inr (le_antisymm upper.below (isUpper.symm.le.trans below)))

/-! ## One place -/

theorem contains_between {i : Interval} {least middle most : Nat}
    (lower : i.contains least = true) (upper : i.contains most = true) (above : least ≤ middle)
    (below : middle ≤ most) : i.contains middle = true := by
  cases closed : i.closed with
  | true =>
      simp only [Interval.contains, closed, ↓reduceIte, Bool.and_eq_true,
        decide_eq_true_eq] at lower upper ⊢
      omega
  | false =>
      simp only [Interval.contains, closed, Bool.false_eq_true, ↓reduceIte, Bool.and_eq_true,
        decide_eq_true_eq] at lower upper ⊢
      omega

/-- If nothing is found at a place, no multiple of its power of ten lies inside. -/
theorem multiple?_eq_none_iff {i : Interval} (inside : i.contains i.value = true) (place : Nat) :
    i.multiple? place = none ↔ ∀ m, i.contains (m * 10 ^ place) = false := by
  have power : 0 < 10 ^ place := Nat.pow_pos (by decide)
  have floor : i.value / 10 ^ place * 10 ^ place ≤ i.value := Nat.div_mul_le_self _ _
  have ceil : i.value ≤ (i.value / 10 ^ place + 1) * 10 ^ place :=
    (Nat.lt_mul_of_div_lt (Nat.lt_succ_self _) power).le
  constructor
  · intro notFound m
    simp only [Interval.multiple?, Nat.pow_eq] at notFound
    split at notFound
    · rename_i noFloor noCeil
      rw [← Bool.not_eq_true]
      intro isInside
      -- The value lies between the multiple and one of its own two neighbours.
      rcases Nat.lt_or_ge (i.value / 10 ^ place) m with large | small
      · have atMost := Nat.mul_le_mul_right (10 ^ place) (Nat.succ_le_of_lt large)
        rw [contains_between inside isInside ceil atMost] at noCeil
        contradiction
      · have atLeast := Nat.mul_le_mul_right (10 ^ place) small
        rw [contains_between isInside inside atLeast floor] at noFloor
        contradiction
    · contradiction
    · contradiction
    · split at notFound <;> contradiction
  · intro nothing
    simp only [Interval.multiple?, Nat.pow_eq, nothing]

/-! ## The search -/

/-- The search ends with the greatest place, from the top down, at which a multiple lies
inside. -/
theorem search_greatest {i : Interval} (inside : i.contains i.value = true) (top : Nat) :
    ∃ place coefficient : Nat, i.search top = ⟨coefficient, (place : Int) - decimalPlaces⟩ ∧
      ∀ further ≤ top, place < further → ∀ m, i.contains (m * 10 ^ further) = false := by
  induction top with
  | zero =>
      refine ⟨0, i.value, ?_, fun further atMost above => by omega⟩
      rw [Interval.search, Int.natCast_zero, zero_sub]
  | succ top inductionHypothesis =>
      rw [Interval.search]
      split
      · rename_i coefficient found
        exact ⟨top + 1, coefficient, rfl, fun further atMost above => by omega⟩
      · rename_i notFound
        obtain ⟨place, coefficient, isFound, greatest⟩ := inductionHypothesis
        refine ⟨place, coefficient, isFound, fun further atMost above => ?_⟩
        rcases Nat.lt_or_eq_of_le atMost with isLower | rfl
        · exact greatest further (Nat.le_of_lt_succ isLower) above
        · exact (multiple?_eq_none_iff inside _).mp notFound

/-! ## The top -/

theorem value_lt_topPlace (i : Interval) : i.value < 10 ^ i.topPlace := by
  have isLog : i.value < 2 ^ (i.value.log2 + 1) := Nat.lt_log2_self
  refine isLog.trans_le ?_
  rw [Interval.topPlace]
  generalize i.value.log2 + 1 = bits
  rw [← Nat.pow_le_pow_iff_left (n := 10) (by decide), ← Nat.pow_mul, ← Nat.pow_mul]
  calc
    2 ^ (bits * 10) ≤ 2 ^ (33 * (10 * bits / 33 + 1)) :=
      Nat.pow_le_pow_right Nat.two_pos (by omega)
    _ = (2 ^ 33) ^ (10 * bits / 33 + 1) := Nat.pow_mul 2 33 _
    _ ≤ (10 ^ 10) ^ (10 * bits / 33 + 1) := Nat.pow_le_pow_left (by decide) _
    _ = 10 ^ ((10 * bits / 33 + 1) * 10) := by rw [← Nat.pow_mul, Nat.mul_comm]

/-- A positive size is at most doubled at the next pattern. -/
theorem units_succ_le {b : Nat} (positive : 0 < b) : units (b + 1) ≤ 2 * units b := by
  obtain ⟨binade, steps, rfl, inside, normal⟩ := exists_binade b
  have hidden := implicitBit_pos
  have some : 0 < steps := by
    rcases normal with rfl | large
    · omega
    · omega
  have normalSucc : binade = 0 ∨ implicitBit ≤ steps + 1 := normal.imp_right Nat.le_succ_of_le
  rw [Nat.add_assoc, units_eq (by omega) normal, units_eq (by omega) normalSucc, ← Nat.mul_assoc]
  exact Nat.mul_le_mul_right _ (by omega)

/-- Above the place where the search starts, no multiple lies inside. -/
theorem not_contains_of_topPlace_lt {b : Nat} (positive : 0 < b) {place : Nat}
    (above : (Interval.ofBits b).topPlace < place) (m : Nat) :
    (Interval.ofBits b).contains (m * 10 ^ place) = false := by
  rcases Nat.eq_zero_or_pos m with rfl | some
  · rw [Nat.zero_mul]
    exact zero_not_contained positive
  · have size : (Interval.ofBits b).high ≤ 2 * (Interval.ofBits b).value := by
      have next := units_succ_le positive
      rw [ofBits_high, ofBits_value, ends, Nat.add_sub_cancel, ← Nat.mul_assoc]
      exact Nat.mul_le_mul_right _ (by omega)
    have far : (Interval.ofBits b).high < m * 10 ^ place := by
      calc
        (Interval.ofBits b).high ≤ 2 * (Interval.ofBits b).value := size
        _ < 10 * 10 ^ (Interval.ofBits b).topPlace := by
          have := value_lt_topPlace (Interval.ofBits b)
          omega
        _ = 10 ^ ((Interval.ofBits b).topPlace + 1) := (Nat.pow_succ').symm
        _ ≤ 10 ^ place := Nat.pow_le_pow_right (by decide) above
        _ ≤ m * 10 ^ place := Nat.le_mul_of_pos_left _ some
    unfold Interval.contains
    split <;> simp <;> omega

/-! ## The shortest decimal -/

/-- A power of ten counts in smaller ones. -/
theorem Decimal.value_power (exponent : Int) (zeros : Nat) :
    (⟨1, exponent + zeros⟩ : Decimal).value = (10 ^ zeros : Nat) * 10 ^ exponent := by
  rw [value, zpow_add₀ (by norm_num), zpow_natCast]
  push_cast
  ring

section

variable {b : Nat} (positive : 0 < b)

include positive

/-- **The shortest decimal has the greatest exponent.** No decimal with a greater one rounds to
the magnitude. -/
theorem shortest_greatest {d : Decimal} (rounds : RoundsTo d.value b) :
    d.exponent ≤ (shortest b).exponent := by
  obtain ⟨place, coefficient, isFound, greatest⟩ :=
    search_greatest (value_contained positive) (Interval.ofBits b).topPlace
  rw [shortest, Interval.shortest, isFound]
  show d.exponent ≤ (place : Int) - decimalPlaces
  rw [← not_lt]
  intro above
  obtain ⟨further, isExponent⟩ : ∃ further : Nat, d.exponent = (further : Int) - decimalPlaces :=
    ⟨(d.exponent + decimalPlaces).toNat, by omega⟩
  have isDecimal : d = ⟨d.coefficient, (further : Int) - decimalPlaces⟩ := by rw [← isExponent]
  rw [isDecimal, value_eq_div] at rounds
  have contained := (contains_iff b _).mpr rounds
  have beyond : place < further := by omega
  rcases Nat.lt_or_ge (Interval.ofBits b).topPlace further with overTop | atMost
  · rw [not_contains_of_topPlace_lt positive overTop] at contained
    contradiction
  · rw [greatest further atMost beyond] at contained
    contradiction

/-- **No decimal with fewer digits reads back.** With fewer digits it would be smaller than a
power of ten that the shortest one reaches, and this power would round to the magnitude. -/
theorem shortest_fewest {d : Decimal} (rounds : RoundsTo d.value b) :
    (shortest b).digits.length ≤ d.digits.length := by
  obtain ⟨ownRounds, nonzero⟩ := shortest_roundsTo positive
  have atMost := shortest_greatest positive rounds
  rw [← not_lt]
  intro fewer
  have width : 0 < d.digits.length := List.length_pos_iff.mpr d.digits_ne_nil
  have small : d.coefficient < 10 ^ d.digits.length :=
    (Nat.length_toDigits_le_iff (by decide) width).mp (Nat.le_refl _)
  have large : 10 ^ d.digits.length ≤ (shortest b).coefficient :=
    (Nat.pow_le_pow_right (by decide) (Nat.le_sub_one_of_lt fewer)).trans
      (Decimal.digits_bounds nonzero).1
  have scale : (0 : ℚ) < 10 ^ (shortest b).exponent := zpow_pos (by norm_num) _
  have above : d.value ≤ (⟨1, (shortest b).exponent + d.digits.length⟩ : Decimal).value := by
    rw [Decimal.value_power, Decimal.value]
    exact mul_le_mul (Nat.cast_le.mpr small.le) (zpow_le_zpow_right₀ (by norm_num) atMost)
      (zpow_nonneg (by norm_num) _) (Nat.cast_nonneg _)
  have below : (⟨1, (shortest b).exponent + d.digits.length⟩ : Decimal).value ≤
      (shortest b).value := by
    rw [Decimal.value_power, Decimal.value]
    exact mul_le_mul_of_nonneg_right (Nat.cast_le.mpr large) scale.le
  have reached : (shortest b).exponent + d.digits.length ≤ (shortest b).exponent :=
    shortest_greatest positive (rounds.between ownRounds above below)
  omega

theorem shortest_last : (shortest b).coefficient % 10 ≠ 0 := by
  intro isMultiple
  obtain ⟨ownRounds, _⟩ := shortest_roundsTo positive
  have split : (shortest b).coefficient = (shortest b).coefficient / 10 * 10 := by omega
  have shorter : (⟨(shortest b).coefficient / 10, (shortest b).exponent + 1⟩ : Decimal).value =
      (shortest b).value := by
    rw [Decimal.value, Decimal.value, zpow_add_one₀ (by norm_num)]
    conv_rhs => rw [split]
    push_cast
    ring
  rw [← shorter] at ownRounds
  have reached : (shortest b).exponent + 1 ≤ (shortest b).exponent :=
    shortest_greatest positive ownRounds
  omega

end

end LoxCalc.Double
