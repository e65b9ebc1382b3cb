import LoxCalc.Proofs.Double.Order
import LoxCalc.Proofs.Double.Rounding

/-!
Contract: the double nearest to a rational, said of the doubles themselves.

Owns:
- `fieldValue` and `exact`, the exact value of a magnitude and of a finite double, by the
  fields of the format;
- `NearestTo`, the double that is closest to a rational, ties to the even pattern, and
  infinity from the middle between the last magnitude and the next one on;
- `RoundsTo.lt_infinity_iff`, where the magnitudes end;
- `nearestTo_iff`, that the nearest double is the one to whose pattern the rational rounds,
  with `nearestTo_abs_iff` and `NearestTo.unique`.

Among the doubles compared are those with a sign: none of them is closer to a rational that is
not negative.
-/

set_option autoImplicit false

namespace LoxCalc.Double

/-! ## Exact values -/

/-- The exact value of the magnitude with pattern `b`. Below the 52 bits of the fraction stands
an exponent with bias 1023; with exponent field zero there is no leading one. -/
def fieldValue (b : Nat) : ℚ :=
  if b / 2 ^ 52 = 0 then ((b % 2 ^ 52 : Nat) / 2 ^ 52) * 2 ^ (-1022 : Int)
  else (1 + (b % 2 ^ 52 : Nat) / 2 ^ 52) * 2 ^ (((b / 2 ^ 52 : Nat) : Int) - 1023)

/-- The exact value of a finite double. -/
def exact (x : Float) : ℚ :=
  if x.toBits.toNat < signBit then fieldValue (magnitude x) else -fieldValue (magnitude x)

theorem two_zpow_sub_unitExponent (power : Int) :
    (2 : ℚ) ^ (power - unitExponent) = 2 ^ power / 2 ^ unitExponent := by
  rw [zpow_sub₀ two_ne_zero, zpow_natCast]

/-- Sizes count units of `2 ^ -1074`. -/
theorem fieldValue_eq (b : Nat) : fieldValue b = units b / 2 ^ unitExponent := by
  have hidden : implicitBit = 2 ^ 52 := rfl
  have fraction : (2 : ℚ) ^ (52 : Int) = 2 ^ 52 := by norm_cast
  rw [fieldValue, units, hidden]
  split
  · have lowest : (-1022 : Int) = 52 - unitExponent := by decide
    rw [lowest, two_zpow_sub_unitExponent, fraction]
    field_simp
  · rename_i normal
    obtain ⟨field, isField⟩ := Nat.exists_eq_add_one_of_ne_zero normal
    have unbiased : ((field + 1 : Nat) : Int) - 1023 = (field : Int) + 52 - unitExponent := by
      rw [unitExponent]
      omega
    rw [isField, unbiased, two_zpow_sub_unitExponent, zpow_add₀ two_ne_zero, fraction,
      zpow_natCast, Nat.add_sub_cancel, Nat.pow_eq]
    -- The power of the unit is too large to be evaluated.
    generalize unitExponent = places
    generalize b % 2 ^ 52 = rest
    rw [Nat.cast_mul, Nat.cast_add, Nat.cast_pow, Nat.cast_pow, Nat.cast_ofNat]
    field_simp

theorem fieldValue_strictMono : StrictMono fieldValue := by
  intro a b less
  have positive : (0 : ℚ) < 2 ^ unitExponent := by positivity
  rw [fieldValue_eq, fieldValue_eq]
  exact div_lt_div_of_pos_right (Nat.cast_lt.mpr (units_strictMono less)) positive

theorem fieldValue_zero : fieldValue 0 = 0 := by
  rw [fieldValue_eq, units_zero, Nat.cast_zero, zero_div]

theorem fieldValue_nonneg (b : Nat) : 0 ≤ fieldValue b := by
  rw [fieldValue_eq]
  positivity

theorem exact_of_unsigned {x : Float} (unsigned : x.toBits.toNat < signBit) :
    exact x = fieldValue x.toBits.toNat := by
  rw [exact, if_pos unsigned, magnitude, Nat.mod_eq_of_lt unsigned]

theorem abs_exact (x : Float) : |exact x| = fieldValue (magnitude x) := by
  have size := fieldValue_nonneg (magnitude x)
  unfold exact
  split
  · exact abs_of_nonneg size
  · rw [abs_neg, abs_of_nonneg size]

theorem exact_eq_zero_iff (x : Float) : exact x = 0 ↔ magnitude x = 0 := by
  rw [← abs_eq_zero, abs_exact, ← fieldValue_zero, fieldValue_strictMono.injective.eq_iff]

/-! ## Ends of stretches -/

/-- A stretch ends in the middle between the values of two neighbours. -/
theorem lowerEnd_succ (b : Nat) : lowerEnd (b + 1) = (fieldValue b + fieldValue (b + 1)) / 2 := by
  rw [lowerEnd, ends, Nat.add_sub_cancel, fieldValue_eq, fieldValue_eq, pow_succ, Nat.cast_add]
  field_simp

theorem lowerEnd_zero : lowerEnd 0 = 0 := by
  rw [lowerEnd, ends_zero, Nat.cast_zero, zero_div]

theorem RoundsTo.nonneg {v : ℚ} {b : Nat} (rounds : RoundsTo v b) : 0 ≤ v := by
  have least : lowerEnd 0 ≤ lowerEnd b := lowerEnd_strictMono.monotone (Nat.zero_le b)
  rw [lowerEnd_zero] at least
  exact least.trans rounds.above

/-- The stretches of the finite magnitudes end in the middle between the last one, which is
`2 ^ 1024 - 2 ^ 971`, and `2 ^ 1024`. -/
theorem lowerEnd_infinity : lowerEnd infinityBits = 2 ^ 1024 - 2 ^ 970 := by
  have sum : ends infinityBits + 2 ^ 2045 = 2 ^ 2099 := by decide +kernel
  have positive : (0 : ℚ) < 2 ^ (unitExponent + 1) := by positivity
  have upper : (2 : ℚ) ^ 2099 = 2 ^ 1024 * 2 ^ (unitExponent + 1) := by
    rw [← pow_add]
    rfl
  have lower : (2 : ℚ) ^ 2045 = 2 ^ 970 * 2 ^ (unitExponent + 1) := by
    rw [← pow_add]
    rfl
  have cast := congrArg (Nat.cast : Nat → ℚ) sum
  rw [Nat.cast_add, Nat.cast_pow, Nat.cast_pow, Nat.cast_ofNat, ← eq_sub_iff_add_eq, upper, lower,
    ← sub_mul] at cast
  rw [lowerEnd, cast, mul_div_cancel_right₀ _ positive.ne']

/-- Where the magnitudes end: the last one is odd, so the middle behind it does not round to
it. -/
theorem RoundsTo.lt_infinity_iff {v : ℚ} {b : Nat} (rounds : RoundsTo v b) :
    b < infinityBits ↔ v < lowerEnd infinityBits := by
  constructor
  · intro finite
    have atMost : lowerEnd (b + 1) ≤ lowerEnd infinityBits := lowerEnd_strictMono.monotone finite
    refine lt_of_le_of_ne (rounds.below.trans atMost) fun same => ?_
    have isEnd : lowerEnd (b + 1) = lowerEnd infinityBits :=
      le_antisymm atMost (same.ge.trans rounds.below)
    have isLast : b + 1 = infinityBits := lowerEnd_strictMono.injective isEnd
    have even : b % 2 = 0 := rounds.tie (.inr (same.trans isEnd.symm))
    have odd : (infinityBits - 1) % 2 = 1 := by decide
    rw [← isLast, Nat.add_sub_cancel, even] at odd
    contradiction
  · intro inRange
    apply Nat.lt_of_not_le
    intro beyond
    exact absurd (inRange.trans_le ((lowerEnd_strictMono.monotone beyond).trans rounds.above))
      (lt_irrefl v)

/-! ## Closest magnitudes -/

section

variable {v x y : ℚ} (less : x < y)

include less

/-- Which of two numbers is closer is decided by the middle between them. -/
theorem abs_sub_right_le_iff : |v - y| ≤ |v - x| ↔ (x + y) / 2 ≤ v := by
  rw [← sq_le_sq]
  constructor <;> intro <;> nlinarith

theorem abs_sub_left_le_iff : |v - x| ≤ |v - y| ↔ v ≤ (x + y) / 2 := by
  rw [← sq_le_sq]
  constructor <;> intro <;> nlinarith

end

/-- A pattern that a rational rounds to is as close as any, and even if another one is as
close. -/
theorem RoundsTo.closest {v : ℚ} {b : Nat} (rounds : RoundsTo v b) (p : Nat) :
    |v - fieldValue b| ≤ |v - fieldValue p| ∧
      (p ≠ b → |v - fieldValue p| = |v - fieldValue b| → b % 2 = 0) := by
  rcases Nat.lt_trichotomy p b with below | rfl | above
  · obtain ⟨before, rfl⟩ := Nat.exists_eq_add_one_of_ne_zero (Nat.ne_zero_of_lt below)
    have atMost : fieldValue p ≤ fieldValue before :=
      fieldValue_strictMono.monotone (Nat.le_of_lt_succ below)
    have less : fieldValue p < fieldValue (before + 1) := fieldValue_strictMono below
    have reached := rounds.above
    have isMiddle := lowerEnd_succ before
    refine ⟨(abs_sub_right_le_iff less).mpr (by linarith), fun _ same => ?_⟩
    have notAbove := (abs_sub_left_le_iff less).mp same.le
    exact rounds.tie (.inl (by linarith))
  · exact ⟨le_rfl, fun differs => absurd rfl differs⟩
  · have atLeast : fieldValue (b + 1) ≤ fieldValue p := fieldValue_strictMono.monotone above
    have less : fieldValue b < fieldValue p := fieldValue_strictMono above
    have reached := rounds.below
    have isMiddle := lowerEnd_succ b
    refine ⟨(abs_sub_left_le_iff less).mpr (by linarith), fun _ same => ?_⟩
    have notBelow := (abs_sub_right_le_iff less).mp same.le
    exact rounds.tie (.inr (by linarith))

/-- The finite pattern that is as close as any rounds. Only its neighbours matter, and behind
the last one the range ends. -/
theorem roundsTo_of_closest {v : ℚ} {b : Nat} (nonneg : 0 ≤ v)
    (inRange : v < lowerEnd infinityBits) (finite : b < infinityBits)
    (closest : ∀ p < infinityBits, |v - fieldValue b| ≤ |v - fieldValue p|)
    (tie : ∀ p < infinityBits, p ≠ b → |v - fieldValue p| = |v - fieldValue b| → b % 2 = 0) :
    RoundsTo v b := by
  have step : fieldValue b < fieldValue (b + 1) := fieldValue_strictMono (Nat.lt_succ_self b)
  have above : lowerEnd b ≤ v ∧ (v = lowerEnd b → b % 2 = 0) := by
    rcases Nat.eq_zero_or_eq_succ_pred b with rfl | isSucc
    · exact ⟨lowerEnd_zero.trans_le nonneg, fun _ => rfl⟩
    generalize b.pred = before at isSucc
    subst isSucc
    have less : fieldValue before < fieldValue (before + 1) :=
      fieldValue_strictMono (Nat.lt_succ_self before)
    have finiteBefore : before < infinityBits := Nat.lt_of_succ_lt finite
    rw [lowerEnd_succ]
    refine ⟨(abs_sub_right_le_iff less).mp (closest before finiteBefore), fun isEnd => ?_⟩
    apply tie before finiteBefore (Nat.ne_of_lt (Nat.lt_succ_self before))
    exact le_antisymm ((abs_sub_left_le_iff less).mpr isEnd.le)
      ((abs_sub_right_le_iff less).mpr isEnd.ge)
  have below : v ≤ lowerEnd (b + 1) ∧ (v = lowerEnd (b + 1) → b % 2 = 0) := by
    rcases Nat.lt_or_eq_of_le (Nat.succ_le_of_lt finite) with finiteNext | isLast
    · rw [lowerEnd_succ]
      refine ⟨(abs_sub_left_le_iff step).mp (closest _ finiteNext), fun isEnd => ?_⟩
      apply tie _ finiteNext (Nat.succ_ne_self b)
      exact le_antisymm ((abs_sub_right_le_iff step).mpr isEnd.ge)
        ((abs_sub_left_le_iff step).mpr isEnd.le)
    · rw [Nat.add_one, isLast]
      exact ⟨inRange.le, fun isEnd => absurd isEnd inRange.ne⟩
  exact ⟨above.1, below.1, fun isEnd => isEnd.elim above.2 below.2⟩

/-! ## Nearest doubles -/

/-- The double nearest to a rational that is not negative. A finite double is as close as every
other one, and even if another one is as close; from `2 ^ 1024 - 2 ^ 970` on it is infinity.
The nearest double has no sign. -/
inductive NearestTo (v : ℚ) (x : Float) : Prop where
  | finite (inRange : v < 2 ^ 1024 - 2 ^ 970) (unsigned : x.toBits.toNat < infinityBits)
      (closest : ∀ y, magnitude y < infinityBits → |v - exact x| ≤ |v - exact y|)
      (tie : ∀ y, magnitude y < infinityBits → y ≠ x → |v - exact y| = |v - exact x| →
        x.toBits.toNat % 2 = 0)
  | overflow (beyond : 2 ^ 1024 - 2 ^ 970 ≤ v) (isInfinity : x.toBits.toNat = infinityBits)

/-- Every finite pattern is that of a double without a sign, which has its value. -/
theorem exists_float {b : Nat} (finite : b < infinityBits) :
    ∃ y, y.toBits.toNat = b ∧ magnitude y < infinityBits ∧ exact y = fieldValue b := by
  have infinityBound : infinityBits < 2 ^ 64 := by decide
  have noSign : infinityBits < signBit := by decide
  have isBits : (UInt64.ofNat b).toNat = b :=
    UInt64.toNat_ofNat_of_lt' (finite.trans infinityBound)
  have isPattern : (Float.ofBits (UInt64.ofNat b)).toBits.toNat = b := by
    rw [toBits_ofBits (isBits.trans_le finite.le), isBits]
  have unsigned : (Float.ofBits (UInt64.ofNat b)).toBits.toNat < signBit :=
    isPattern.trans_lt (finite.trans noSign)
  refine ⟨_, isPattern, ?_, by rw [exact_of_unsigned unsigned, isPattern]⟩
  rwa [magnitude, Nat.mod_eq_of_lt unsigned, isPattern]

theorem exists_rounding {v : ℚ} (nonneg : 0 ≤ v) : ∃ b, RoundsTo v b := by
  obtain ⟨b, rounds, _⟩ := exists_nearest v.num.toNat v.den_pos
  have isNum : ((v.num.toNat : Nat) : ℚ) = v.num := by
    exact_mod_cast Int.toNat_of_nonneg (Rat.num_nonneg.mpr nonneg)
  rw [isNum, Rat.num_div_den] at rounds
  exact ⟨b, rounds⟩

/-- No double with a sign is closer to a rational that is not negative than zero is. -/
theorem exists_pattern_closer {v : ℚ} (nonneg : 0 ≤ v) {y : Float}
    (finite : magnitude y < infinityBits) :
    ∃ p < infinityBits, |v - fieldValue p| ≤ |v - exact y| ∧ (p = y.toBits.toNat ∨ p = 0) := by
  unfold exact
  split
  · rename_i unsigned
    exact ⟨magnitude y, finite, le_rfl, .inl (Nat.mod_eq_of_lt unsigned)⟩
  · have size := fieldValue_nonneg (magnitude y)
    refine ⟨0, by decide, ?_, .inr rfl⟩
    rw [fieldValue_zero, sub_zero, sub_neg_eq_add, abs_of_nonneg nonneg,
      abs_of_nonneg (add_nonneg nonneg size)]
    linarith

theorem NearestTo.exists_roundsTo {v : ℚ} (nonneg : 0 ≤ v) {x : Float}
    (nearest : NearestTo v x) : ∃ b, RoundsTo v b ∧ x.toBits.toNat = min infinityBits b := by
  cases nearest with
  | overflow beyond isInfinity =>
      obtain ⟨b, rounds⟩ := exists_rounding nonneg
      have large : infinityBits ≤ b := by
        rw [← not_lt, rounds.lt_infinity_iff, lowerEnd_infinity, not_lt]
        exact beyond
      exact ⟨b, rounds, by rw [isInfinity, Nat.min_eq_left large]⟩
  | finite inRange unsigned closest tie =>
      have noSign : infinityBits < signBit := by decide
      rw [exact_of_unsigned (unsigned.trans noSign)] at closest tie
      rw [← lowerEnd_infinity] at inRange
      refine ⟨_, roundsTo_of_closest nonneg inRange unsigned ?_ ?_,
        (Nat.min_eq_right unsigned.le).symm⟩
      · intro p isFinite
        obtain ⟨y, _, finite, isValue⟩ := exists_float isFinite
        exact isValue ▸ closest y finite
      · intro p isFinite differs same
        obtain ⟨y, isPattern, finite, isValue⟩ := exists_float isFinite
        refine tie y finite ?_ (isValue ▸ same)
        rintro rfl
        exact differs isPattern.symm

theorem RoundsTo.nearestTo {v : ℚ} {b : Nat} (rounds : RoundsTo v b) {x : Float}
    (isPattern : x.toBits.toNat = min infinityBits b) : NearestTo v x := by
  rcases Nat.lt_or_ge b infinityBits with isFinite | beyond
  · rw [Nat.min_eq_right isFinite.le] at isPattern
    have noSign : infinityBits < signBit := by decide
    have isExact := exact_of_unsigned (isPattern.trans_lt (isFinite.trans noSign))
    have inRange := rounds.lt_infinity_iff.mp isFinite
    rw [isPattern] at isExact
    rw [lowerEnd_infinity] at inRange
    refine .finite inRange (isPattern.trans_lt isFinite) ?_ ?_
    · intro y finite
      obtain ⟨p, _, closer, _⟩ := exists_pattern_closer rounds.nonneg finite
      rw [isExact]
      exact (rounds.closest p).1.trans closer
    · intro y finite differs same
      obtain ⟨p, _, closer, isOther⟩ := exists_pattern_closer rounds.nonneg finite
      rw [isExact] at same
      rw [isPattern]
      -- The other one may be zero with a sign, and then zero is the pattern that is as close.
      by_cases isZero : b = 0
      · rw [isZero]
      · apply (rounds.closest p).2 _ (le_antisymm (closer.trans same.le) (rounds.closest p).1)
        rintro rfl
        rcases isOther with isSame | alsoZero
        · exact differs ((eq_iff_toNat_toBits y x).mpr (isSame.symm.trans isPattern.symm))
        · exact isZero alsoZero
  · rw [Nat.min_eq_left beyond] at isPattern
    refine .overflow ?_ isPattern
    rwa [← lowerEnd_infinity, ← not_lt, ← rounds.lt_infinity_iff, not_lt]

/-- **The nearest double is the one to whose pattern a rational rounds.** -/
theorem nearestTo_iff {v : ℚ} (nonneg : 0 ≤ v) (x : Float) :
    NearestTo v x ↔ ∃ b, RoundsTo v b ∧ x.toBits.toNat = min infinityBits b :=
  ⟨NearestTo.exists_roundsTo nonneg, fun ⟨_, rounds, isPattern⟩ => rounds.nearestTo isPattern⟩

/-- The absolute value of a finite double is nearest to what rounds to its magnitude. -/
theorem nearestTo_abs_iff {x : Float} (finite : magnitude x < infinityBits) {v : ℚ}
    (nonneg : 0 ≤ v) : NearestTo v x.abs ↔ RoundsTo v (magnitude x) := by
  rw [nearestTo_iff nonneg, toNat_toBits_abs finite.le]
  constructor
  · rintro ⟨b, rounds, isMagnitude⟩
    have same : b = magnitude x := by omega
    exact same ▸ rounds
  · intro rounds
    exact ⟨_, rounds, (Nat.min_eq_right finite.le).symm⟩

/-- Every rational that is not negative has one nearest double. -/
theorem NearestTo.unique {v : ℚ} (nonneg : 0 ≤ v) {x y : Float} (nearest : NearestTo v x)
    (others : NearestTo v y) : x = y := by
  obtain ⟨b, rounds, isPattern⟩ := (nearestTo_iff nonneg x).mp nearest
  obtain ⟨p, others, isOther⟩ := (nearestTo_iff nonneg y).mp others
  rw [eq_iff_toNat_toBits, isPattern, isOther, rounds.unique others]

end LoxCalc.Double
