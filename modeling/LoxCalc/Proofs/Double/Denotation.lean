import LoxCalc.Proofs.Double.Notation
import LoxCalc.Proofs.Double.Order

/-!
Contract: what written numbers denote, and that no two numbers are written alike.

Owns:
- `append_inj_of_stops`, how a text splits where a run of characters stops;
- `DenotesPower`, the integer that the digits of an exponent denote;
- `Denotes`, the exact value of a numeral with or without an exponent, and `Denotes.unique`;
- `denotes_magnitude`, that a written magnitude denotes a real that rounds to it;
- `chars_injective`, that no two numbers are written alike;
- `NumberChar`, the characters that numbers are written with.

A text that denotes two magnitudes would denote one real that rounds to both.
-/

set_option autoImplicit false

namespace LoxCalc

/-! ## Splitting a text -/

section

variable {p : Char → Prop} [DecidablePred p]

theorem takeWhile_append_of_stops {run rest : List Char} (all : ∀ c ∈ run, p c)
    (stops : ∀ c ∈ rest.head?, ¬ p c) :
    (run ++ rest).takeWhile (fun c => decide (p c)) = run := by
  rw [List.takeWhile_append_of_pos fun c member => decide_eq_true (all c member)]
  cases rest with
  | nil => rw [List.takeWhile_nil, List.append_nil]
  | cons c _ =>
      rw [List.takeWhile_cons_of_neg, List.append_nil]
      simpa using stops c (by simp)

/-- A text that is a run of characters up to one that stops it, or up to its end, is so in one
way. -/
theorem append_inj_of_stops {run run' rest rest' : List Char} (all : ∀ c ∈ run, p c)
    (all' : ∀ c ∈ run', p c) (stops : ∀ c ∈ rest.head?, ¬ p c)
    (stops' : ∀ c ∈ rest'.head?, ¬ p c) (same : run ++ rest = run' ++ rest') :
    run = run' ∧ rest = rest' := by
  have sameRun : run = run' := by
    rw [← takeWhile_append_of_stops all stops, same, takeWhile_append_of_stops all' stops']
  exact ⟨sameRun, List.append_cancel_left (sameRun ▸ same)⟩

end

namespace Double

/-! ## Denotation -/

/-- The power of ten that an exponent denotes: the number that its digits write, negated behind
a minus. -/
inductive DenotesPower : List Char → Int → Prop where
  | unsigned {digits : List Char} (nonempty : digits ≠ []) (all : ∀ d ∈ digits, Digit d) :
      DenotesPower digits (digitsValue digits)
  | negative {digits : List Char} (nonempty : digits ≠ []) (all : ∀ d ∈ digits, Digit d) :
      DenotesPower ('-' :: digits) (-(digitsValue digits : Int))

/-- The exact value of a numeral, alone or with a power of ten behind it. -/
inductive Denotes : List Char → ℚ → Prop where
  | numeral {n : Numeral} (plain : n.Plain) : Denotes n.text n.value
  | scientific {n : Numeral} {exponent : List Char} {power : Int} (plain : n.Plain)
      (denotes : DenotesPower exponent power) :
      Denotes (n.text ++ 'e' :: exponent) (n.value * 10 ^ power)

/-- A character of a numeral is a digit or the point. -/
theorem Numeral.Plain.mem_text {n : Numeral} (plain : n.Plain) {c : Char} (member : c ∈ n.text) :
    Digit c ∨ c = '.' := by
  unfold Numeral.text at member
  split at member
  · exact .inl (plain.whole c member)
  · rcases List.mem_append.mp member with inWhole | behind
    · exact .inl (plain.whole c inWhole)
    · rcases List.mem_cons.mp behind with isPoint | inFraction
      · exact .inr isPoint
      · exact .inl (plain.fraction c inFraction)

theorem Numeral.Plain.ne_mark {n : Numeral} (plain : n.Plain) : ∀ c ∈ n.text, c ≠ 'e' := by
  rintro _ member rfl
  rcases plain.mem_text member with digit | isPoint
  · exact absurd digit (by decide)
  · exact absurd isPoint (by decide)

/-- Numerals that are written alike are the same. -/
theorem Numeral.Plain.eq_of_text {n m : Numeral} (plain : n.Plain) (plain' : m.Plain)
    (same : n.text = m.text) : n = m := by
  rw [← ofChars_text plain, same, ofChars_text plain']

/-- An exponent is written as the power that it denotes. -/
theorem denotesPower_signed (power : Int) : DenotesPower (Decimal.signed power) power := by
  have nonempty : Nat.toDigits 10 power.natAbs ≠ [] := Nat.toDigits_ne_nil
  have all : ∀ d ∈ Nat.toDigits 10 power.natAbs, Digit d := fun _ => digit_of_mem_toDigits
  have written := DenotesPower.unsigned nonempty all
  have negated := DenotesPower.negative nonempty all
  rw [digitsValue_toDigits] at written negated
  unfold Decimal.signed
  split
  · rename_i isNegative
    rwa [Int.ofNat_natAbs_of_nonpos (Int.le_of_lt isNegative), Int.neg_neg] at negated
  · rename_i notNegative
    rwa [Int.natAbs_of_nonneg (Int.not_lt.mp notNegative)] at written

theorem DenotesPower.ne_nil {text : List Char} {power : Int}
    (denotes : DenotesPower text power) : text ≠ [] := by
  cases denotes with
  | unsigned nonempty _ => exact nonempty
  | negative _ _ => exact List.cons_ne_nil _ _

theorem DenotesPower.mem {text : List Char} {power : Int} (denotes : DenotesPower text power)
    {c : Char} (member : c ∈ text) : Digit c ∨ c = '-' := by
  cases denotes with
  | unsigned _ all => exact .inl (all c member)
  | negative _ all =>
      rcases List.mem_cons.mp member with isSign | inDigits
      · exact .inr isSign
      · exact .inl (all c inDigits)

/-- An exponent denotes one power at most: digits do not start with a minus. -/
theorem DenotesPower.unique {text other : List Char} {power otherPower : Int}
    (denotes : DenotesPower text power) (otherDenotes : DenotesPower other otherPower)
    (same : text = other) : power = otherPower := by
  have noSign : ¬ Digit '-' := by decide
  cases denotes with
  | unsigned _ all =>
      cases otherDenotes with
      | unsigned _ _ => rw [same]
      | negative _ _ => exact absurd (all '-' (same ▸ List.mem_cons_self)) noSign
  | negative _ _ =>
      cases otherDenotes with
      | unsigned _ otherAll => exact absurd (otherAll '-' (same ▸ List.mem_cons_self)) noSign
      | negative _ _ => rw [(List.cons.inj same).2]

/-- A numeral ends where the mark of an exponent stands, or with the text. -/
theorem Numeral.Plain.append_inj {n m : Numeral} (plain : n.Plain) (plain' : m.Plain)
    {tail tail' : List Char} (stops : ∀ c ∈ tail.head?, c = 'e')
    (stops' : ∀ c ∈ tail'.head?, c = 'e') (same : n.text ++ tail = m.text ++ tail') :
    n = m ∧ tail = tail' := by
  obtain ⟨sameText, sameTail⟩ := append_inj_of_stops plain.ne_mark plain'.ne_mark
    (fun c atHead => not_not_intro (stops c atHead))
    (fun c atHead => not_not_intro (stops' c atHead)) same
  exact ⟨plain.eq_of_text plain' sameText, sameTail⟩

/-- **A text denotes one real at most.** -/
theorem Denotes.unique {text text' : List Char} {v w : ℚ} (denotes : Denotes text v)
    (denotes' : Denotes text' w) (same : text = text') : v = w := by
  have noTail : ∀ c ∈ ([] : List Char).head?, c = 'e' := by simp
  have marked : ∀ exponent, ∀ c ∈ ('e' :: exponent).head?, c = 'e' := by simp
  cases denotes with
  | numeral plain =>
      cases denotes' with
      | numeral plain' => rw [plain.eq_of_text plain' same]
      | scientific plain' _ =>
          have tails := (plain.append_inj plain' noTail (marked _)
            ((List.append_nil _).trans same)).2
          exact absurd tails (List.cons_ne_nil _ _).symm
  | scientific plain ofPower =>
      cases denotes' with
      | numeral plain' =>
          have tails := (plain'.append_inj plain noTail (marked _)
            ((List.append_nil _).trans same.symm)).2
          exact absurd tails (List.cons_ne_nil _ _).symm
      | scientific plain' ofPower' =>
          obtain ⟨rfl, tails⟩ := plain.append_inj plain' (marked _) (marked _) same
          rw [ofPower.unique ofPower' (List.cons.inj tails).2]

/-! ## Magnitudes -/

/-- A decimal is its numeral with one digit before the point, at the place of that digit. -/
theorem Decimal.value_eq_normalized (d : Decimal) :
    d.value = d.normalized.value * 10 ^ d.leadingExponent := by
  have nonempty := List.length_pos_iff.mpr d.digits_ne_nil
  have place : d.leadingExponent = d.exponent + ((d.digits.length - 1 : Nat) : Int) := by
    rw [leadingExponent]
    omega
  have power : ((10 : ℚ) ^ (d.digits.length - 1)) ≠ 0 := by positivity
  rw [normalized_value, place, zpow_add₀ (by norm_num), zpow_natCast, value]
  push_cast
  field_simp

theorem denotes_decimal (d : Decimal) : Denotes (layout.decimal d) d.value := by
  unfold Layout.decimal
  split
  · rw [Decimal.plain_eq_text, ← Decimal.inFull_value]
    exact .numeral d.inFull_plain
  · rw [Decimal.scientific, Decimal.mantissa_eq_text, Decimal.value_eq_normalized]
    exact .scientific d.normalized_plain (denotesPower_signed _)

theorem roundsTo_zero : RoundsTo 0 0 where
  above := by rw [lowerEnd, ends_zero, Nat.cast_zero, zero_div]
  below := by
    rw [lowerEnd]
    positivity
  tie := fun _ => rfl

/-- **A finite magnitude is written as a real that rounds to it.** -/
theorem denotes_magnitude {b : Nat} (finite : b < infinityBits) :
    ∃ v, Denotes (layout.magnitude b) v ∧ RoundsTo v b := by
  rw [Layout.magnitude]
  split
  · rename_i isZero
    subst isZero
    have plain : (⟨['0'], []⟩ : Numeral).Plain :=
      ⟨List.cons_ne_nil _ _, List.forall_mem_singleton.mpr (by decide), by simp⟩
    have value : (⟨['0'], []⟩ : Numeral).value = 0 := by
      rw [Numeral.value, Numeral.numerator]
      exact zero_div _
    exact ⟨0, value ▸ .numeral plain, roundsTo_zero⟩
  · rename_i nonzero
    exact ⟨_, denotes_decimal _, (shortest_roundsTo (Nat.pos_of_ne_zero nonzero)).1⟩

theorem Denotes.exists_cons {text : List Char} {v : ℚ} (denotes : Denotes text v) :
    ∃ first rest, text = first :: rest ∧ Digit first := by
  cases denotes with
  | numeral plain => exact plain.exists_digit
  | scientific plain _ =>
      obtain ⟨first, rest, starts, digit⟩ := plain.exists_digit
      exact ⟨first, _, by rw [starts, List.cons_append], digit⟩

theorem Denotes.mem {text : List Char} {v : ℚ} (denotes : Denotes text v) {c : Char}
    (member : c ∈ text) : Digit c ∨ c ∈ ['.', 'e', '-'] := by
  cases denotes with
  | numeral plain => exact (plain.mem_text member).imp_right (by rintro rfl; simp)
  | scientific plain ofPower =>
      rcases List.mem_append.mp member with inNumeral | behind
      · exact (plain.mem_text inNumeral).imp_right (by rintro rfl; simp)
      · rcases List.mem_cons.mp behind with rfl | inPower
        · exact .inr (by simp)
        · exact (ofPower.mem inPower).imp_right (by rintro rfl; simp)

theorem magnitude_infinity : layout.magnitude infinityBits = ['i', 'n', 'f'] := rfl

/-- A magnitude is written with a digit first, or as the word for infinity. -/
theorem magnitude_exists_cons {b : Nat} (atMost : b ≤ infinityBits) :
    ∃ first rest, layout.magnitude b = first :: rest ∧ (Digit first ∨ first = 'i') := by
  rcases Nat.lt_or_eq_of_le atMost with finite | rfl
  · obtain ⟨v, denotes, _⟩ := denotes_magnitude finite
    obtain ⟨first, rest, starts, digit⟩ := denotes.exists_cons
    exact ⟨first, rest, starts, .inl digit⟩
  · exact ⟨'i', _, magnitude_infinity, .inr rfl⟩

theorem magnitude_ne_cons {b : Nat} (atMost : b ≤ infinityBits) {first : Char}
    (other : ¬ (Digit first ∨ first = 'i')) (rest : List Char) :
    layout.magnitude b ≠ first :: rest := by
  intro isWord
  obtain ⟨start, behind, starts, isStart⟩ := magnitude_exists_cons atMost
  obtain rfl : start = first := (List.cons.inj (starts.symm.trans isWord)).1
  exact other isStart

theorem magnitude_ne_infinity {b : Nat} (finite : b < infinityBits) :
    layout.magnitude b ≠ layout.magnitude infinityBits := by
  intro isWord
  obtain ⟨v, denotes, _⟩ := denotes_magnitude finite
  obtain ⟨first, rest, starts, digit⟩ := denotes.exists_cons
  rw [magnitude_infinity, starts] at isWord
  obtain rfl : first = 'i' := (List.cons.inj isWord).1
  exact absurd digit (by decide)

theorem magnitude_injective {a b : Nat} (atMost : a ≤ infinityBits) (atMost' : b ≤ infinityBits)
    (same : layout.magnitude a = layout.magnitude b) : a = b := by
  rcases Nat.lt_or_eq_of_le atMost with finite | rfl
  · rcases Nat.lt_or_eq_of_le atMost' with finite' | rfl
    · obtain ⟨v, denotes, rounds⟩ := denotes_magnitude finite
      obtain ⟨w, denotes', rounds'⟩ := denotes_magnitude finite'
      exact rounds.unique (denotes.unique denotes' same ▸ rounds')
    · exact absurd same (magnitude_ne_infinity finite)
  · rcases Nat.lt_or_eq_of_le atMost' with finite' | rfl
    · exact absurd same.symm (magnitude_ne_infinity finite')
    · rfl

/-! ## Numbers -/

/-- There is one NaN, and its pattern is the only one above that of infinity. -/
theorem eq_nan_of_lt_magnitude {x : Float} (beyond : infinityBits < magnitude x) :
    x = Float.nan := by
  have isNaN := (isInf_iff_and_isNaN_iff x).2.mpr beyond
  rwa [Float.isNaN_eq_decide_eq_nan, decide_eq_true_iff] at isNaN

/-- How a number is written, by its sign and its magnitude. -/
inductive WrittenAs (x : Float) : List Char → Prop where
  | nan (isNaN : x = Float.nan) : WrittenAs x layout.nan
  | unsigned {b : Nat} (atMost : b ≤ infinityBits) (bits : x.toBits.toNat = b) :
      WrittenAs x (layout.magnitude b)
  | signed {b : Nat} (atMost : b ≤ infinityBits) (bits : x.toBits.toNat = signBit + b) :
      WrittenAs x ('-' :: layout.magnitude b)

theorem writtenAs_chars (x : Float) : WrittenAs x (chars x) := by
  have bits := toNat_toBits_eq x
  rw [chars_eq]
  split
  · rename_i beyond
    exact .nan (eq_nan_of_lt_magnitude beyond)
  · rename_i inside
    have atMost := Nat.le_of_not_lt inside
    split at bits
    · rename_i unsigned
      rw [if_pos unsigned]
      exact .unsigned atMost bits
    · rename_i signed
      rw [if_neg signed]
      exact .signed atMost bits

/-- **No two numbers are written alike.** -/
theorem chars_injective : Function.Injective chars := by
  have noLetter : ¬ (Digit 'N' ∨ 'N' = 'i') := by decide
  have noSign : ¬ (Digit '-' ∨ '-' = 'i') := by decide
  intro x y same
  have written := writtenAs_chars x
  have written' := writtenAs_chars y
  rw [eq_iff_toNat_toBits]
  generalize chars x = text at same written
  generalize chars y = text' at same written'
  cases written with
  | nan isNaN =>
      cases written' with
      | nan isNaN' => rw [isNaN, isNaN']
      | unsigned atMost' _ => exact absurd same.symm (magnitude_ne_cons atMost' noLetter _)
      | signed _ _ => exact absurd (List.cons.inj same).1 (by decide)
  | unsigned atMost bits =>
      cases written' with
      | nan _ => exact absurd same (magnitude_ne_cons atMost noLetter _)
      | unsigned atMost' bits' => rw [bits, bits', magnitude_injective atMost atMost' same]
      | signed _ _ => exact absurd same (magnitude_ne_cons atMost noSign _)
  | signed atMost bits =>
      cases written' with
      | nan _ => exact absurd (List.cons.inj same).1 (by decide)
      | unsigned atMost' _ => exact absurd same.symm (magnitude_ne_cons atMost' noSign _)
      | signed atMost' bits' =>
          rw [bits, bits', magnitude_injective atMost atMost' (List.cons.inj same).2]

/-- The characters that numbers are written with. -/
def NumberChar (c : Char) : Prop := Digit c ∨ c ∈ ['.', 'e', '-', 'i', 'n', 'f', 'N', 'a']

instance (c : Char) : Decidable (NumberChar c) := inferInstanceAs (Decidable (_ ∨ _))

theorem numberChar_of_mem_magnitude {b : Nat} (atMost : b ≤ infinityBits) {c : Char}
    (member : c ∈ layout.magnitude b) : NumberChar c := by
  rcases Nat.lt_or_eq_of_le atMost with finite | rfl
  · obtain ⟨v, denotes, _⟩ := denotes_magnitude finite
    exact (denotes.mem member).imp_right fun inDecimal =>
      List.mem_append_left ['i', 'n', 'f', 'N', 'a'] inDecimal
  · rw [magnitude_infinity] at member
    exact .inr (List.mem_append_right ['.', 'e', '-'] (List.mem_append_left ['N', 'a'] member))

theorem numberChar_of_mem_chars {x : Float} {c : Char} (member : c ∈ chars x) : NumberChar c := by
  have written := writtenAs_chars x
  generalize chars x = text at member written
  cases written with
  | nan _ =>
      have isWord : layout.nan = ['N', 'a', 'N'] := rfl
      simp only [isWord, List.mem_cons, List.not_mem_nil, or_false] at member
      rcases member with rfl | rfl | rfl <;> decide
  | unsigned atMost _ => exact numberChar_of_mem_magnitude atMost member
  | signed atMost _ =>
      rcases List.mem_cons.mp member with rfl | behind
      · decide
      · exact numberChar_of_mem_magnitude atMost behind

end Double

end LoxCalc
