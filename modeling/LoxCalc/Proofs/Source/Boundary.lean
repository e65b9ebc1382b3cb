import LoxCalc.Proofs.Source.MaximalMunch

/-!
Contract: white space ends whatever segment is open.

Owns:
- `EndedBy`, the classes of segments that a white-space character ends;
- `cut_append_blank` and `segments_append_blank`, that a text in front of white space is
  cut as it is cut on its own;
- `cutDigits_append_stop`, that a number ends at what continues no number;
- `segments_lexeme`, that a word of any class is cut as that word.

Does **not** own: the lines of the segments.
-/

set_option autoImplicit false

namespace LoxCalc

open Segment

/-! ## Stretches that end before white space -/

/-- A stretch ends at a character that does not belong to it just as it ends at the end
of the text. -/
theorem spans_append_stop (p : Char → Bool) {stop : Char} (stops : p stop = false)
    (text behind : List Char) :
    (text ++ stop :: behind).takeWhile p = text.takeWhile p ∧
      (text ++ stop :: behind).dropWhile p = text.dropWhile p ++ stop :: behind := by
  induction text with
  | nil => simp [stops]
  | cons c rest inductionHypothesis =>
      by_cases belongs : p c = true
      · simpa [belongs] using inductionHypothesis
      · simp [belongs]

/-- A stretch that ends inside a text ends there whatever follows the text. -/
theorem spans_append_of_ends (p : Char → Bool) {text : List Char} (ends : text.dropWhile p ≠ [])
    (behind : List Char) :
    (text ++ behind).takeWhile p = text.takeWhile p ∧
      (text ++ behind).dropWhile p = text.dropWhile p ++ behind := by
  induction text with
  | nil => exact absurd rfl ends
  | cons c rest inductionHypothesis =>
      by_cases belongs : p c = true
      · rw [List.dropWhile_cons_of_pos belongs] at ends
        simpa [belongs] using inductionHypothesis ends
      · simp [belongs]

/-! ## One segment -/

/-- The classes of segments that a white-space character ends: all that are closed, but a
comment only if the character is a line break. -/
def EndedBy (w : Char) (cls : SegmentClass) : Prop :=
  cls ≠ .unterminated ∧ (cls = .comment → w = '\n')

theorem ne_of_isBlank {w c : Char} (blank : isBlank w = true) (other : isBlank c = false) :
    w ≠ c := by
  intro same
  rw [same, other] at blank
  contradiction

theorem isWordPart_of_isBlank {w : Char} (blank : isBlank w = true) : isWordPart w = false := by
  rw [isBlank_iff] at blank
  simp only [List.mem_cons, List.not_mem_nil, or_false] at blank
  rcases blank with rfl | rfl | rfl | rfl <;> decide

theorem isDigit_of_isBlank {w : Char} (blank : isBlank w = true) : w.isDigit = false := by
  have noPart := isWordPart_of_isBlank blank
  rw [isWordPart, Bool.or_eq_false_iff] at noPart
  exact noPart.2

/-- Digits end at any character that is no digit and no point. -/
theorem cutDigits_append_stop {stop : Char} (notDigit : stop.isDigit = false)
    (notPoint : stop ≠ '.') (c : Char) (rest behind : List Char) :
    cutDigits c (rest ++ stop :: behind) =
      ((cutDigits c rest).1, (cutDigits c rest).2 ++ stop :: behind) := by
  have spans := spans_append_stop Char.isDigit notDigit rest behind
  simp only [cutDigits, spans.1, spans.2]
  -- What stands behind the first digits decides: nothing, a point alone, or a point and more.
  match rest.dropWhile Char.isDigit with
  | [] => simp [notPoint]
  | [d] =>
      by_cases isPoint : d = '.'
      · subst isPoint
        simp [notDigit]
      · simp [isPoint]
  | d :: e :: others =>
      by_cases isPoint : d = '.'
      · subst isPoint
        have further := spans_append_stop Char.isDigit notDigit others behind
        by_cases digit : e.isDigit = true
        · simp [digit, further.1, further.2]
        · simp [digit]
      · simp [isPoint]

variable {w : Char} (blank : isBlank w = true)

include blank

theorem cutJoinable_append_blank (c : Char) (alone joined : Kind) (rest behind : List Char) :
    cutJoinable c alone joined (rest ++ w :: behind) =
      ((cutJoinable c alone joined rest).1,
        (cutJoinable c alone joined rest).2 ++ w :: behind) := by
  have notEqual : w ≠ '=' := ne_of_isBlank blank rfl
  cases rest with
  | nil => simp [cutJoinable, notEqual]
  | cons d rest =>
      by_cases isEqual : d = '='
      · subst isEqual
        rfl
      · simp [cutJoinable, isEqual]

theorem cutSlash_append_blank {rest : List Char} (ends : EndedBy w (cutSlash rest).1.cls)
    (behind : List Char) :
    cutSlash (rest ++ w :: behind) =
      ((cutSlash rest).1, (cutSlash rest).2 ++ w :: behind) := by
  have notSlash : w ≠ '/' := ne_of_isBlank blank rfl
  cases rest with
  | nil => simp [cutSlash, notSlash]
  | cons d rest =>
      by_cases isSlash : d = '/'
      · subst isSlash
        obtain rfl : w = '\n' := ends.2 rfl
        have stops : decide ('\n' ≠ '\n') = false := rfl
        have spans := spans_append_stop (fun c => decide (c ≠ '\n')) stops rest behind
        simp only [cutSlash, List.cons_append, spans.1, spans.2]
      · simp [cutSlash, isSlash]

omit blank in
theorem cutQuote_append_of_closed {rest : List Char}
    (closed : (cutQuote rest).1.cls ≠ .unterminated) (behind : List Char) :
    cutQuote (rest ++ behind) = ((cutQuote rest).1, (cutQuote rest).2 ++ behind) := by
  cases atQuote : rest.dropWhile (fun c => decide (c ≠ '"')) with
  | nil =>
      simp only [cutQuote, atQuote] at closed
      exact absurd rfl closed
  | cons quote others =>
      have ends : rest.dropWhile (fun c => decide (c ≠ '"')) ≠ [] := by
        rw [atQuote]
        exact List.cons_ne_nil _ _
      have spans := spans_append_of_ends _ ends behind
      simp only [cutQuote, spans.1, spans.2, atQuote, List.cons_append]

theorem cutDigits_append_blank (c : Char) (rest behind : List Char) :
    cutDigits c (rest ++ w :: behind) =
      ((cutDigits c rest).1, (cutDigits c rest).2 ++ w :: behind) :=
  cutDigits_append_stop (isDigit_of_isBlank blank) (ne_of_isBlank blank rfl) c rest behind

theorem cutWord_append_blank (c : Char) (rest behind : List Char) :
    cutWord c (rest ++ w :: behind) =
      ((cutWord c rest).1, (cutWord c rest).2 ++ w :: behind) := by
  have spans := spans_append_stop isWordPart (isWordPart_of_isBlank blank) rest behind
  simp only [cutWord, spans.1, spans.2]

/-- **White space ends the segment in front of it.** -/
theorem cut_append_blank {c : Char} {rest : List Char} (ends : EndedBy w (cut c rest).1.cls)
    (behind : List Char) :
    cut c (rest ++ w :: behind) = ((cut c rest).1, (cut c rest).2 ++ w :: behind) := by
  rw [cut_eq] at ends
  rw [cut_eq, cut_eq]
  generalize initial? c = starts at ends ⊢
  match starts with
  | some (.symbol kind) => rfl
  | some (.joinable alone joined) =>
      exact cutJoinable_append_blank blank c alone joined rest behind
  | some .slash => exact cutSlash_append_blank blank ends behind
  | some .blank => rfl
  | some .quote => exact cutQuote_append_of_closed ends.1 (w :: behind)
  | some .digit => exact cutDigits_append_blank blank c rest behind
  | some .word => exact cutWord_append_blank blank c rest behind
  | none => rfl

/-! ## A whole text -/

/-- **A text in front of white space is cut as it is cut on its own.** -/
theorem segments_append_blank {text : List Char}
    (ends : ∀ s ∈ segments text, EndedBy w s.cls) (behind : List Char) :
    segments (text ++ w :: behind) = segments text ++ segments (w :: behind) := by
  fun_induction segments text with
  | case1 => rfl
  | case2 c rest inductionHypothesis =>
      obtain ⟨first, others⟩ := List.forall_mem_cons.mp ends
      rw [List.cons_append, segments, cut_append_blank blank first behind,
        inductionHypothesis others, List.cons_append]

@[simp] theorem segments_cons_blank (behind : List Char) :
    segments (w :: behind) = ⟨.blank, [w]⟩ :: segments behind := by
  have starts : initial? w = some .blank :=
    (initial?_eq_some_iff w .blank).mpr ((isBlank_iff w).mp blank)
  rw [segments, cut_eq, starts]

omit blank

/-! ## Words -/

/-- A word of any class is the only segment of the text that it is. -/
theorem segments_lexeme {cls : SegmentClass} {word : List Char} (lexeme : Lexeme cls word) :
    segments word = [⟨cls, word⟩] := by
  have leads : Leads word ⟨cls, word⟩ :=
    .lexeme lexeme (List.prefix_refl word) (fun _ _ _ front => front.length_le)
  exact ((cuts_iff word _).mp (.next (List.append_nil word).symm leads .done)).symm

theorem segments_lexeme_blank {cls : SegmentClass} {word : List Char} (lexeme : Lexeme cls word)
    (blank : isBlank w = true) (ends : EndedBy w cls) (behind : List Char) :
    segments (word ++ w :: behind) = ⟨cls, word⟩ :: segments (w :: behind) := by
  have alone := segments_lexeme lexeme
  rw [segments_append_blank blank, alone, List.singleton_append]
  rw [alone]
  exact List.forall_mem_singleton.mpr ends

/-- A character that is a token by itself is cut off whatever follows. -/
@[simp] theorem segments_cons_symbol {c : Char} {kind : Kind} (isSymbol : symbol? c = some kind)
    (rest : List Char) :
    segments (c :: rest) = ⟨.token kind, [c]⟩ :: segments rest := by
  have starts : initial? c = some (.symbol kind) :=
    (initial?_eq_some_iff c (.symbol kind)).mpr isSymbol
  rw [segments, cut_eq, starts]

end LoxCalc
