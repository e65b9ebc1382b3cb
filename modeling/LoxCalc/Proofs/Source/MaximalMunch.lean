import LoxCalc.Proofs.Source.Lexeme
import LoxCalc.Source.Scan

/-!
Contract: a text is cut at the longest words.

Owns:
- `Leads`, the segment that has to stand at the front of a text;
- `Cuts`, the segments that a text has to be cut into;
- `cuts_iff`, that `segments` is the one way to cut a text;
- `Segment.word?`, `Segment.written?` and `Segment.complaint?`, what a segment says of its
  token or error.

Does **not** own: the lines of tokens and errors.
-/

set_option autoImplicit false

namespace LoxCalc

open Segment

/-! ## Cutting as a relation -/

/-- No word of any class stands at the front of a text. -/
def NoLexeme (text : List Char) : Prop :=
  ∀ cls word, Lexeme cls word → ¬ word <+: text

/-- The segment at the front of a text: its longest word, or, where it has none, the
whole text if a quote opens it and one character if not. -/
inductive Leads (text : List Char) : Segment → Prop where
  | lexeme {s : Segment} (member : Lexeme s.cls s.text) (front : s.text <+: text)
      (longest : ∀ cls word, Lexeme cls word → word <+: text → word.length ≤ s.text.length) :
      Leads text s
  | unterminated {rest : List Char} (opens : text = '"' :: rest) (none : NoLexeme text) :
      Leads text ⟨.unterminated, text⟩
  | unexpected {c : Char} {rest : List Char} (starts : text = c :: rest) (notQuote : c ≠ '"')
      (none : NoLexeme text) : Leads text ⟨.unexpected, [c]⟩

/-- The segments of a text, from left to right. -/
inductive Cuts : List Char → List Segment → Prop where
  | done : Cuts [] []
  | next {text behind : List Char} {s : Segment} {segs : List Segment}
      (splits : text = s.text ++ behind) (leads : Leads text s) (tail : Cuts behind segs) :
      Cuts text (s :: segs)

/-! ## The longest word at the front -/

/-- A completed first character leads a text if no other completion that fits is
longer. -/
theorem leads_of_completes {c : Char} {rest tail : List Char} {i : Initial}
    {cls : SegmentClass} (starts : initial? c = some i) (completes : i.Completes c cls tail)
    (front : tail <+: rest)
    (longest : ∀ other word, i.Completes c other word → word <+: rest →
      word.length ≤ tail.length) :
    Leads (c :: rest) ⟨cls, c :: tail⟩ := by
  refine .lexeme (completes.lexeme starts) ((List.prefix_cons_inj c).mpr front) ?_
  intro other word lexeme fits
  obtain ⟨first, others, j, rfl, alsoStarts, alsoCompletes⟩ := lexeme.exists_completes
  obtain ⟨rfl, restFits⟩ := List.cons_prefix_cons.mp fits
  obtain rfl : j = i := Option.some.inj (alsoStarts.symm.trans starts)
  exact Nat.succ_le_succ (longest other others alsoCompletes restFits)

theorem noLexeme_cons {c : Char} {rest : List Char}
    (none : ∀ i cls word, initial? c = some i → i.Completes c cls word → ¬ word <+: rest) :
    NoLexeme (c :: rest) := by
  intro cls word lexeme fits
  obtain ⟨first, others, i, rfl, starts, completes⟩ := lexeme.exists_completes
  obtain ⟨rfl, restFits⟩ := List.cons_prefix_cons.mp fits
  exact none i cls others starts completes restFits

/-- A stretch at the front of a text is no longer than the longest one of its kind. -/
theorem length_le_takeWhile {p : Char → Bool} {front text : List Char} (fits : front <+: text)
    (all : ∀ d ∈ front, p d = true) : front.length ≤ (text.takeWhile p).length := by
  obtain ⟨behind, rfl⟩ := fits
  rw [List.takeWhile_append_of_pos all, List.length_append]
  exact Nat.le_add_right _ _

theorem digits_takeWhile (text : List Char) : ∀ d ∈ text.takeWhile Char.isDigit, Digit d := by
  intro d member
  exact (isDigit_iff d).mp (List.all_eq_true.mp List.all_takeWhile d member)

theorem not_mem_takeWhile_ne (stop : Char) (text : List Char) :
    stop ∉ text.takeWhile (· ≠ stop) := by
  intro member
  simpa using List.all_eq_true.mp List.all_takeWhile _ member

theorem leads_joinable {c : Char} {alone joined : Kind} {rest : List Char}
    (starts : initial? c = some (.joinable alone joined)) :
    Leads (c :: rest) (cutJoinable c alone joined rest).1 := by
  unfold cutJoinable
  split
  · rename_i behind
    refine leads_of_completes starts (.inr ⟨rfl, rfl⟩) ⟨behind, rfl⟩ ?_
    intro other word completes _
    rcases completes with ⟨_, rfl⟩ | ⟨_, rfl⟩ <;> simp
  · rename_i notEqual
    refine leads_of_completes starts (.inl ⟨rfl, rfl⟩) (List.nil_prefix) ?_
    intro other word completes fits
    rcases completes with ⟨_, rfl⟩ | ⟨_, rfl⟩
    · exact Nat.le_refl _
    · obtain ⟨behind, rfl⟩ := fits
      exact absurd rfl (notEqual behind)

theorem leads_slash {rest : List Char} : Leads ('/' :: rest) (cutSlash rest).1 := by
  have starts : initial? '/' = some .slash := rfl
  unfold cutSlash
  split
  · rename_i behind
    refine leads_of_completes starts
      (.inr ⟨rfl, behind.takeWhile (· ≠ '\n'), rfl, not_mem_takeWhile_ne '\n' behind⟩) ?_ ?_
    · exact (List.prefix_cons_inj '/').mpr (List.takeWhile_prefix _)
    · intro other word completes fits
      rcases completes with ⟨_, rfl⟩ | ⟨_, body, rfl, oneLine⟩
      · exact Nat.zero_le _
      · refine Nat.succ_le_succ (length_le_takeWhile (List.cons_prefix_cons.mp fits).2 ?_)
        intro d member
        rw [decide_eq_true_eq]
        intro same
        subst same
        exact oneLine member
  · rename_i notSlash
    refine leads_of_completes starts (.inl ⟨rfl, rfl⟩) (List.nil_prefix) ?_
    intro other word completes fits
    rcases completes with ⟨_, rfl⟩ | ⟨_, body, rfl, _⟩
    · exact Nat.le_refl _
    · obtain ⟨behind, rfl⟩ := fits
      exact absurd rfl (notSlash (body ++ behind))

/-- A stretch that ends where its kind stops is the longest one of its kind. -/
theorem takeWhile_append_stop {p : Char → Bool} {whole behind : List Char} {stop : Char}
    (all : ∀ d ∈ whole, p d = true) (stops : p stop = false) :
    (whole ++ stop :: behind).takeWhile p = whole ∧
      (whole ++ stop :: behind).dropWhile p = stop :: behind := by
  rw [List.takeWhile_append_of_pos all, List.dropWhile_append_of_pos all]
  simp [stops]

theorem leads_quote {rest : List Char} : Leads ('"' :: rest) (cutQuote rest).1 := by
  have starts : initial? '"' = some .quote := rfl
  have isBody : ∀ body : List Char, '"' ∉ body → ∀ d ∈ body, decide (d ≠ '"') = true := by
    intro body unquoted d member
    rw [decide_eq_true_eq]
    intro same
    subst same
    exact unquoted member
  unfold cutQuote
  split
  · rename_i noQuote
    refine .unterminated rfl (noLexeme_cons ?_)
    intro i cls word alsoStarts completes fits
    rcases fits with ⟨behind, rfl⟩
    obtain rfl : i = .quote := Option.some.inj (alsoStarts.symm.trans starts)
    obtain ⟨_, body, rfl, unquoted⟩ := completes
    rw [List.append_assoc, List.singleton_append,
      (takeWhile_append_stop (isBody body unquoted) (by decide)).2] at noQuote
    contradiction
  · rename_i quote behind atQuote
    have whole := cutQuote_append rest
    unfold cutQuote at whole
    rw [atQuote] at whole
    have notInside := not_mem_takeWhile_ne '"' rest
    refine leads_of_completes starts ⟨rfl, _, rfl, notInside⟩
      ⟨behind, (List.cons.inj whole).2⟩ ?_
    intro other word completes fits
    rcases completes with ⟨_, body, rfl, unquoted⟩
    rcases fits with ⟨others, rfl⟩
    apply Nat.le_of_eq
    rw [List.append_assoc, List.singleton_append,
      (takeWhile_append_stop (isBody body unquoted) (by decide)).1]

/-- After the first digit: the digits, or the digits on both sides of a point. -/
theorem cutDigits_completes (c : Char) (rest : List Char) :
    ∃ tail behind, cutDigits c rest = (⟨.token .number, c :: tail⟩, behind) ∧
      Initial.Completes c .digit (.token .number) tail ∧
      (rest.takeWhile Char.isDigit).length ≤ tail.length ∧
      ∀ fraction, fraction ≠ [] → (∀ d ∈ fraction, Digit d) →
        '.' :: fraction <+: rest.dropWhile Char.isDigit →
        (rest.takeWhile Char.isDigit).length + (fraction.length + 1) ≤ tail.length := by
  have wholeDigits := digits_takeWhile rest
  unfold cutDigits
  split
  · rename_i d behind atPoint
    split
    · rename_i isDigit
      have fractionDigits : ∀ e ∈ d :: behind.takeWhile Char.isDigit, Digit e :=
        List.forall_mem_cons.mpr ⟨(isDigit_iff d).mp isDigit, digits_takeWhile behind⟩
      refine ⟨rest.takeWhile Char.isDigit ++ '.' :: d :: behind.takeWhile Char.isDigit, _, rfl,
        ⟨rfl, .inr ⟨_, _, rfl, wholeDigits, List.cons_ne_nil _ _, fractionDigits⟩⟩, ?_, ?_⟩
      · rw [List.length_append]
        exact Nat.le_add_right _ _
      · intro fraction nonempty digits fits
        obtain ⟨e, others, rfl⟩ := List.exists_cons_of_ne_nil nonempty
        rw [atPoint] at fits
        obtain ⟨rfl, othersFit⟩ := List.cons_prefix_cons.mp (List.cons_prefix_cons.mp fits).2
        have bound := length_le_takeWhile othersFit fun x member =>
          (isDigit_iff x).mpr (digits x (List.mem_cons_of_mem e member))
        simp only [List.length_append, List.length_cons]
        omega
    · rename_i notDigit
      refine ⟨_, _, rfl, ⟨rfl, .inl wholeDigits⟩, Nat.le_refl _, ?_⟩
      intro fraction nonempty digits fits
      obtain ⟨e, others, rfl⟩ := List.exists_cons_of_ne_nil nonempty
      rw [atPoint] at fits
      obtain ⟨rfl, _⟩ := List.cons_prefix_cons.mp (List.cons_prefix_cons.mp fits).2
      exact absurd ((isDigit_iff e).mpr (digits e List.mem_cons_self)) notDigit
  · rename_i notPoint
    refine ⟨_, _, rfl, ⟨rfl, .inl wholeDigits⟩, Nat.le_refl _, ?_⟩
    intro fraction nonempty digits fits
    obtain ⟨e, others, rfl⟩ := List.exists_cons_of_ne_nil nonempty
    obtain ⟨behind, same⟩ := fits
    exact absurd same.symm (notPoint e (others ++ behind))

theorem leads_digit {c : Char} {rest : List Char} (starts : initial? c = some .digit) :
    Leads (c :: rest) (cutDigits c rest).1 := by
  obtain ⟨tail, behind, cutsAt, completes, atLeast, longest⟩ := cutDigits_completes c rest
  have whole := cutDigits_append c rest
  rw [cutsAt] at whole
  rw [cutsAt]
  refine leads_of_completes starts completes ⟨behind, (List.cons.inj whole).2⟩ ?_
  intro other word fitting fits
  rcases fitting with ⟨_, digits | ⟨front, fraction, rfl, digits, nonempty, others⟩⟩
  · have bound := length_le_takeWhile fits fun d member => (isDigit_iff d).mpr (digits d member)
    omega
  · obtain ⟨after, rfl⟩ := fits
    have parts : (front ++ '.' :: (fraction ++ after)).takeWhile Char.isDigit = front ∧
        (front ++ '.' :: (fraction ++ after)).dropWhile Char.isDigit =
          '.' :: (fraction ++ after) :=
      takeWhile_append_stop (fun d member => (isDigit_iff d).mpr (digits d member)) (by decide)
    rw [List.append_assoc, List.cons_append, parts.1, parts.2] at longest
    have bound := longest fraction nonempty others ⟨after, rfl⟩
    rwa [List.length_append, List.length_cons]

theorem leads_word {c : Char} {rest : List Char} (starts : initial? c = some .word) :
    Leads (c :: rest) (cutWord c rest).1 := by
  refine leads_of_completes starts ⟨rfl, ?_⟩ (List.takeWhile_prefix isWordPart) ?_
  · intro d member
    exact (isWordPart_iff d).mp (List.all_eq_true.mp List.all_takeWhile d member)
  · intro other word completes fits
    rcases completes with ⟨_, parts⟩
    exact length_le_takeWhile fits fun d member => (isWordPart_iff d).mpr (parts d member)

/-! ## `cut` takes the longest word -/

/-- Where a segment is cut is decided by its first character. -/
theorem cut_eq (c : Char) (rest : List Char) :
    cut c rest =
      match initial? c with
      | some (.symbol kind) => (⟨.token kind, [c]⟩, rest)
      | some (.joinable alone joined) => cutJoinable c alone joined rest
      | some .slash => cutSlash rest
      | some .blank => (⟨.blank, [c]⟩, rest)
      | some .quote => cutQuote rest
      | some .digit => cutDigits c rest
      | some .word => cutWord c rest
      | none => (⟨.unexpected, [c]⟩, rest) := by
  unfold cut initial?
  cases symbol? c with
  | some kind => rfl
  | none =>
      cases joinable? c with
      | some kinds => rfl
      | none =>
          simp only [isDigit_iff, isWordStart_iff]
          split
          · rfl
          split
          · rfl
          split
          · rfl
          split
          · rfl
          split <;> rfl

theorem leads_cut (c : Char) (rest : List Char) : Leads (c :: rest) (cut c rest).1 := by
  rw [cut_eq]
  split
  · rename_i kind starts
    refine leads_of_completes starts ⟨rfl, rfl⟩ (List.nil_prefix) ?_
    intro other word completes _
    rcases completes with ⟨_, rfl⟩
    exact Nat.le_refl _
  · rename_i starts
    exact leads_joinable starts
  · rename_i starts
    obtain rfl : c = '/' := (initial?_eq_some_iff c .slash).mp starts
    exact leads_slash
  · rename_i starts
    refine leads_of_completes starts ⟨rfl, rfl⟩ (List.nil_prefix) ?_
    intro other word completes _
    rcases completes with ⟨_, rfl⟩
    exact Nat.le_refl _
  · rename_i starts
    obtain rfl : c = '"' := (initial?_eq_some_iff c .quote).mp starts
    exact leads_quote
  · rename_i starts
    exact leads_digit starts
  · rename_i starts
    exact leads_word starts
  · rename_i startsNothing
    refine .unexpected rfl ?_ (noLexeme_cons ?_)
    · intro same
      subst same
      exact absurd startsNothing (by decide)
    · intro i cls word starts
      rw [startsNothing] at starts
      contradiction

theorem Leads.unique {text : List Char} {first second : Segment} (one : Leads text first)
    (other : Leads text second) : first = second := by
  cases one with
  | lexeme member front longest =>
      cases other with
      | lexeme member' front' longest' =>
          have sameLength := Nat.le_antisymm (longest' first.cls first.text member front)
            (longest second.cls second.text member' front')
          have sameText : first.text = second.text :=
            (List.prefix_of_prefix_length_le front front' (Nat.le_of_eq sameLength)).eq_of_length
              sameLength
          have sameClass : first.cls = second.cls := member.cls_unique (sameText ▸ member')
          cases first
          cases second
          cases sameText
          cases sameClass
          rfl
      | unterminated _ none => exact absurd front (none _ _ member)
      | unexpected _ _ none => exact absurd front (none _ _ member)
  | unterminated opens none =>
      cases other with
      | lexeme member front _ => exact absurd front (none _ _ member)
      | unterminated => rfl
      | unexpected starts notQuote _ =>
          obtain ⟨rfl, _⟩ := List.cons.inj (opens.symm.trans starts)
          contradiction
  | unexpected starts notQuote none =>
      cases other with
      | lexeme member front _ => exact absurd front (none _ _ member)
      | unterminated opens _ =>
          obtain ⟨rfl, _⟩ := List.cons.inj (opens.symm.trans starts)
          contradiction
      | unexpected alsoStarts _ _ =>
          obtain ⟨rfl, _⟩ := List.cons.inj (starts.symm.trans alsoStarts)
          rfl

/-! ## `segments` is the way to cut a text -/

theorem Leads.ne_nil {text : List Char} {s : Segment} (leads : Leads text s) : text ≠ [] := by
  cases leads with
  | lexeme member front _ =>
      intro isEmpty
      subst isEmpty
      exact member.ne_nil (List.prefix_nil.mp front)
  | unterminated opens _ =>
      rw [opens]
      exact List.cons_ne_nil _ _
  | unexpected starts _ _ =>
      rw [starts]
      exact List.cons_ne_nil _ _

theorem cuts_segments (text : List Char) : Cuts text (segments text) := by
  fun_induction segments text with
  | case1 => exact .done
  | case2 c rest inductionHypothesis =>
      exact .next (cut_append c rest).symm (leads_cut c rest) inductionHypothesis

theorem Cuts.unique {text : List Char} {first : List Segment} (one : Cuts text first) :
    ∀ second, Cuts text second → first = second := by
  induction one with
  | done =>
      intro second other
      cases other with
      | done => rfl
      | next _ leads _ => exact absurd rfl leads.ne_nil
  | next splits leads _ inductionHypothesis =>
      intro second other
      cases other with
      | done => exact absurd rfl leads.ne_nil
      | next splits' leads' tail' =>
          obtain rfl := leads.unique leads'
          obtain rfl := List.append_cancel_left (splits.symm.trans splits')
          rw [inductionHypothesis _ tail']

theorem cuts_iff (text : List Char) (segs : List Segment) :
    Cuts text segs ↔ segs = segments text := by
  constructor
  · intro cuts
    exact cuts.unique (segments text) (cuts_segments text)
  · intro same
    rw [same]
    exact cuts_segments text

/-! ## Scanning -/

/-- Kind and lexeme of the token that a segment is, if it is one. -/
def Segment.word? (s : Segment) : Option (Kind × String) :=
  match s.cls with
  | .token kind => some (kind, String.ofList s.text)
  | _ => none

/-- Kind, lexeme and literal of the token that a segment is, if it is one. -/
def Segment.written? (s : Segment) : Option (Kind × String × Option Value) :=
  match s.cls with
  | .token kind => some (kind, String.ofList s.text, literalOf kind s.text)
  | _ => none

/-- What is said about a segment that is no word. -/
def Segment.complaint? (s : Segment) : Option String :=
  match s.cls with
  | .unterminated => some "Unterminated string."
  | .unexpected => some "Unexpected character."
  | _ => none

theorem Lexeme.ne_eof {kind : Kind} {word : List Char} (lexeme : Lexeme (.token kind) word) :
    kind ≠ .eof := by
  cases lexeme with
  | fixed listed =>
      have noneListed : ∀ entry ∈ fixedSpellings, entry.2 ≠ .eof := by decide
      exact noneListed _ listed
  | keyword reserved =>
      have noWord : ∀ kind ∈ wordKinds, kind ≠ .eof := by decide
      exact noWord _ (mem_wordKinds_of_reserved reserved)
  | string _ => decide
  | integer _ _ => decide
  | decimal _ _ _ _ => decide
  | identifier _ _ _ => decide

theorem Leads.lexeme_of_token {text : List Char} {s : Segment} {kind : Kind}
    (leads : Leads text s) (isToken : s.cls = .token kind) : Lexeme (.token kind) s.text := by
  cases leads with
  | lexeme member _ _ =>
      rw [isToken] at member
      exact member
  | unterminated _ _ => contradiction
  | unexpected _ _ _ => contradiction

theorem exists_leads_of_mem_segments {text : List Char} {s : Segment}
    (member : s ∈ segments text) : ∃ rest, rest <:+ text ∧ Leads rest s := by
  fun_induction segments text with
  | case1 => contradiction
  | case2 c rest inductionHypothesis =>
      rcases List.mem_cons.mp member with rfl | later
      · exact ⟨c :: rest, List.suffix_refl _, leads_cut c rest⟩
      · obtain ⟨behind, suffix, leads⟩ := inductionHypothesis later
        exact ⟨behind, suffix.trans ⟨_, cut_append c rest⟩, leads⟩

theorem token?_word (s : Segment) (line : UInt32) :
    (s.token? line).map (fun t => (t.kind, t.lexeme)) = s.word? := by
  unfold Segment.token? Segment.word?
  cases s.cls <;> rfl

theorem token?_written (s : Segment) (line : UInt32) :
    (s.token? line).map (fun t => (t.kind, t.lexeme, t.literal)) = s.written? := by
  unfold Segment.token? Segment.written?
  cases s.cls <;> rfl

theorem error?_complaint (s : Segment) (line : UInt32) :
    (s.error? line).map (fun e => e.fault.message) = s.complaint? := by
  unfold Segment.error? Segment.complaint?
  cases s.cls <;> rfl

/-- What does not depend on lines can be read off the segments alone. -/
theorem filterMap_placed {Found Seen : Type} (find : Segment → UInt32 → Option Found)
    (see : Found → Seen) (known : Segment → Option Seen)
    (agree : ∀ s line, (find s line).map see = known s) (segs : List Segment) :
    ∀ line, ((placed line segs).filterMap (fun p => find p.1 p.2)).map see =
      segs.filterMap known := by
  induction segs with
  | nil =>
      intro line
      rfl
  | cons s rest inductionHypothesis =>
      intro line
      have own := agree s (line + s.lines)
      simp only [placed, List.filterMap_cons]
      cases found : find s (line + s.lines) with
      | none =>
          rw [found] at own
          rw [← own]
          exact inductionHypothesis _
      | some x =>
          rw [found] at own
          rw [← own]
          exact congrArg (see x :: ·) (inductionHypothesis _)

theorem mem_of_mem_placed {segs : List Segment} {p : Segment × UInt32} :
    ∀ {line : UInt32}, p ∈ placed line segs → p.1 ∈ segs := by
  induction segs with
  | nil =>
      intro line member
      contradiction
  | cons s rest inductionHypothesis =>
      intro line member
      rcases List.mem_cons.mp member with rfl | later
      · exact List.mem_cons_self
      · exact List.mem_cons_of_mem s (inductionHypothesis later)

end LoxCalc
