import LoxCalc.Source.Segment

/-!
Contract: which texts belong to which lexical class.

Owns:
- `fixedSpellings` and `reservedWords`, the words that are listed one by one;
- `Lexeme`, the words of every class, without any scanning;
- `Initial`, what a first character says about the words it starts;
- `lexeme_cons_iff`, the words of all classes sorted by their first character.

Does **not** own: which of several words a text is cut at.
-/

set_option autoImplicit false

namespace LoxCalc

open Segment

/-! ## Characters -/

/-- The ASCII digits. -/
def Digit (c : Char) : Prop := '0' ≤ c ∧ c ≤ '9'

/-- The ASCII letters and the underscore. -/
def WordStart (c : Char) : Prop :=
  ('A' ≤ c ∧ c ≤ 'Z') ∨ ('a' ≤ c ∧ c ≤ 'z') ∨ c = '_'

/-- The ASCII letters, digits and the underscore. -/
def WordPart (c : Char) : Prop := WordStart c ∨ Digit c

theorem isDigit_iff (c : Char) : c.isDigit = true ↔ Digit c := by
  unfold Digit Char.isDigit
  simp [Char.le_def]

theorem isWordStart_iff (c : Char) : isWordStart c = true ↔ WordStart c := by
  unfold WordStart isWordStart Char.isAlpha Char.isUpper Char.isLower
  simp [Char.le_def, or_assoc]

theorem isWordPart_iff (c : Char) : isWordPart c = true ↔ WordPart c := by
  unfold WordPart isWordPart
  rw [Bool.or_eq_true, isWordStart_iff, isDigit_iff]

instance (c : Char) : Decidable (Digit c) :=
  decidable_of_iff (c.isDigit = true) (isDigit_iff c)

instance (c : Char) : Decidable (WordStart c) :=
  decidable_of_iff (isWordStart c = true) (isWordStart_iff c)

instance (c : Char) : Decidable (WordPart c) :=
  decidable_of_iff (isWordPart c = true) (isWordPart_iff c)

theorem Digit.not_wordStart {c : Char} (digit : Digit c) : ¬ WordStart c := by
  intro start
  rcases start with ⟨fromUpper, _⟩ | ⟨fromLower, _⟩ | rfl
  · exact absurd (Char.le_trans fromUpper digit.2) (by decide)
  · exact absurd (Char.le_trans fromLower digit.2) (by decide)
  · exact absurd digit (by decide)

/-! ## The classes -/

/-- The tokens that are always spelled the same way and are no words. -/
def fixedSpellings : List (List Char × Kind) :=
  [(['('], .leftParen), ([')'], .rightParen), (['{'], .leftBrace), (['}'], .rightBrace),
    ([','], .comma), (['.'], .dot), (['-'], .minus), (['+'], .plus), ([';'], .semicolon),
    (['/'], .slash), (['*'], .star), (['!'], .bang), (['!', '='], .bangEqual),
    (['='], .equal), (['=', '='], .equalEqual), (['<'], .less), (['<', '='], .lessEqual),
    (['>'], .greater), (['>', '='], .greaterEqual)]

/-- The words that are no names. -/
def reservedWords : List (String × Kind) :=
  [("nil", .kwNil), ("true", .kwTrue), ("false", .kwFalse), ("and", .kwAnd), ("or", .kwOr),
    ("if", .kwIf), ("else", .kwElse), ("while", .kwWhile), ("for", .kwFor),
    ("print", .kwPrint), ("return", .kwReturn), ("var", .kwVar), ("fun", .kwFun),
    ("class", .kwClass), ("this", .kwThis), ("super", .kwSuper)]

/-- The words of every lexical class. -/
inductive Lexeme : SegmentClass → List Char → Prop where
  | fixed {spelling : List Char} {kind : Kind} (listed : (spelling, kind) ∈ fixedSpellings) :
      Lexeme (.token kind) spelling
  | comment {body : List Char} (oneLine : '\n' ∉ body) :
      Lexeme .comment ('/' :: '/' :: body)
  | blank {c : Char} (separates : c ∈ [' ', '\r', '\t', '\n']) : Lexeme .blank [c]
  | string {body : List Char} (unquoted : '"' ∉ body) :
      Lexeme (.token .string) ('"' :: (body ++ ['"']))
  | integer {digits : List Char} (nonempty : digits ≠ []) (all : ∀ d ∈ digits, Digit d) :
      Lexeme (.token .number) digits
  | decimal {whole fraction : List Char} (wholeNonempty : whole ≠ [])
      (fractionNonempty : fraction ≠ []) (wholeDigits : ∀ d ∈ whole, Digit d)
      (fractionDigits : ∀ d ∈ fraction, Digit d) :
      Lexeme (.token .number) (whole ++ '.' :: fraction)
  | keyword {word : List Char} {kind : Kind}
      (reserved : (String.ofList word, kind) ∈ reservedWords) : Lexeme (.token kind) word
  | identifier {first : Char} {rest : List Char} (start : WordStart first)
      (parts : ∀ d ∈ rest, WordPart d)
      (free : ∀ kind, (String.ofList (first :: rest), kind) ∉ reservedWords) :
      Lexeme (.token .identifier) (first :: rest)

/-! ## First characters -/

/-- What a first character can be the start of. -/
inductive Initial where
  | symbol (kind : Kind)
  | joinable (alone joined : Kind)
  | slash
  | blank
  | quote
  | digit
  | word
deriving DecidableEq

def Initial.Starts (c : Char) : Initial → Prop
  | .symbol kind => symbol? c = some kind
  | .joinable alone joined => joinable? c = some (alone, joined)
  | .slash => c = '/'
  | .blank => c ∈ [' ', '\r', '\t', '\n']
  | .quote => c = '"'
  | .digit => Digit c
  | .word => WordStart c

/-- What a character starts, if any word starts with it. -/
def initial? (c : Char) : Option Initial :=
  match symbol? c, joinable? c with
  | some kind, _ => some (.symbol kind)
  | none, some (alone, joined) => some (.joinable alone joined)
  | none, none =>
      if c = '/' then some .slash
      else if isBlank c then some .blank
      else if c = '"' then some .quote
      else if Digit c then some .digit
      else if WordStart c then some .word
      else none

/-- The rests that complete a first character to a word of a class. -/
def Initial.Completes (c : Char) : Initial → SegmentClass → List Char → Prop
  | .symbol kind, cls, rest => cls = .token kind ∧ rest = []
  | .joinable alone joined, cls, rest =>
      (cls = .token alone ∧ rest = []) ∨ (cls = .token joined ∧ rest = ['='])
  | .slash, cls, rest =>
      (cls = .token .slash ∧ rest = []) ∨
        (cls = .comment ∧ ∃ body, rest = '/' :: body ∧ '\n' ∉ body)
  | .blank, cls, rest => cls = .blank ∧ rest = []
  | .quote, cls, rest =>
      cls = .token .string ∧ ∃ body, rest = body ++ ['"'] ∧ '"' ∉ body
  | .digit, cls, rest =>
      cls = .token .number ∧
        ((∀ d ∈ rest, Digit d) ∨
          ∃ whole fraction, rest = whole ++ '.' :: fraction ∧ (∀ d ∈ whole, Digit d) ∧
            fraction ≠ [] ∧ ∀ d ∈ fraction, Digit d)
  | .word, cls, rest =>
      cls = .token (Kind.ofWord (String.ofList (c :: rest))) ∧ ∀ d ∈ rest, WordPart d

theorem isBlank_iff (c : Char) : isBlank c = true ↔ c ∈ [' ', '\r', '\t', '\n'] := by
  simp [isBlank, or_assoc]

theorem symbol?_of_joinable? {c : Char} {kinds : Kind × Kind}
    (isJoinable : joinable? c = some kinds) : symbol? c = none := by
  unfold joinable? at isJoinable
  split at isJoinable <;> first | rfl | contradiction

/-- Letters, digits and the underscore are no punctuation. -/
theorem initial?_of_wordPart {c : Char} (part : WordPart c) :
    initial? c = if Digit c then some .digit else some .word := by
  have noSymbol : symbol? c = none := by
    unfold symbol?
    split <;> first | rfl | exact absurd part (by decide)
  have noJoinable : joinable? c = none := by
    unfold joinable?
    split <;> first | rfl | exact absurd part (by decide)
  have notSlash : c ≠ '/' := by
    intro same
    subst same
    exact absurd part (by decide)
  have notBlank : isBlank c = false := by
    rw [Bool.eq_false_iff, Ne, isBlank_iff]
    intro blank
    simp only [List.mem_cons, List.not_mem_nil, or_false] at blank
    rcases blank with rfl | rfl | rfl | rfl <;> exact absurd part (by decide)
  have notQuote : c ≠ '"' := by
    intro same
    subst same
    exact absurd part (by decide)
  unfold initial?
  rw [noSymbol, noJoinable]
  simp only [notSlash, notBlank, notQuote, ↓reduceIte, Bool.false_eq_true]
  by_cases digit : Digit c
  · rw [if_pos digit, if_pos digit]
  · rw [if_neg digit, if_neg digit, if_pos (part.resolve_right digit)]

/-- A character is the start of at most one kind of word. -/
theorem initial?_eq_some_iff (c : Char) (i : Initial) : initial? c = some i ↔ i.Starts c := by
  constructor
  · intro starts
    unfold initial? at starts
    split at starts
    · rename_i isSymbol
      obtain rfl := Option.some.inj starts
      exact isSymbol
    · rename_i isJoinable
      obtain rfl := Option.some.inj starts
      exact isJoinable
    · -- The chain of tests, in the order of `initial?`.
      repeat' split at starts
      all_goals first
        | cases starts
          done
        | obtain rfl := Option.some.inj starts
      · assumption
      · exact (isBlank_iff c).mp (by assumption)
      all_goals assumption
  · intro starts
    cases i with
    | symbol kind =>
        have isSymbol : symbol? c = some kind := starts
        unfold initial?
        rw [isSymbol]
    | joinable alone joined =>
        have isJoinable : joinable? c = some (alone, joined) := starts
        have noSymbol := symbol?_of_joinable? isJoinable
        unfold initial?
        rw [isJoinable, noSymbol]
    | slash =>
        obtain rfl : c = '/' := starts
        rfl
    | blank =>
        simp only [Initial.Starts, List.mem_cons, List.not_mem_nil, or_false] at starts
        rcases starts with rfl | rfl | rfl | rfl <;> rfl
    | quote =>
        obtain rfl : c = '"' := starts
        rfl
    | digit =>
        have digit : Digit c := starts
        rw [initial?_of_wordPart (.inr digit), if_pos digit]
    | word =>
        have noDigit : ¬ Digit c := fun digit => digit.not_wordStart starts
        rw [initial?_of_wordPart (.inl starts), if_neg noDigit]

/-! ## Words of the fixed spellings -/

theorem symbol?_listed {c : Char} {kind : Kind} (isSymbol : symbol? c = some kind) :
    ([c], kind) ∈ fixedSpellings := by
  unfold symbol? at isSymbol
  split at isSymbol <;> first | (obtain rfl := Option.some.inj isSymbol; decide) | contradiction

theorem joinable?_listed {c : Char} {alone joined : Kind}
    (isJoinable : joinable? c = some (alone, joined)) :
    ([c], alone) ∈ fixedSpellings ∧ ([c, '='], joined) ∈ fixedSpellings := by
  unfold joinable? at isJoinable
  split at isJoinable <;> first | (cases isJoinable; decide) | contradiction

theorem fixedSpellings_completes {spelling : List Char} {kind : Kind}
    (listed : (spelling, kind) ∈ fixedSpellings) :
    ∃ c rest i, spelling = c :: rest ∧ initial? c = some i ∧
      i.Completes c (.token kind) rest := by
  simp only [fixedSpellings, List.mem_cons, Prod.mk.injEq, List.not_mem_nil, or_false]
    at listed
  rcases listed with h | h | h | h | h | h | h | h | h | h | h | h | h | h | h | h | h | h | h <;>
    obtain ⟨rfl, rfl⟩ := h <;> refine ⟨_, _, _, rfl, rfl, ?_⟩ <;> simp [Initial.Completes]

/-! ## Words of letters -/

theorem reservedWords_wellSpelled {word : String} {kind : Kind}
    (reserved : (word, kind) ∈ reservedWords) :
    ∃ first rest, word.toList = first :: rest ∧ WordStart first ∧ ∀ d ∈ rest, WordPart d := by
  have starts : ∀ entry ∈ reservedWords, entry.1.toList.head?.any isWordStart = true := by
    decide
  have continues : ∀ entry ∈ reservedWords, entry.1.toList.tail.all isWordPart = true := by
    decide
  have wordStarts := starts (word, kind) reserved
  have wordContinues := continues (word, kind) reserved
  cases isWord : word.toList with
  | nil =>
      rw [isWord] at wordStarts
      contradiction
  | cons first rest =>
      rw [isWord] at wordStarts wordContinues
      refine ⟨first, rest, rfl, (isWordStart_iff first).mp wordStarts, ?_⟩
      intro d member
      exact (isWordPart_iff d).mp (List.all_eq_true.mp wordContinues d member)

theorem ofWord_of_reserved {word : String} {kind : Kind}
    (reserved : (word, kind) ∈ reservedWords) : Kind.ofWord word = kind := by
  have agree : ∀ entry ∈ reservedWords, Kind.ofWord entry.1 = entry.2 := by decide
  exact agree (word, kind) reserved

/-- No keyword is known that is not listed. -/
theorem ofWord_of_free {word : String} (free : ∀ kind, (word, kind) ∉ reservedWords) :
    Kind.ofWord word = .identifier := by
  have allListed : ∀ entry ∈ Kind.keywords, entry ∈ reservedWords := by decide
  have absent : Kind.keywords.lookup word = none := by
    rw [List.lookup_eq_none_iff]
    intro entry known
    rw [bne_iff_ne]
    intro same
    subst same
    exact free entry.2 (allListed entry known)
  unfold Kind.ofWord
  rw [absent, Option.getD_none]

/-- The kinds that a word of letters can have. -/
def wordKinds : List Kind := .identifier :: reservedWords.map Prod.snd

theorem mem_wordKinds_of_reserved {word : String} {kind : Kind}
    (reserved : (word, kind) ∈ reservedWords) : kind ∈ wordKinds :=
  List.mem_cons_of_mem _ (List.mem_map_of_mem reserved)

/-- A word is listed with its kind, or it is an identifier. -/
theorem ofWord_cases (word : String) :
    (word, Kind.ofWord word) ∈ reservedWords ∨
      Kind.ofWord word = .identifier ∧ ∀ kind, (word, kind) ∉ reservedWords := by
  by_cases free : ∀ kind, (word, kind) ∉ reservedWords
  · exact .inr ⟨ofWord_of_free free, free⟩
  · obtain ⟨kind, reserved⟩ := Classical.not_forall.mp free
    have reserved := Classical.not_not.mp reserved
    rw [ofWord_of_reserved reserved]
    exact .inl reserved

theorem ofWord_mem_wordKinds (word : String) : Kind.ofWord word ∈ wordKinds := by
  rcases ofWord_cases word with reserved | ⟨isIdentifier, _⟩
  · exact mem_wordKinds_of_reserved reserved
  · rw [isIdentifier]
    exact List.mem_cons_self

/-- A word of letters belongs to the class of its keyword, or to that of identifiers. -/
theorem lexeme_word {first : Char} {rest : List Char} (start : WordStart first)
    (parts : ∀ d ∈ rest, WordPart d) :
    Lexeme (.token (Kind.ofWord (String.ofList (first :: rest)))) (first :: rest) := by
  rcases ofWord_cases (String.ofList (first :: rest)) with reserved | ⟨isIdentifier, free⟩
  · exact .keyword reserved
  · rw [isIdentifier]
    exact .identifier start parts free

/-! ## Words by their first character -/

theorem Lexeme.exists_completes {cls : SegmentClass} {word : List Char}
    (lexeme : Lexeme cls word) :
    ∃ c rest i, word = c :: rest ∧ initial? c = some i ∧ i.Completes c cls rest := by
  cases lexeme with
  | fixed listed => exact fixedSpellings_completes listed
  | @comment body oneLine =>
      exact ⟨'/', '/' :: body, .slash, rfl, rfl, .inr ⟨rfl, body, rfl, oneLine⟩⟩
  | @blank c separates =>
      exact ⟨c, [], .blank, rfl, (initial?_eq_some_iff c .blank).mpr separates, rfl, rfl⟩
  | @string body unquoted =>
      exact ⟨'"', body ++ ['"'], .quote, rfl, rfl, rfl, body, rfl, unquoted⟩
  | integer nonempty all =>
      obtain ⟨c, rest, rfl⟩ := List.exists_cons_of_ne_nil nonempty
      obtain ⟨digit, digits⟩ := List.forall_mem_cons.mp all
      exact ⟨c, rest, .digit, rfl, (initial?_eq_some_iff c .digit).mpr digit, rfl, .inl digits⟩
  | @decimal whole fraction wholeNonempty fractionNonempty wholeDigits fractionDigits =>
      obtain ⟨c, rest, rfl⟩ := List.exists_cons_of_ne_nil wholeNonempty
      obtain ⟨digit, digits⟩ := List.forall_mem_cons.mp wholeDigits
      exact ⟨c, rest ++ '.' :: fraction, .digit, rfl,
        (initial?_eq_some_iff c .digit).mpr digit, rfl,
        .inr ⟨rest, fraction, rfl, digits, fractionNonempty, fractionDigits⟩⟩
  | @keyword word kind reserved =>
      obtain ⟨c, rest, spelled, start, parts⟩ := reservedWords_wellSpelled reserved
      rw [String.toList_ofList] at spelled
      subst spelled
      have own := ofWord_of_reserved reserved
      exact ⟨c, rest, .word, rfl, (initial?_eq_some_iff c .word).mpr start,
        by rw [own], parts⟩
  | @identifier first rest start parts free =>
      have own := ofWord_of_free free
      exact ⟨first, rest, .word, rfl, (initial?_eq_some_iff first .word).mpr start,
        by rw [own], parts⟩

theorem Initial.Completes.lexeme {c : Char} {i : Initial} {cls : SegmentClass}
    {rest : List Char} (starts : initial? c = some i) (completes : i.Completes c cls rest) :
    Lexeme cls (c :: rest) := by
  rw [initial?_eq_some_iff] at starts
  cases i with
  | symbol kind =>
      obtain ⟨rfl, rfl⟩ := completes
      exact .fixed (symbol?_listed starts)
  | joinable alone joined =>
      obtain ⟨aloneListed, joinedListed⟩ := joinable?_listed starts
      rcases completes with ⟨rfl, rfl⟩ | ⟨rfl, rfl⟩
      · exact .fixed aloneListed
      · exact .fixed joinedListed
  | slash =>
      obtain rfl : c = '/' := starts
      rcases completes with ⟨rfl, rfl⟩ | ⟨rfl, body, rfl, oneLine⟩
      · exact .fixed (by decide)
      · exact .comment oneLine
  | blank =>
      obtain ⟨rfl, rfl⟩ := completes
      exact .blank starts
  | quote =>
      obtain rfl : c = '"' := starts
      obtain ⟨rfl, body, rfl, unquoted⟩ := completes
      exact .string unquoted
  | digit =>
      obtain ⟨rfl, digits | ⟨whole, fraction, rfl, wholeDigits, nonempty, fractionDigits⟩⟩ :=
        completes
      · exact .integer (List.cons_ne_nil c rest) (List.forall_mem_cons.mpr ⟨starts, digits⟩)
      · exact .decimal (List.cons_ne_nil c whole) nonempty
          (List.forall_mem_cons.mpr ⟨starts, wholeDigits⟩) fractionDigits
  | word =>
      obtain ⟨rfl, parts⟩ := completes
      exact lexeme_word starts parts

theorem lexeme_cons_iff (cls : SegmentClass) (c : Char) (rest : List Char) :
    Lexeme cls (c :: rest) ↔ ∃ i, initial? c = some i ∧ i.Completes c cls rest := by
  constructor
  · intro lexeme
    obtain ⟨first, others, i, same, starts, completes⟩ := lexeme.exists_completes
    cases same
    exact ⟨i, starts, completes⟩
  · intro completed
    rcases completed with ⟨i, starts, completes⟩
    exact completes.lexeme starts

theorem Lexeme.ne_nil {cls : SegmentClass} {word : List Char} (lexeme : Lexeme cls word) :
    word ≠ [] := by
  obtain ⟨c, rest, _, rfl, _⟩ := lexeme.exists_completes
  exact List.cons_ne_nil c rest

/-- A completed first character is a word of one class only. -/
theorem Initial.Completes.cls_unique {c : Char} {i : Initial} {first second : SegmentClass}
    {rest : List Char} (one : i.Completes c first rest) (other : i.Completes c second rest) :
    first = second := by
  cases i with
  | joinable alone joined =>
      rcases one with ⟨rfl, rfl⟩ | ⟨rfl, rfl⟩ <;> rcases other with ⟨rfl, same⟩ | ⟨rfl, same⟩
      all_goals first | rfl | contradiction
  | slash =>
      rcases one with ⟨rfl, rfl⟩ | ⟨rfl, body, rfl, _⟩ <;>
        rcases other with ⟨rfl, same⟩ | ⟨rfl, _, same, _⟩
      all_goals first | rfl | contradiction
  | symbol kind => exact one.1.trans other.1.symm
  | blank => exact one.1.trans other.1.symm
  | quote => exact one.1.trans other.1.symm
  | digit => exact one.1.trans other.1.symm
  | word => exact one.1.trans other.1.symm

theorem Lexeme.cls_unique {first second : SegmentClass} {word : List Char}
    (one : Lexeme first word) (other : Lexeme second word) : first = second := by
  obtain ⟨c, rest, i, rfl, starts, completes⟩ := one.exists_completes
  obtain ⟨j, alsoStarts, alsoCompletes⟩ := (lexeme_cons_iff second c rest).mp other
  obtain rfl : i = j := Option.some.inj (starts.symm.trans alsoStarts)
  exact completes.cls_unique alsoCompletes

end LoxCalc
