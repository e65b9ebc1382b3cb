import LoxCalc.Proofs.Double.Denotation
import LoxCalc.Proofs.Layout
import LoxCalc.Proofs.Parse.Acceptance

/-!
Contract: the written form of a tree without strings says which tree it is.

Owns:
- `Expr.Legible`, the trees without strings whose operators are spelled as they are scanned;
- `Value.text_injective`, that values other than strings are written differently;
- `Expr.written`, the characters of the written form, with `Legible.written_inj`, that a text
  starts with one tree at most;
- `legible_of_move`, that the trees without strings that are read from a source are legible;
- `printing_faithful`.

No word has a space or a parenthesis in it, and behind a tree there is a space, a closing
parenthesis or the end. So a written tree is no proper part of the front of another one.
-/

set_option autoImplicit false

namespace LoxCalc

open Double Parse Grammar

/-! ## Trees -/

/-- An operator of one of some kinds, as it is scanned. -/
structure Token.SpelledAs (kinds : List Kind) (t : Token) : Prop where
  kind : t.kind ∈ kinds
  lexeme : (t.lexeme.toList, t.kind) ∈ fixedSpellings
  literal : t.literal = none

/-- The kinds of prefix operators. -/
def prefixKinds : List Kind := [.bang, .minus]

/-- The trees without strings whose operators are of the kinds of their forms and are spelled
as they are scanned. -/
inductive Expr.Legible : Expr → Prop where
  | literal {value : Value} (stringFree : ∀ s, value ≠ .string s) : Legible (.literal value)
  | grouping {inner : Expr} (inside : Legible inner) : Legible (.grouping inner)
  | unary {operator : Token} {operand : Expr} (spelled : operator.SpelledAs prefixKinds)
      (inside : Legible operand) : Legible (.unary operator operand)
  | binary {left right : Expr} {operator : Token} (before : Legible left)
      (spelled : operator.SpelledAs infixKinds) (after : Legible right) :
      Legible (.binary left operator right)

namespace Expr

/-- The name of a grouping, which no operator has. -/
def groupWord : List Char := "group".toList

/-- The characters of the written form. -/
def written : Expr → List Char
  | .literal value => value.text.toList
  | .grouping inner => '(' :: (groupWord ++ ' ' :: (inner.written ++ [')']))
  | .unary operator operand =>
      '(' :: (operator.lexeme.toList ++ ' ' :: (operand.written ++ [')']))
  | .binary left operator right =>
      '(' :: (operator.lexeme.toList ++
        ' ' :: (left.written ++ ' ' :: (right.written ++ [')'])))

theorem toList_text (e : Expr) : e.text.toList = e.written := by
  induction e with
  | literal value => rfl
  | grouping inner inductionHypothesis =>
      simp [text, written, groupWord, inductionHypothesis]
  | unary operator operand inductionHypothesis =>
      simp [text, written, inductionHypothesis]
  | binary left operator right leftHypothesis rightHypothesis =>
      simp [text, written, leftHypothesis, rightHypothesis]

theorem grouping_append (inner : Expr) (rest : List Char) :
    (grouping inner).written ++ rest =
      '(' :: (groupWord ++ ' ' :: (inner.written ++ ')' :: rest)) := by
  simp [written]

theorem unary_append (operator : Token) (operand : Expr) (rest : List Char) :
    (unary operator operand).written ++ rest =
      '(' :: (operator.lexeme.toList ++ ' ' :: (operand.written ++ ')' :: rest)) := by
  simp [written]

theorem binary_append (left : Expr) (operator : Token) (right : Expr) (rest : List Char) :
    (binary left operator right).written ++ rest =
      '(' :: (operator.lexeme.toList ++
        ' ' :: (left.written ++ ' ' :: (right.written ++ ')' :: rest))) := by
  simp [written]

end Expr

/-! ## Words -/

/-- The characters that stand between words. -/
def separators : List Char := [' ', '(', ')']

/-- A run of characters with no separator among them. -/
def Unbroken (word : List Char) : Prop := ∀ c ∈ word, c ∉ separators

instance (word : List Char) : Decidable (Unbroken word) :=
  List.decidableBAll (fun c => c ∉ separators) word

/-- Nothing, or a text that goes on behind a tree. -/
def Behind (rest : List Char) : Prop := ∀ c ∈ rest.head?, c = ' ' ∨ c = ')'

theorem behind_space (rest : List Char) : Behind (' ' :: rest) := by
  simp [Behind]

theorem behind_closing (rest : List Char) : Behind (')' :: rest) := by
  simp [Behind]

theorem Behind.stops {rest : List Char} (behind : Behind rest) :
    ∀ c ∈ rest.head?, ¬ c ∉ separators := by
  intro c atHead
  rcases behind c atHead with rfl | rfl <;> simp [separators]

theorem Unbroken.append_inj {word word' rest rest' : List Char} (unbroken : Unbroken word)
    (unbroken' : Unbroken word') (behind : Behind rest) (behind' : Behind rest')
    (same : word ++ rest = word' ++ rest') : word = word' ∧ rest = rest' :=
  append_inj_of_stops unbroken unbroken' behind.stops behind'.stops same

/-- A word is no parenthesis. -/
theorem Unbroken.append_ne_opening {word rest : List Char} (unbroken : Unbroken word)
    (behind : Behind rest) (inside : List Char) : word ++ rest ≠ '(' :: inside := by
  intro same
  have stops : ∀ c ∈ ('(' :: inside).head?, ¬ c ∉ separators := by simp [separators]
  obtain ⟨rfl, rfl⟩ := append_inj_of_stops (p := fun c => c ∉ separators) unbroken
    (List.forall_mem_nil _) behind.stops stops (same.trans (List.nil_append _).symm)
  have opening := behind '(' rfl
  simp at opening

/-! ## Literals -/

theorem unbroken_chars (x : Float) : Unbroken (chars x) := by
  intro c member separates
  have written := numberChar_of_mem_chars member
  simp only [separators, List.mem_cons, List.not_mem_nil, or_false] at separates
  rcases separates with rfl | rfl | rfl <;> exact absurd written (by decide)

/-- The words for values that are no numbers. -/
def valueWords : List String := ["nil", "true", "false"]

/-- Each of them has a letter that no number is written with. -/
theorem chars_ne_word (x : Float) {word : String} (listed : word ∈ valueWords) :
    chars x ≠ word.toList := by
  have lacks : ∀ {c : Char}, ¬ NumberChar c → c ∉ chars x := fun other member =>
    other (numberChar_of_mem_chars member)
  have noL : 'l' ∉ chars x := lacks (by decide)
  have noT : 't' ∉ chars x := lacks (by decide)
  intro same
  simp only [valueWords, List.mem_cons, List.not_mem_nil, or_false] at listed
  rcases listed with rfl | rfl | rfl
  · exact noL (same ▸ by decide)
  · exact noT (same ▸ by decide)
  · exact noL (same ▸ by decide)

/-- A value that is no string is a number or has a word of its own. -/
theorem Value.number_or_word {v : Value} (stringFree : ∀ s, v ≠ .string s) :
    (∃ x, v = .number x ∧ v.text.toList = chars x) ∨
      v ∈ [.nil, .bool true, .bool false] ∧ v.text ∈ valueWords := by
  cases v with
  | nil => exact .inr (by decide)
  | bool b => cases b <;> exact .inr (by decide)
  | number x => exact .inl ⟨x, rfl, String.toList_ofList⟩
  | string s => exact absurd rfl (stringFree s)

theorem Value.unbroken_text {v : Value} (stringFree : ∀ s, v ≠ .string s) :
    Unbroken v.text.toList := by
  rcases Value.number_or_word stringFree with ⟨x, _, isText⟩ | ⟨_, isWord⟩
  · rw [isText]
    exact unbroken_chars x
  · have unbroken : ∀ word ∈ valueWords, Unbroken word.toList := by decide +kernel
    exact unbroken _ isWord

/-- **Values other than strings are written differently.** -/
theorem Value.text_injective {v w : Value} (stringFree : ∀ s, v ≠ .string s)
    (stringFree' : ∀ s, w ≠ .string s) (same : v.text.toList = w.text.toList) : v = w := by
  rcases Value.number_or_word stringFree with ⟨x, rfl, isText⟩ | ⟨isConstant, isWord⟩
  · rcases Value.number_or_word stringFree' with ⟨y, rfl, isText'⟩ | ⟨_, isWord'⟩
    · rw [isText, isText'] at same
      rw [chars_injective same]
    · exact absurd (isText.symm.trans same) (chars_ne_word x isWord')
  · rcases Value.number_or_word stringFree' with ⟨y, rfl, isText'⟩ | ⟨isConstant', _⟩
    · exact absurd (isText'.symm.trans same.symm) (chars_ne_word y isWord)
    · have apart : ∀ v ∈ [Value.nil, .bool true, .bool false],
          ∀ w ∈ [Value.nil, .bool true, .bool false], v.text.toList = w.text.toList → v = w := by
        decide +kernel
      exact apart v isConstant w isConstant' same

/-! ## Operators -/

theorem unbroken_groupWord : Unbroken Expr.groupWord := by
  decide +kernel

section

variable {kinds kinds' : List Kind} {t u : Token}

theorem Token.SpelledAs.ne_groupWord (spelled : t.SpelledAs kinds) :
    Expr.groupWord ≠ t.lexeme.toList := by
  have noneListed : ∀ entry ∈ fixedSpellings, Expr.groupWord ≠ entry.1 := by decide +kernel
  exact noneListed _ spelled.lexeme

theorem Token.SpelledAs.unbroken (spelled : t.SpelledAs kinds)
    (noParentheses : ∀ kind ∈ kinds, kind ≠ .leftParen ∧ kind ≠ .rightParen) :
    Unbroken t.lexeme.toList := by
  have listed : ∀ entry ∈ fixedSpellings, entry.2 ≠ .leftParen ∧ entry.2 ≠ .rightParen →
      Unbroken entry.1 := by decide +kernel
  exact listed _ spelled.lexeme (noParentheses _ spelled.kind)

theorem Token.SpelledAs.unbroken_prefix (spelled : t.SpelledAs prefixKinds) :
    Unbroken t.lexeme.toList :=
  spelled.unbroken (by decide)

theorem Token.SpelledAs.unbroken_infix (spelled : t.SpelledAs infixKinds) :
    Unbroken t.lexeme.toList :=
  spelled.unbroken (by decide)

/-- Operators with one lexeme are the same up to their lines. -/
theorem Token.SpelledAs.sameWord (spelled : t.SpelledAs kinds) (spelled' : u.SpelledAs kinds')
    (same : t.lexeme.toList = u.lexeme.toList) : SameWord t u := by
  have apart : ∀ entry ∈ fixedSpellings, ∀ other ∈ fixedSpellings,
      entry.1 = other.1 → entry.2 = other.2 := by decide +kernel
  exact ⟨apart _ spelled.lexeme _ spelled'.lexeme same, String.toList_inj.mp same,
    spelled.literal.trans spelled'.literal.symm⟩

end

/-! ## Unique reading -/

/-- Two forms in parentheses with the same text have the same head. -/
theorem head_inj {head head' body body' : List Char} (unbroken : Unbroken head)
    (unbroken' : Unbroken head')
    (same : '(' :: (head ++ ' ' :: body) = '(' :: (head' ++ ' ' :: body')) :
    head = head' ∧ body = body' := by
  obtain ⟨sameHead, sameBody⟩ := unbroken.append_inj unbroken' (behind_space body)
    (behind_space body') (List.cons.inj same).2
  exact ⟨sameHead, (List.cons.inj sameBody).2⟩

namespace Expr

/-- **A text starts with one tree at most.** Induction on the first tree, for every text behind
it: equal texts have equal heads, the first operands are the same tree with the same text behind
it, and that text starts with a space exactly if there is a second operand. -/
theorem Legible.written_inj {e : Expr} (legible : e.Legible) :
    ∀ {e' : Expr} {rest rest' : List Char}, e'.Legible → Behind rest → Behind rest' →
      e.written ++ rest = e'.written ++ rest' → Expr.Alike SameWord e e' ∧ rest = rest' := by
  induction legible with
  | literal stringFree =>
      intro e' rest rest' legible' behind behind' same
      have unbroken := Value.unbroken_text stringFree
      have noForm := unbroken.append_ne_opening behind
      cases legible' with
      | literal stringFree' =>
          obtain ⟨sameText, sameRest⟩ :=
            unbroken.append_inj (Value.unbroken_text stringFree') behind behind' same
          exact ⟨Value.text_injective stringFree stringFree' sameText ▸ .literal _, sameRest⟩
      | grouping _ => exact absurd (same.trans (grouping_append _ _)) (noForm _)
      | unary _ _ => exact absurd (same.trans (unary_append _ _ _)) (noForm _)
      | binary _ _ _ => exact absurd (same.trans (binary_append _ _ _ _)) (noForm _)
  | @grouping inner _ inductionHypothesis =>
      intro e' rest rest' legible' behind behind' same
      rw [grouping_append] at same
      cases legible' with
      | literal stringFree' =>
          exact absurd same.symm
            ((Value.unbroken_text stringFree').append_ne_opening behind' _)
      | grouping inside' =>
          rw [grouping_append] at same
          obtain ⟨_, sameBody⟩ := head_inj unbroken_groupWord unbroken_groupWord same
          obtain ⟨alike, sameRest⟩ := inductionHypothesis inside' (behind_closing rest)
            (behind_closing rest') sameBody
          exact ⟨.grouping alike, (List.cons.inj sameRest).2⟩
      | unary spelled' _ =>
          rw [unary_append] at same
          exact absurd (head_inj unbroken_groupWord spelled'.unbroken_prefix same).1
            spelled'.ne_groupWord
      | binary _ spelled' _ =>
          rw [binary_append] at same
          exact absurd (head_inj unbroken_groupWord spelled'.unbroken_infix same).1
            spelled'.ne_groupWord
  | @unary operator operand spelled _ inductionHypothesis =>
      intro e' rest rest' legible' behind behind' same
      rw [unary_append] at same
      cases legible' with
      | literal stringFree' =>
          exact absurd same.symm
            ((Value.unbroken_text stringFree').append_ne_opening behind' _)
      | grouping _ =>
          rw [grouping_append] at same
          exact absurd (head_inj spelled.unbroken_prefix unbroken_groupWord same).1.symm
            spelled.ne_groupWord
      | unary spelled' inside' =>
          rw [unary_append] at same
          obtain ⟨sameHead, sameBody⟩ :=
            head_inj spelled.unbroken_prefix spelled'.unbroken_prefix same
          obtain ⟨alike, sameRest⟩ := inductionHypothesis inside' (behind_closing rest)
            (behind_closing rest') sameBody
          exact ⟨.unary (spelled.sameWord spelled' sameHead) alike, (List.cons.inj sameRest).2⟩
      | binary before' spelled' _ =>
          rw [binary_append] at same
          obtain ⟨_, sameBody⟩ := head_inj spelled.unbroken_prefix spelled'.unbroken_infix same
          obtain ⟨_, sameRest⟩ := inductionHypothesis before' (behind_closing rest)
            (behind_space _) sameBody
          exact absurd (List.cons.inj sameRest).1 (by decide)
  | @binary left right operator _ spelled _ leftHypothesis rightHypothesis =>
      intro e' rest rest' legible' behind behind' same
      rw [binary_append] at same
      cases legible' with
      | literal stringFree' =>
          exact absurd same.symm
            ((Value.unbroken_text stringFree').append_ne_opening behind' _)
      | grouping _ =>
          rw [grouping_append] at same
          exact absurd (head_inj spelled.unbroken_infix unbroken_groupWord same).1.symm
            spelled.ne_groupWord
      | unary spelled' inside' =>
          rw [unary_append] at same
          obtain ⟨_, sameBody⟩ := head_inj spelled.unbroken_infix spelled'.unbroken_prefix same
          obtain ⟨_, sameRest⟩ := leftHypothesis inside' (behind_space _)
            (behind_closing rest') sameBody
          exact absurd (List.cons.inj sameRest).1 (by decide)
      | binary before' spelled' after' =>
          rw [binary_append] at same
          obtain ⟨sameHead, sameBody⟩ :=
            head_inj spelled.unbroken_infix spelled'.unbroken_infix same
          obtain ⟨alike, sameRest⟩ := leftHypothesis before' (behind_space _) (behind_space _)
            sameBody
          obtain ⟨alike', sameEnd⟩ := rightHypothesis after' (behind_closing rest)
            (behind_closing rest') (List.cons.inj sameRest).2
          exact ⟨.binary alike (spelled.sameWord spelled' sameHead) alike',
            (List.cons.inj sameEnd).2⟩

/-- The lines of operators are not written. -/
theorem Alike.text_eq {e e' : Expr} (alike : Alike SameWord e e') : e.text = e'.text := by
  induction alike with
  | literal value => rfl
  | grouping _ inductionHypothesis => rw [text, text, inductionHypothesis]
  | unary operator _ inductionHypothesis => rw [text, text, operator.2.1, inductionHypothesis]
  | binary _ operator _ leftHypothesis rightHypothesis =>
      rw [text, text, operator.2.1, leftHypothesis, rightHypothesis]

theorem Legible.text_eq_iff {e e' : Expr} (legible : e.Legible) (legible' : e'.Legible) :
    e.text = e'.text ↔ Alike SameWord e e' := by
  refine ⟨?_, Alike.text_eq⟩
  intro same
  have nothing : Behind [] := by simp [Behind]
  have sameChars : e.written ++ [] = e'.written ++ [] := by
    rw [← toList_text, ← toList_text, same]
  exact (legible.written_inj legible' nothing nothing sameChars).1

end Expr

/-! ## Trees that are read -/

/-- No literal of the tree is a string. -/
def Expr.StringFree : Expr → Prop
  | .literal value => ∀ s, value ≠ .string s
  | .grouping inner => inner.StringFree
  | .unary _ operand => operand.StringFree
  | .binary left _ right => left.StringFree ∧ right.StringFree

/-- The kinds of operators are spelled in one way each. -/
def operatorKinds : List Kind := .bang :: infixKinds

theorem Lexeme.listed_of_operator {kind : Kind} {word : List Char}
    (lexeme : Lexeme (.token kind) word) (isOperator : kind ∈ operatorKinds) :
    (word, kind) ∈ fixedSpellings := by
  cases lexeme with
  | fixed listed => exact listed
  | string _ => exact absurd isOperator (by decide)
  | integer _ _ => exact absurd isOperator (by decide)
  | decimal _ _ _ _ => exact absurd isOperator (by decide)
  | keyword reserved =>
      have noWord : ∀ kind ∈ wordKinds, kind ∉ operatorKinds := by decide
      exact absurd isOperator (noWord _ (mem_wordKinds_of_reserved reserved))
  | identifier _ _ _ => exact absurd isOperator (by decide)

/-- A scanned operator is spelled as its kind says. -/
theorem spelledAs_of_mem_scan {source : String} {t : Token} (member : t ∈ (scan source).tokens)
    {kinds : List Kind} (isKind : t.kind ∈ kinds) (operators : kinds ⊆ operatorKinds) :
    t.SpelledAs kinds := by
  have isOperator := operators isKind
  have notDatum : t.kind ≠ .number ∧ t.kind ≠ .string := by
    constructor <;> (intro isDatum; rw [isDatum] at isOperator; exact absurd isOperator (by decide))
  refine ⟨isKind, ?_, (literalLaw_of_mem_scan member).others notDatum.1 notDatum.2⟩
  rw [scan_tokens, List.mem_append, List.mem_singleton] at member
  rcases member with isWord | rfl
  · exact (lexeme_of_mem_tokensOn isWord).1.listed_of_operator isOperator
  · have noOperator : Kind.eof ∉ operatorKinds := by decide
    exact absurd isOperator noOperator

/-- A well-shaped tree without strings is legible if it is spelled by scanned tokens. -/
theorem legible_of_spells (source : String) {e : Expr} {word : List Token}
    (spells : Spells e word) (shaped : WellShaped e) (stringFree : e.StringFree)
    (scanned : ∀ t ∈ word, t ∈ (scan source).tokens) : e.Legible := by
  induction spells with
  | falseWord _ => exact .literal stringFree
  | trueWord _ => exact .literal stringFree
  | nilWord _ => exact .literal stringFree
  | datum _ => exact .literal stringFree
  | grouping _ _ _ inductionHypothesis =>
      cases shaped with
      | grouping inside =>
          obtain ⟨_, others⟩ := List.forall_mem_cons.mp scanned
          exact .grouping (inductionHypothesis inside stringFree
            (List.forall_mem_append.mp others).1)
  | @unary operator operand _ _ inductionHypothesis =>
      cases shaped with
      | unary isPrefix _ inside =>
          obtain ⟨first, others⟩ := List.forall_mem_cons.mp scanned
          have isKind : operator.kind ∈ prefixKinds := by simpa [prefixKinds] using isPrefix
          exact .unary (spelledAs_of_mem_scan first isKind (by decide))
            (inductionHypothesis inside stringFree others)
  | @binary left right operator _ _ _ _ leftHypothesis rightHypothesis =>
      cases shaped with
      | binary isInfix _ _ before after =>
          obtain ⟨first, others⟩ := List.forall_mem_append.mp scanned
          obtain ⟨inner, second⟩ := List.forall_mem_cons.mp others
          exact .binary (leftHypothesis before stringFree.1 first)
            (spelledAs_of_mem_scan inner (mem_infixKinds isInfix) (by decide))
            (rightHypothesis after stringFree.2 second)

/-- Whatever moves a reader of a source has made, a tree without strings that it reads next is
legible. -/
theorem legible_of_move {source : String} {moves : List Move} {e : Expr} {next : Reader}
    (reads : ((Reader.ofSource source).after moves).move .parse = (some e, next))
    (stringFree : e.StringFree) : e.Legible := by
  have stands := Reader.after_stands (scan source).tokens moves (Reader.ofSource source)
    (stands_ofTokens _)
  obtain ⟨_, shaped, spells, _⟩ :=
    (reads_iff _ _ _ _).mp ((move_parse_iff stands e _).mp ⟨next, reads, rfl⟩)
  refine legible_of_spells source spells shaped stringFree ?_
  intro t member
  have notMark := spells.not_isEof shaped t member
  obtain ⟨marks, whole, areMarks⟩ := completed_eq_append (scan source).tokens
  have inside : t ∈ completed (scan source).tokens := by
    rw [List.extract_eq_take_drop] at member
    exact List.mem_of_mem_drop (List.mem_of_mem_take member)
  rw [whole] at inside
  rcases List.mem_append.mp inside with isScanned | isMark
  · exact isScanned
  · rw [areMarks t isMark] at notMark
    contradiction

/-- **Printing is faithful.** Legible trees are written alike exactly if they differ at most in
the lines of their operators. Trees without strings are legible if they are read from a source,
by a run or after any moves of a reader. -/
theorem printing_faithful :
    (∀ e e' : Expr, e.Legible → e'.Legible →
        (e.text = e'.text ↔ Expr.Alike SameWord e e')) ∧
      ∀ (source : String) (moves : List Move) (e : Expr) (next : Reader),
        ((Reader.ofSource source).after moves).move .parse = (some e, next) →
          e.StringFree → e.Legible := by
  constructor
  · intro e e' legible legible'
    exact legible.text_eq_iff legible'
  · intro source moves e next reads stringFree
    exact legible_of_move reads stringFree

/-- `1 - -5` on three lines and on one line. -/
theorem printing_faithful_minus :
    let onLines (infixLine prefixLine : UInt32) : Expr :=
      .binary (.literal (.number 1)) ⟨.minus, "-", none, infixLine⟩
        (.unary ⟨.minus, "-", none, prefixLine⟩ (.literal (.number 5)))
    (onLines 2 3).text = (onLines 1 1).text ∧ onLines 2 3 ≠ onLines 1 1 ∧
      Expr.Alike SameWord (onLines 2 3) (onLines 1 1) := by
  intro onLines
  have minus : ("-".toList, Kind.minus) ∈ fixedSpellings := by decide
  have spelled : ∀ (kinds : List Kind) (line : UInt32), .minus ∈ kinds →
      (⟨.minus, "-", none, line⟩ : Token).SpelledAs kinds := fun kinds line listed =>
    ⟨listed, minus, rfl⟩
  have legible : ∀ infixLine prefixLine, (onLines infixLine prefixLine).Legible := by
    intro infixLine prefixLine
    exact .binary (.literal nofun) (spelled infixKinds _ (by decide))
      (.unary (spelled prefixKinds _ (by decide)) (.literal nofun))
  have same : (onLines 2 3).text = (onLines 1 1).text := rfl
  refine ⟨same, ?_, (printing_faithful.1 _ _ (legible 2 3) (legible 1 1)).mp same⟩
  simp [onLines]

end LoxCalc
