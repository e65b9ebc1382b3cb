import LoxCalc.Token.Kind
import LoxCalc.Value

/-!
Contract: tokens, the classified pieces of a source text.

Owns:
- `Token` and its written form.

Lines are 32-bit words that count from one.
-/

set_option autoImplicit false

namespace LoxCalc

/-- A classified piece of text on a line. Tokens of a scanned text carry a literal
exactly if they are strings or numbers; other tokens may be built at will. -/
structure Token where
  kind : Kind
  lexeme : String
  literal : Option Value
  line : UInt32
deriving DecidableEq, Repr, Inhabited

namespace Token

/-- The mark behind the last token of a text. -/
def eof (line : UInt32) : Token := ⟨.eof, "", none, line⟩

/-- Whether a token marks the end of a text. -/
def isEof (t : Token) : Bool := t.kind = .eof

/-- The written form: kind, lexeme and literal; a missing literal is written like
`nil`. -/
def text (t : Token) : String :=
  t.kind.name ++ " " ++ t.lexeme ++ " " ++ (t.literal.getD .nil).text

end Token

end LoxCalc
