import Lox.Token.Kind
import Lox.Text.Quoted
import Lox.Decimal.Text

/-!
Tokens: a kind, the text it was written as, the line on which it ends, and for strings and numbers
the value written.
-/

namespace Lox

/-- The value that a string or number token carries. -/
inductive Token.Literal where
  | text (value : String)
  | number (value : Float)
  deriving Inhabited

/-- How a token listing shows a carried value. -/
def Token.Literal.describe : Token.Literal → String
  | .text value => Text.quoted value
  | .number value => Decimal.text value

/-- A piece of the source with a meaning to the grammar. -/
structure Token where
  kind : TokenKind
  lexeme : String
  line : Nat
  literal : Option Token.Literal
  deriving Inhabited

namespace Token

/-- A token that carries no value. -/
def plain (kind : TokenKind) (lexeme : String) (line : Nat) : Token :=
  ⟨kind, lexeme, line, none⟩

/-- The token that stands after all others. -/
def endOfInput (line : Nat) : Token :=
  plain .endOfInput "" line

/-- What the listing of tokens shows of a token before its line: its kind, followed by what it
carries, or by its text where the kind leaves that open. -/
def content (token : Token) : String :=
  match token.literal with
  | some literal => token.kind.name ++ "(" ++ literal.describe ++ ")"
  | none =>
    if token.kind.hasFixedText then token.kind.name
    else token.kind.name ++ "(" ++ Text.quoted token.lexeme ++ ")"

/-- The line of a token in the listing of tokens. -/
def describe (token : Token) : String :=
  token.content ++ " @" ++ toString token.line

end Token

end Lox
