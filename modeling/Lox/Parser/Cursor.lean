import Lox.Token.Basic

/-!
A place in a row of tokens.

A cursor stands on a token; it knows the tokens it has passed, the nearest first, and those ahead.
It never moves beyond the token that ends the input, so there is always a token to stand on.
-/

namespace Lox

/-- A place in a row of tokens. -/
structure Cursor where
  passed : List Token
  current : Token
  ahead : List Token
  deriving Inhabited

namespace Cursor

/-- The cursor on the first of the given tokens. A row without tokens is the input that is over. -/
def ofTokens : List Token → Cursor
  | [] => ⟨[], .endOfInput 1, []⟩
  | token :: rest => ⟨[], token, rest⟩

/-- The tokens from the current one on. -/
def remaining (cursor : Cursor) : List Token :=
  cursor.current :: cursor.ahead

/-- How many tokens have been passed. -/
def position (cursor : Cursor) : Nat :=
  cursor.passed.length

/-- Whether the cursor stands on the end of the input. -/
def atEnd (cursor : Cursor) : Bool :=
  cursor.current.kind == .endOfInput

/-- The token passed last, or the current one where none has been passed. -/
def previous (cursor : Cursor) : Token :=
  cursor.passed.headD cursor.current

/-- One token further, unless the input is over. -/
def advance (cursor : Cursor) : Cursor :=
  if cursor.atEnd then cursor
  else
    match cursor.ahead with
    | [] => cursor
    | next :: rest => ⟨cursor.current :: cursor.passed, next, rest⟩

/-- Whether the current token is of a kind. -/
def check (cursor : Cursor) (kind : TokenKind) : Bool :=
  cursor.current.kind == kind

/-- The current token and the cursor beyond it, if the token is of one of the given kinds. -/
def eatAny? (cursor : Cursor) (kinds : List TokenKind) : Option (Token × Cursor) :=
  if kinds.contains cursor.current.kind then some (cursor.current, cursor.advance) else none

/-- The cursor after as many tokens as `position` says, or on the last token if there are fewer. -/
def moveTo (cursor : Cursor) (position : Nat) : Cursor :=
  let tokens := cursor.passed.reverse ++ cursor.remaining
  let kept := min position (tokens.length - 1)
  match tokens.drop kept with
  | [] => cursor
  | token :: rest => ⟨(tokens.take kept).reverse, token, rest⟩

/-- Whether the token passed last ends a statement. -/
def passedSemicolon (passed : List Token) : Bool :=
  match passed with
  | [] => false
  | token :: _ => token.kind == .semicolon

/-- The place of the next statement boundary: just after a semicolon, in front of a keyword that
begins a statement, or at the end of the input. -/
def toBoundary (passed : List Token) (current : Token) : List Token → Cursor
  | [] => ⟨passed, current, []⟩
  | next :: rest =>
    if current.kind == .endOfInput || passedSemicolon passed
        || TokenSet.statementStart.contains current.kind then
      ⟨passed, current, next :: rest⟩
    else toBoundary (current :: passed) next rest

/-- Leave a statement that went wrong: pass one token at least, then go on to a boundary. -/
def synchronize (cursor : Cursor) : Cursor :=
  if cursor.atEnd then cursor
  else
    let cursor := cursor.advance
    toBoundary cursor.passed cursor.current cursor.ahead

end Cursor

end Lox
