import Lox.Diagnostic
import Lox.Token.Basic
import Lox.Token.Piece

/-!
The tokens of a source text.

`scan` cuts the text into pieces and goes through them with a line counter that starts at one. The
counter is moved in two places: by a line break between tokens, and by those inside of a string, all
at once, when its end is looked for. A token has the line on which it ends, so a string that runs
over several lines has the line of its closing quote, and the token that stands for the end of the
input comes last, on the last line. White space and comments leave nothing behind; a stray character
and an open string each leave one diagnostic and no token, and scanning goes on after them.
-/

namespace Lox

/-- What can be wrong with the characters of a source text. -/
inductive LexicalFault where
  | strayCharacter
  | openString
  deriving DecidableEq, Repr

/-- The wording of a lexical fault. -/
def LexicalFault.message : LexicalFault → String
  | .strayCharacter => "Unexpected character."
  | .openString => "Unterminated string."

/-- The diagnostic of a lexical fault, which names a line and no place in it. -/
def LexicalFault.toDiagnostic (fault : LexicalFault) (line : Nat) : Diagnostic :=
  .source line "" fault.message

/-- The number of line breaks in a text. -/
def lineBreaks (text : List Char) : Nat :=
  text.count '\n'

/-- How far a piece moves the line counter. -/
def Piece.newLines : Piece → Nat
  | .space c => if c = '\n' then 1 else 0
  | .token .string text | .openString text => lineBreaks text
  | _ => 0

/-- The value that a token's text stands for: what a string has between its quotes, the number that
a row of digits denotes, and nothing for other kinds. -/
def literalOf (kind : TokenKind) (text : List Char) : Option Token.Literal :=
  match kind with
  | .string => some (.text (String.ofList (text.drop 1).dropLast))
  | .number => some (.number (Decimal.read text))
  | _ => none

/-- What scanning finds in a source text. -/
structure Scan where
  tokens : List Token
  diagnostics : List Diagnostic

namespace Scan

/-- A token in front of what was found after it. -/
def withToken (token : Token) (found : Scan) : Scan :=
  { found with tokens := token :: found.tokens }

/-- A diagnostic in front of what was found after it. -/
def withDiagnostic (diagnostic : Diagnostic) (found : Scan) : Scan :=
  { found with diagnostics := diagnostic :: found.diagnostics }

/-- What a piece leaves behind on a line, in front of what was found after it. -/
def withPiece (piece : Piece) (line : Nat) (found : Scan) : Scan :=
  match piece with
  | .token kind text => found.withToken ⟨kind, String.ofList text, line, literalOf kind text⟩
  | .space _ | .comment _ => found
  | .stray _ => found.withDiagnostic (LexicalFault.strayCharacter.toDiagnostic line)
  | .openString _ => found.withDiagnostic (LexicalFault.openString.toDiagnostic line)

/-- What a row of pieces holds, if the line counter is at `line` in front of it. -/
def ofPieces (line : Nat) : List Piece → Scan
  | [] => ⟨[.endOfInput line], []⟩
  | piece :: rest =>
    let lineAfter := line + piece.newLines
    (ofPieces lineAfter rest).withPiece piece lineAfter

end Scan

/-- The tokens of a source text, the end of the input last, and what is wrong with its
characters. -/
def scan (source : String) : Scan :=
  .ofPieces 1 (pieces source.toList)

end Lox
