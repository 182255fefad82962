import Lox.Token.Kind

/-!
Source text cut into pieces.

`Piece.cut` takes the longest piece that the first character allows, and `pieces` repeats it, so the
pieces lie side by side and together are the whole text (`text_pieces`). A piece is a token, one
white space character, a comment up to the end of its line, a character that begins nothing, or a
string that the text ends in the middle of.

The grammar of pieces is ASCII: a letter outside it begins no word. Inside strings and comments
every character is allowed.
-/

namespace Lox

/-- A stretch of source text. -/
inductive Piece where
  | token (kind : TokenKind) (text : List Char)
  | space (c : Char)
  | comment (text : List Char)
  | stray (c : Char)
  | openString (text : List Char)
  deriving DecidableEq, Repr

namespace Piece

/-- The characters of a piece. -/
def text : Piece → List Char
  | .token _ text | .comment text | .openString text => text
  | .space c | .stray c => [c]

/-- The kind of a character that is a token whatever follows it. -/
def single? : Char → Option TokenKind
  | '(' => some .leftParen
  | ')' => some .rightParen
  | '\x7b' => some .leftBrace
  | '\x7d' => some .rightBrace
  | ',' => some .comma
  | '.' => some .dot
  | '-' => some .minus
  | '+' => some .plus
  | ';' => some .semicolon
  | ':' => some .colon
  | '*' => some .star
  | _ => none

/-- The kinds of a character that is one token by itself and another with `=` after it. -/
def widening? : Char → Option (TokenKind × TokenKind)
  | '!' => some (.bang, .bangEqual)
  | '=' => some (.equal, .equalEqual)
  | '<' => some (.less, .lessEqual)
  | '>' => some (.greater, .greaterEqual)
  | _ => none

/-- Whether a character is skipped between tokens. -/
def isSpace (c : Char) : Bool :=
  c == ' ' || c == '\t' || c == '\r' || c == '\n'

/-- Whether a character begins a word. -/
def startsWord (c : Char) : Bool :=
  c.isAlpha || c == '_'

/-- Whether a character goes on with a word. -/
def continuesWord (c : Char) : Bool :=
  startsWord c || c.isDigit

/-- The piece that a word is: a keyword, or else an identifier. -/
def word (letters : List Char) : Piece :=
  .token ((TokenKind.keyword? (String.ofList letters)).getD .identifier) letters

/-- The fraction at the beginning of a text, a point with digits after it, and the text after it. A
point without a digit after it is no fraction. -/
def fraction : List Char → List Char × List Char
  | '.' :: d :: rest =>
    if d.isDigit then ('.' :: d :: rest.takeWhile Char.isDigit, rest.dropWhile Char.isDigit)
    else ([], '.' :: d :: rest)
  | rest => ([], rest)

/-- The piece that begins with the character `c`, and the text after it. -/
def cut (c : Char) (rest : List Char) : Piece × List Char :=
  match single? c with
  | some kind => (.token kind [c], rest)
  | none =>
  match widening? c with
  | some (narrow, wide) =>
    match rest with
    | '=' :: rest => (.token wide [c, '='], rest)
    | rest => (.token narrow [c], rest)
  | none =>
  if c = '/' then
    match rest with
    | '/' :: rest =>
      (.comment ('/' :: '/' :: rest.takeWhile (· != '\n')), rest.dropWhile (· != '\n'))
    | rest => (.token .slash [c], rest)
  else if isSpace c then (.space c, rest)
  else if c = '"' then
    match rest.dropWhile (· != '"') with
    | quote :: after => (.token .string (c :: rest.takeWhile (· != '"') ++ [quote]), after)
    | [] => (.openString (c :: rest), [])
  else if c.isDigit then
    let (decimals, after) := fraction (rest.dropWhile Char.isDigit)
    (.token .number (c :: rest.takeWhile Char.isDigit ++ decimals), after)
  else if startsWord c then
    (.word (c :: rest.takeWhile continuesWord), rest.dropWhile continuesWord)
  else (.stray c, rest)

theorem fraction_append (cs : List Char) : (fraction cs).1 ++ (fraction cs).2 = cs := by
  fun_cases fraction cs <;> simp

/-- A cut loses nothing: the piece and the text after it are the text before the cut. -/
theorem text_cut (c : Char) (rest : List Char) :
    (cut c rest).1.text ++ (cut c rest).2 = c :: rest := by
  have whole (p : Char → Bool) := List.takeWhile_append_dropWhile (p := p) (l := rest)
  fun_cases cut c rest
  case case7 quote after h =>
    have := whole (· != '"')
    simp_all [text]
  case case9 decimals after h =>
    have joined := fraction_append (rest.dropWhile Char.isDigit)
    rw [h] at joined
    simp [text, joined]
  all_goals simp_all [text, word]

theorem length_cut_lt (c : Char) (rest : List Char) :
    (cut c rest).2.length < rest.length + 1 := by
  have joined := congrArg List.length (text_cut c rest)
  have positive : 0 < (cut c rest).1.text.length := by
    fun_cases cut c rest <;> simp [text, word]
  simp only [List.length_append, List.length_cons] at joined
  omega

end Piece

/-- The pieces of a text, from left to right. -/
def pieces : List Char → List Piece
  | [] => []
  | c :: rest => (Piece.cut c rest).1 :: pieces (Piece.cut c rest).2
  termination_by text => text.length
  decreasing_by exact Piece.length_cut_lt c rest

/-- The pieces of a text lie side by side and are together the whole text. -/
theorem text_pieces (text : List Char) : (pieces text).flatMap Piece.text = text := by
  fun_induction pieces text with
  | case1 => rfl
  | case2 c rest ih => rw [List.flatMap_cons, ih, Piece.text_cut]

end Lox
