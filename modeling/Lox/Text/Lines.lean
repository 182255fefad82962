/-!
A text as a list of lines.

A newline ends a line, a carriage return just before it goes with it, and what follows the last
newline is a line of its own unless it is empty.
-/

namespace Lox.Text

/-- A line held in reverse, without a carriage return at its end. -/
def dropReturn : List Char → List Char
  | '\r' :: line => line
  | line => line

/-- The lines of `line.reverse ++ rest`, where `line` holds no newline. -/
def linesFrom (line : List Char) : List Char → List String
  | [] => if line.isEmpty then [] else [String.ofList line.reverse]
  | c :: rest =>
    if c = '\n' then String.ofList (dropReturn line).reverse :: linesFrom [] rest
    else linesFrom (c :: line) rest

/-- The lines of a text. -/
def lines (text : String) : List String :=
  linesFrom [] text.toList

end Lox.Text
