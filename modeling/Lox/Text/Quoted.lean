import Lox.Text.Printable

/-!
Text between double quotes, as the syntax tree and the token listing show it.

`quoted` puts a backslash before a quote and a backslash, writes the four control characters that
have a letter of their own as `\0`, `\t`, `\r` and `\n`, and writes every other character that
cannot be read off the page as `\u` with its code point in lower-case hexadecimal between braces.
All other characters stand for themselves, so the result never holds a raw line break.
-/

namespace Lox.Text

/-- The digits of a code point in lower-case hexadecimal, with no leading zero. -/
def hexadecimal (code : Nat) : List Char :=
  Nat.toDigits 16 code

/-- How one character is written between double quotes. -/
def escape (c : Char) : List Char :=
  if c = '\x00' then ['\\', '0']
  else if c = '\t' then ['\\', 't']
  else if c = '\r' then ['\\', 'r']
  else if c = '\n' then ['\\', 'n']
  else if c = '"' then ['\\', '"']
  else if c = '\\' then ['\\', '\\']
  else if extendsGrapheme c || !isPrintable c then
    ['\\', 'u', '\x7b'] ++ hexadecimal c.toNat ++ ['\x7d']
  else [c]

/-- A text between double quotes, each character escaped where it has to be. -/
def quoted (text : String) : String :=
  String.ofList ('"' :: text.toList.flatMap escape ++ ['"'])

end Lox.Text
