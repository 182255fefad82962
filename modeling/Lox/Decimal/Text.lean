import Lox.Decimal.Shortest

/-!
How the language writes its numbers and reads their literals.

A number is written with the fewest digits that read back, positionally: never with an exponent, and
with a point only when there are digits after it. Zero keeps its sign. A literal is a row of digits
with at most one point in it, and stands for the nearest double-precision number.
-/

namespace Lox.Decimal

/-- The text of `digits * 10 ^ exponent` in positional notation. -/
def positional (digits : Nat) (exponent : Int) : List Char :=
  let shown := Nat.toDigits 10 digits
  if 0 ≤ exponent then
    shown ++ List.replicate exponent.toNat '0'
  else
    let places := (-exponent).toNat
    let padded := List.replicate (places + 1 - shown.length) '0' ++ shown
    padded.take (padded.length - places) ++ '.' :: padded.drop (padded.length - places)

/-- The text of a positive number `m * 2 ^ q`, or of zero when `m` is zero. -/
def magnitude (m : Nat) (q : Int) : List Char :=
  if m = 0 then ['0']
  else
    let (digits, exponent) := shortest m q
    positional digits exponent

/-- The text of a decoded number. -/
def Binary.text : Binary → String
  | .notANumber => "NaN"
  | .infinite negative => if negative then "-inf" else "inf"
  | .finite negative m q => String.ofList (if negative then '-' :: magnitude m q else magnitude m q)

/-- The text of a number. -/
def text (x : Float) : String :=
  (Binary.ofFloat x).text

/-- The whole number that a row of digits stands for; other characters are passed over. -/
def digitsValue (digits : List Char) : Nat :=
  digits.foldl (fun value c => if c.isDigit then 10 * value + (c.toNat - '0'.toNat) else value) 0

/-- The number nearest to a row of digits with at most one point in it. -/
def read (literal : List Char) : Float :=
  let places := (literal.dropWhile (· != '.')).length - 1
  Float.ofScientific (digitsValue literal) true places

end Lox.Decimal
