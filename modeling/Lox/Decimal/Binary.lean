/-!
The value that a double-precision number stands for: a whole significand times a power of two, with
a sign, or one of the values that are not finite. All arithmetic on decimal digits starts from here
and stays in whole numbers, so no step of it rounds.
-/

namespace Lox.Decimal

/-- What a double-precision number stands for. -/
inductive Binary where
  | notANumber
  | infinite (negative : Bool)
  /-- The number `significand * 2 ^ exponent`, negated if `negative` holds. -/
  | finite (negative : Bool) (significand : Nat) (exponent : Int)
  deriving DecidableEq, Repr

/-- The significand of a normal number, whose leading bit is not stored. -/
def hiddenBit : Nat := Nat.pow 2 52

/-- The exponent that subnormal numbers share with the smallest normal ones. -/
def leastExponent : Int := -1074

/-- The value that the 64 bits of a double-precision number encode. -/
def Binary.ofBits (bits : Nat) : Binary :=
  let negative := bits / Nat.pow 2 63 % 2 == 1
  let biased := bits / hiddenBit % Nat.pow 2 11
  let fraction := bits % hiddenBit
  if biased = Nat.pow 2 11 - 1 then
    if fraction = 0 then .infinite negative else .notANumber
  else if biased = 0 then .finite negative fraction leastExponent
  else .finite negative (hiddenBit + fraction) (leastExponent + (biased - 1 : Nat))

/-- The value that a double-precision number stands for. -/
def Binary.ofFloat (x : Float) : Binary :=
  .ofBits x.toBits.toNat

end Lox.Decimal
