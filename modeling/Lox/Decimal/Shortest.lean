import Lox.Decimal.Binary

/-!
The fewest decimal digits that read back as a given double-precision number.

A positive number `m * 2 ^ q` is what every real in an interval around it rounds to: the interval
reaches half way to the two neighbouring numbers, and its ends belong to it exactly when `m` is
even, since a tie rounds to the even significand. A decimal with few digits is a point of a coarse
grid `t * 10 ^ k`. If any point of a grid lies in the interval then so does one of the two grid
points next to the number, so `pointIn?` need only look at those; `shortest` walks from coarse grids
to finer ones and takes the first point it meets. Of two points on one grid the nearer is taken, and
of two equally near ones the greater.
-/

namespace Lox.Decimal

/-- How far the interval of `m * 2 ^ q` reaches below it, in quarters of `2 ^ q`. The next smaller
number is half as far away when `m` is the least normal significand and `q` not the least
exponent. -/
def reachBelow (m : Nat) (q : Int) : Nat :=
  if m = hiddenBit ∧ leastExponent < q then 1 else 2

/-- Multiplying a number of quarters of `2 ^ q` by the first and dividing it by the second gives its
value in units of `10 ^ k`. -/
def gridScale (q k : Int) : Nat × Nat :=
  (Nat.pow 2 (q - 2).toNat * Nat.pow 10 (-k).toNat, Nat.pow 2 (2 - q).toNat * Nat.pow 10 k.toNat)

/-- The point `t * 10 ^ k` nearest to `m * 2 ^ q` among the two next to it, if it rounds to it. -/
def pointIn? (m : Nat) (q k : Int) : Option Nat :=
  let (up, down) := gridScale q k
  let value := 4 * m * up
  let low := (4 * m - reachBelow m q) * up
  let high := (4 * m + 2) * up
  let inside (t : Nat) : Bool :=
    if m % 2 = 0 then low ≤ t * down && t * down ≤ high else low < t * down && t * down < high
  let below := value / down
  let above := below + 1
  match inside below, inside above with
  | true, true => some (if 2 * (value % down) < down then below else above)
  | true, false => some below
  | false, true => some above
  | false, false => none

/-- The first grid, from `10 ^ k` on to finer ones, with a point that reads back, and that point.
When `steps` grids have none, the point just below the number on the next one. -/
def searchGrids (m : Nat) (q : Int) : (steps : Nat) → (k : Int) → Nat × Int
  | 0, k =>
    let (up, down) := gridScale q k
    (4 * m * up / down, k)
  | steps + 1, k =>
    match pointIn? m q k with
    | some t => (t, k)
    | none => searchGrids m q steps (k - 1)

/-- A power of ten, given by its exponent, that is greater than `m * 2 ^ q`: the number is below
`2 ^ (log2 m + 1 + q)`, and `0.30103` is just above the logarithm of two. -/
def coarsestGrid (m : Nat) (q : Int) : Int :=
  ((m.log2 + 1 : Nat) + q) * 30103 / 100000 + 2

/-- Seventeen digits always read back, and the coarsest grid has at most four more in front. -/
def gridCount : Nat := 24

/-- The digits `t` and the exponent `k` of the shortest decimal `t * 10 ^ k` that reads back as
`m * 2 ^ q`, for a positive significand `m`. -/
def shortest (m : Nat) (q : Int) : Nat × Int :=
  searchGrids m q gridCount (coarsestGrid m q)

end Lox.Decimal
