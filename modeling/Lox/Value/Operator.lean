import Lox.Fault

/-!
What operators do to values.

Equality is defined for all values. A sum is the sum of two numbers or, if one operand is a string,
the printed forms of both joined. Everything else needs numbers, and a number is not divided by
zero.
-/

namespace Lox

/-- The value of a prefix operator applied to an operand. -/
def UnaryOp.apply (op : UnaryOp) (operand : Value) : Except Fault Value :=
  match op, operand with
  | .not, operand => .ok (.bool !operand.isTruthy)
  | .negate, .number x => .ok (.number (-x))
  | .negate, operand => .error (.operandNotNumber op operand)

namespace BinaryOp

/-- The sum of two values. -/
def sum : Value → Value → Except Fault Value
  | .number x, .number y => .ok (.number (x + y))
  | .text left, right => .ok (.text (left ++ right.render))
  | left, .text right => .ok (.text (left.render ++ right))
  | left, right => .error (.notAddable left right)

/-- The value of an operator applied to two numbers. -/
def onNumbers (op : BinaryOp) (x y : Float) : Except Fault Value :=
  match op with
  | .equal => .ok (.bool (x == y))
  | .notEqual => .ok (.bool (x != y))
  | .greater => .ok (.bool (decide (y < x)))
  | .greaterEqual => .ok (.bool (decide (y ≤ x)))
  | .less => .ok (.bool (decide (x < y)))
  | .lessEqual => .ok (.bool (decide (x ≤ y)))
  | .add => .ok (.number (x + y))
  | .subtract => .ok (.number (x - y))
  | .multiply => .ok (.number (x * y))
  | .divide => if y == 0 then .error .divideByZero else .ok (.number (x / y))

/-- The value of an operator applied to two operands. -/
def apply (op : BinaryOp) (left right : Value) : Except Fault Value :=
  match op with
  | .equal => .ok (.bool (left.equal right))
  | .notEqual => .ok (.bool !left.equal right)
  | .add => sum left right
  | op =>
    match left, right with
    | .number x, .number y => op.onNumbers x y
    | left, right => .error (.operandsNotNumbers op left right)

end BinaryOp

end Lox
