import Lox.Decimal.Text
import Lox.Syntax.Basic
import Lox.Text.Quoted

/-!
Values.

Functions are of two sorts: closures, which a program declares and which keep the frame they were
declared in, and natives, which the host provides. A function is equal to itself only, so every
function carries an identity: closures are numbered as they are made, natives by their place among
those of the host.
-/

namespace Lox

/-- A frame of variables, by its place among all frames. -/
structure FrameRef where
  index : Nat
  deriving DecidableEq, Repr, Inhabited

/-- A declared function together with the frame it was declared in. -/
structure Closure where
  id : Nat
  decl : FunctionDecl
  scope : FrameRef
  deriving Inhabited

/-- A function of the host, by its place among them. -/
structure Native where
  id : Nat
  name : String
  arity : Nat
  deriving DecidableEq, Repr, Inhabited

/-- Functions. -/
inductive Function where
  | closure (made : Closure)
  | native (given : Native)
  deriving Inhabited

namespace Function

/-- The name a function was given. -/
def name : Function → String
  | .closure made => made.decl.name.text
  | .native given => given.name

/-- The number of arguments that a call has to give. -/
def arity : Function → Nat
  | .closure made => made.decl.arity
  | .native given => given.arity

/-- Whether two functions are the same one. -/
def same : Function → Function → Bool
  | .closure left, .closure right => left.id == right.id
  | .native left, .native right => left.id == right.id
  | _, _ => false

/-- The text of a function. -/
def text : Function → String
  | .closure made => "<fn " ++ made.decl.name.text ++ ">"
  | .native given => "<native fn " ++ given.name ++ ">"

end Function

/-- Values. -/
inductive Value where
  | nil
  | bool (value : Bool)
  | number (value : Float)
  | text (value : String)
  | function (value : Function)
  deriving Inhabited

namespace Value

/-- The value of a literal. -/
def ofLiteral : Literal → Value
  | .nil => .nil
  | .bool value => .bool value
  | .number value => .number value
  | .text value => .text value

/-- Whether a value counts as true: all but nil and false do. -/
def isTruthy : Value → Bool
  | .nil => false
  | .bool value => value
  | _ => true

/-- The name of a value's type. -/
def typeName : Value → String
  | .nil => "nil"
  | .bool _ => "bool"
  | .number _ => "number"
  | .text _ => "string"
  | .function _ => "function"

/-- How a value is printed. -/
def render : Value → String
  | .nil => "nil"
  | .bool value => toString value
  | .number value => Decimal.text value
  | .text value => value
  | .function value => value.text

/-- How a value is shown where its type should be seen: as it is printed, but a string is quoted. -/
def describe : Value → String
  | .text value => Text.quoted value
  | value => value.render

/-- Whether two values are equal. Values of different types are not; numbers compare as numbers do,
so what is not a number differs from itself; a function is equal to itself only. -/
def equal : Value → Value → Bool
  | .nil, .nil => true
  | .bool left, .bool right => left == right
  | .number left, .number right => left == right
  | .text left, .text right => left == right
  | .function left, .function right => left.same right
  | _, _ => false

end Value

end Lox
