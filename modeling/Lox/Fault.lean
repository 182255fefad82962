import Lox.Diagnostic
import Lox.Value.Basic

/-!
What can go wrong while a program runs.

A fault is a cause; with the line it is reported at it is a run-time error. The wording of all
faults is in `Fault.message`.
-/

namespace Lox

/-- What can go wrong while a program runs. -/
inductive Fault where
  | undefinedVariable (name : String)
  | uninitializedVariable (name : String)
  /-- Something was given operands it is not for. -/
  | typeMismatch (subject op expected got : String)
  | divideByZero
  | notCallable (typeName : String)
  | arityMismatch (expected got : Nat)
  | stackOverflow (limit : Nat)
  /-- A `break`, `continue` or `return` reached the end of what it can leave. -/
  | escapedSignal (signal : String)
  deriving DecidableEq, Repr

namespace Fault

/-- The wording of a fault. -/
def message : Fault → String
  | undefinedVariable name => "Undefined variable '" ++ name ++ "'."
  | uninitializedVariable name => "Uninitialized variable '" ++ name ++ "'."
  | typeMismatch subject op expected got =>
    subject ++ " of '" ++ op ++ "' must be " ++ expected ++ ", got " ++ got ++ "."
  | divideByZero => "Divide by zero error."
  | notCallable typeName => "Can only call functions, got " ++ typeName ++ "."
  | arityMismatch expected got =>
    "Expected " ++ toString expected ++ " arguments but got " ++ toString got ++ "."
  | stackOverflow limit => "Stack overflow: call depth exceeded " ++ toString limit ++ "."
  | escapedSignal signal => "'" ++ signal ++ "' escaped its enclosing statement."

/-- A prefix operator whose operand is no number. -/
def operandNotNumber (op : UnaryOp) (operand : Value) : Fault :=
  typeMismatch "Operand" op.symbol "a number" operand.typeName

/-- An operator one of whose operands is no number. -/
def operandsNotNumbers (op : BinaryOp) (left right : Value) : Fault :=
  typeMismatch "Operands" op.symbol "numbers" (left.typeName ++ " and " ++ right.typeName)

/-- A sum of operands that are neither two numbers nor one of them a string. -/
def notAddable (left right : Value) : Fault :=
  typeMismatch "Operands" BinaryOp.add.symbol "two numbers or include a string"
    (left.typeName ++ " and " ++ right.typeName)

end Fault

/-- A fault with the line it is reported at. -/
structure RuntimeError where
  fault : Fault
  line : Nat
  deriving DecidableEq, Repr

namespace RuntimeError

/-- What the user is told about a run-time error. -/
def toDiagnostic (error : RuntimeError) : Diagnostic :=
  .runtime error.line error.fault.message

/-- The text of a run-time error. -/
def render (error : RuntimeError) : String :=
  error.toDiagnostic.render

end RuntimeError

/-- Why a name has no value in a frame: no frame around declares it, or the nearest that does has
given it none. -/
inductive LookupFault where
  | undefined
  | uninitialized
  deriving DecidableEq, Repr

/-- The run-time error of a name without a value. -/
def LookupFault.toError (fault : LookupFault) (name : Name) : RuntimeError :=
  match fault with
  | .undefined => ⟨.undefinedVariable name.text, name.line⟩
  | .uninitialized => ⟨.uninitializedVariable name.text, name.line⟩

end Lox
