import Lox.Store

/-!
What a running program works on, and actions on it.

A `Host` is what stays the same during a run: the functions the host provides, the readings of its
clock, and the limit on nested calls. A `Machine` is what changes: the frames, the number of calls
in progress, the lines printed, and how often the clock was read.

An action takes a machine to its outcome. It is done with a value, or it failed with a run-time
error, and in both cases the machine goes on, with all that was printed and assigned before; or it
ran out of the fuel it was given, which says nothing about the program.
-/

namespace Lox

/-- What a function of the host does. -/
inductive HostAction where
  | readClock
  | compute (result : List Value → Except Fault Value)

/-- A function of the host. -/
structure HostFunction where
  name : String
  arity : Nat
  action : HostAction

/-- What stays the same during a run. -/
structure Host where
  functions : Array HostFunction
  /-- The readings of the clock, in seconds, in the order in which they are taken. -/
  clock : Nat → Float
  /-- How many calls of closures may be in progress at a time. -/
  maxCallDepth : Nat

/-- What changes during a run. -/
structure Machine where
  store : Store
  /-- How many calls of closures are in progress. -/
  callDepth : Nat
  /-- The lines printed. -/
  printed : Array String
  /-- How often the clock was read. -/
  clockReadings : Nat
  deriving Inhabited

/-- A `break` or `continue` on its way out. -/
structure Signal where
  label : Option String
  line : Nat
  deriving DecidableEq, Repr

namespace Signal

/-- Whether a signal carries a label, or carries none. -/
def targets (signal : Signal) (label : Option String) : Bool :=
  signal.label == label

/-- The error of a signal that reached the end of what it can leave. -/
def escape (signal : Signal) (keyword : String) : RuntimeError :=
  let text :=
    match signal.label with
    | some label => keyword ++ " " ++ label
    | none => keyword
  ⟨.escapedSignal text, signal.line⟩

end Signal

/-- How a statement ends. -/
inductive Flow where
  | normal
  | breaking (signal : Signal)
  | continuing (signal : Signal)
  | returning (value : Value) (line : Nat)
  deriving Inhabited

/-- How an action ends. -/
inductive Outcome (α : Type) where
  | done (value : α) (machine : Machine)
  | failed (error : RuntimeError) (machine : Machine)
  | outOfFuel

/-- Something done to a machine, with a value in `α`. -/
abbrev Exec (α : Type) := Machine → Outcome α

namespace Exec

variable {α β : Type}

/-- Act, and go on with the value. -/
@[inline] def andThen (action : Exec α) (next : α → Exec β) : Exec β := fun machine =>
  match action machine with
  | .done value machine => next value machine
  | .failed error machine => .failed error machine
  | .outOfFuel => .outOfFuel

instance : Monad Exec where
  pure value := fun machine => .done value machine
  bind := andThen

/-- The action that was given no fuel. -/
def outOfFuel : Exec α := fun _ => .outOfFuel

/-- Fail with an error. -/
def fail (error : RuntimeError) : Exec α := fun machine =>
  .failed error machine

/-- The value of a computation that may have a fault, which is reported at a line. -/
def ofExcept (line : Nat) : Except Fault α → Exec α
  | .ok value => pure value
  | .error fault => fail ⟨fault, line⟩

/-- Print a line. -/
def print (text : String) : Exec Unit := fun machine =>
  .done () { machine with printed := machine.printed.push text }

/-- The value of a name as seen from a frame. -/
def lookup (name : Name) (ref : FrameRef) : Exec Value := fun machine =>
  match machine.store.get ref name.text with
  | .ok value => .done value machine
  | .error fault => .failed (fault.toError name) machine

/-- Bind a name in a frame, or declare it there without a value. -/
def define (ref : FrameRef) (name : Name) (value : Option Value) : Exec Unit := fun machine =>
  .done () { machine with store := machine.store.define ref name.text value }

/-- Give a name another value in the nearest frame that declares it. -/
def assign (ref : FrameRef) (name : Name) (value : Value) : Exec Unit := fun machine =>
  match machine.store.nearest? ref name.text with
  | some (owner, _) =>
    .done () { machine with store := machine.store.define owner name.text (some value) }
  | none => .failed (LookupFault.undefined.toError name) machine

/-- A new frame whose parent is a given one. -/
def newChild (parent : FrameRef) : Exec FrameRef := fun machine =>
  let (ref, store) := machine.store.addChild parent
  .done ref { machine with store }

/-- A new closure. -/
def makeClosure (decl : FunctionDecl) (scope : FrameRef) : Exec Closure := fun machine =>
  let (closure, store) := machine.store.makeClosure decl scope
  .done closure { machine with store }

/-- Bind parameters to arguments, in order. -/
def bindParameters (ref : FrameRef) : List Name → List Value → Exec Unit
  | parameter :: parameters, argument :: arguments => do
    define ref parameter (some argument)
    bindParameters ref parameters arguments
  | _, _ => pure ()

/-- Change the machine however an action ended. -/
def Outcome.mapMachine (change : Machine → Machine) : Outcome α → Outcome α
  | .done value machine => .done value (change machine)
  | .failed error machine => .failed error (change machine)
  | .outOfFuel => .outOfFuel

/-- Act with one more call in progress, if the limit allows another; the error is reported at the
line of the call. However the action ends, its call is over afterwards. -/
@[inline] def nested (limit line : Nat) (action : Exec α) : Exec α := fun machine =>
  if limit ≤ machine.callDepth then .failed ⟨.stackOverflow limit, line⟩ machine
  else
    (Outcome.mapMachine fun machine => { machine with callDepth := machine.callDepth - 1 })
      (action { machine with callDepth := machine.callDepth + 1 })

/-- Call a function of the host. One that the host does not have does nothing. -/
def callNative (host : Host) (native : Native) (arguments : List Value) (line : Nat) :
    Exec Value :=
  match host.functions[native.id]? with
  | none => pure .nil
  | some function =>
    match function.action with
    | .compute result => ofExcept line (result arguments)
    | .readClock => fun machine =>
      .done (.number (host.clock machine.clockReadings))
        { machine with clockReadings := machine.clockReadings + 1 }

end Exec

end Lox
