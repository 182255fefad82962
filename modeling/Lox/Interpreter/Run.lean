import Lox.Interpreter.Evaluate
import Lox.Reporter

/-!
Interpreters, and runs of whole programs.

An interpreter is a host together with a machine whose first frame holds the global names: `clock`
and whatever else the host registers. Programs never run in that frame but in children of it. A run
begins with no call in progress; a `break`, `continue` or `return` that no statement of the program
takes is an error of the run.
-/

namespace Lox

/-- The number of calls that may be in progress unless something else is asked for. -/
def defaultMaxCallDepth : Nat := 4096

/-- The function that reads the clock. -/
def HostFunction.clock : HostFunction := ⟨"clock", 0, .readClock⟩

/-- Fuel for runs that should go on as long as they need to. -/
def ampleFuel : Nat := Nat.pow 2 60

/-- A host and a machine with the global names in its first frame. -/
structure Interpreter where
  host : Host
  machine : Machine

namespace Interpreter

variable {α ρ : Type} [Reporter ρ]

/-- The frame of the global names. -/
def globals : FrameRef := ⟨0⟩

/-- Put functions of the host into the frame of the global names, the first of them at place `id`. A
later function takes the name of an earlier one. -/
def register (store : Store) (id : Nat) : List HostFunction → Store
  | [] => store
  | function :: rest =>
    let native : Native := ⟨id, function.name, function.arity⟩
    register (store.define globals function.name (some (.function (.native native)))) (id + 1) rest

/-- An interpreter with the clock and the given functions. -/
def build (functions : List HostFunction) (clock : Nat → Float) (maxCallDepth : Nat) :
    Interpreter :=
  let functions := HostFunction.clock :: functions
  { host := ⟨functions.toArray, clock, maxCallDepth⟩
    machine := ⟨register Store.empty.addRoot.2 0 functions, 0, #[], 0⟩ }

/-- Run a row of statements in a frame, keeping what they define there. -/
def executeIn (host : Host) (fuel : Nat) (program : List Stmt) (ref : FrameRef) : Exec Unit :=
  fun machine =>
    (do
      match ← executeAll host fuel program ref with
      | .normal => return ()
      | .breaking signal => Exec.fail (signal.escape "break")
      | .continuing signal => Exec.fail (signal.escape "continue")
      | .returning _ line => Exec.fail ⟨.escapedSignal "return", line⟩ : Exec Unit)
      { machine with callDepth := 0 }

/-- Run a program in a new child of the frame of the global names. -/
def interpret (host : Host) (fuel : Nat) (program : List Stmt) : Exec Unit := do
  let ref ← Exec.newChild globals
  executeIn host fuel program ref

/-- Act on the machine of an interpreter, handing what is printed to a reporter. There is no result
if the fuel was not enough. -/
def perform (interpreter : Interpreter) (reporter : ρ) (action : Host → Exec α) :
    Option (Except RuntimeError α × Interpreter × ρ) :=
  let go (result : Except RuntimeError α) (machine : Machine) :=
    (result, { interpreter with machine := { machine with printed := #[] } },
      Reporter.printAll reporter machine.printed.toList)
  match action interpreter.host interpreter.machine with
  | .done value machine => some (go (.ok value) machine)
  | .failed error machine => some (go (.error error) machine)
  | .outOfFuel => none

/-- Act on the machine of an interpreter, handing what is printed and a run-time error that ends the
action to a reporter. -/
def performReporting (interpreter : Interpreter) (reporter : ρ) (action : Host → Exec α) :
    Option (Except RuntimeError α × Interpreter × ρ) := do
  let (result, interpreter, reporter) ← interpreter.perform reporter action
  match result with
  | .ok _ => return (result, interpreter, reporter)
  | .error error => return (result, interpreter, Reporter.report reporter error.toDiagnostic)

end Interpreter

end Lox
