import Lox.Interpreter.Run
import Lox.Parser.Program
import Lox.Syntax.Outline
import Lox.Token.Scan

/-!
From source text to a run.

`frontEnd` scans and parses a text and reports what is wrong with it; there is a program to run only
if nothing is, and only if the reporter has seen no other mistake in a source since its last reset.
`runSource` runs a whole program with a new interpreter. A `Session` keeps an interpreter and one
frame for all its lines; each line starts with the reporter's flags cleared, and a line that is one
expression prints its value.
-/

namespace Lox

/-- How a run ended. What went wrong has been reported by then. -/
inductive Status where
  | ok
  | sourceError
  | runtimeError
  deriving DecidableEq, Repr

/-- The exit code of a run that ended so. -/
def Status.exitCode : Status → Nat
  | .ok => 0
  | .sourceError => 65
  | .runtimeError => 70

/-- Whether a run ended well. -/
def Status.isOk (status : Status) : Bool :=
  status == .ok

/-- The status of a run that ended with or without a run-time error. -/
def Status.ofResult {α : Type} : Except RuntimeError α → Status
  | .ok _ => .ok
  | .error _ => .runtimeError

variable {ρ : Type} [Reporter ρ]

/-- The tokens of a source text; what is wrong with its characters is reported. -/
def scanReporting (source : String) (reporter : ρ) : List Token × ρ :=
  let scanned := scan source
  (scanned.tokens, Reporter.reportAll reporter scanned.diagnostics)

/-- What parsing makes of a row of tokens; the faults found are reported. -/
def parseReporting (tokens : List Token) (expressionOnly : Bool) (reporter : ρ) : Parsed × ρ :=
  let parsed := parse tokens expressionOnly
  (parsed, Reporter.reportAll reporter parsed.diagnostics)

/-- The program that a source text is, if it may run. -/
def frontEnd (source : String) (expressionOnly : Bool) (reporter : ρ) : Option (List Stmt) × ρ :=
  let (tokens, reporter) := scanReporting source reporter
  let (parsed, reporter) := parseReporting tokens expressionOnly reporter
  if parsed.hasErrors || Reporter.hadSourceError reporter then (none, reporter)
  else (some parsed.statements, reporter)

/-- The listing of the tokens of a source text, one line for each. -/
def listTokens (source : String) (reporter : ρ) : List String × ρ :=
  let (tokens, reporter) := scanReporting source reporter
  (tokens.map Token.describe, reporter)

/-- The outline of the program that a source text is, if it may run. -/
def outlineSource (source : String) (reporter : ρ) : Option String × ρ :=
  let (program, reporter) := frontEnd source false reporter
  (program.map renderProgram, reporter)

/-- Run a whole program with a new interpreter. -/
def runSource (fuel : Nat) (clock : Nat → Float) (source : String) (reporter : ρ) :
    Option (Status × ρ) :=
  match frontEnd source false reporter with
  | (none, reporter) => some (.sourceError, reporter)
  | (some program, reporter) => do
    let interpreter := Interpreter.build [] clock defaultMaxCallDepth
    let (result, _, reporter) ← interpreter.performReporting reporter fun host =>
      Interpreter.interpret host fuel program
    return (.ofResult result, reporter)

/-- An interpreter with one frame that collects the definitions of all lines. -/
structure Session (ρ : Type) where
  interpreter : Interpreter
  scope : FrameRef
  reporter : ρ

namespace Session

/-- A session with an interpreter in which nothing has run. -/
def start (interpreter : Interpreter) (reporter : ρ) : Session ρ :=
  let (scope, store) := interpreter.machine.store.addChild Interpreter.globals
  { interpreter := { interpreter with machine := { interpreter.machine with store } }
    scope, reporter }

/-- Run one line. -/
def runLine (fuel : Nat) (session : Session ρ) (line : String) : Option (Status × Session ρ) :=
  match frontEnd line true (Reporter.reset session.reporter) with
  | (none, reporter) => some (.sourceError, { session with reporter })
  | (some program, reporter) => do
    let (result, interpreter, reporter) ←
      session.interpreter.performReporting reporter fun host =>
        Interpreter.executeIn host fuel program session.scope
    return (.ofResult result, { session with interpreter, reporter })

/-- The listing of the session's frame. -/
def dump (session : Session ρ) : String :=
  (session.interpreter.machine.store.frame session.scope).dump

/-- The listing of the frame of the global names. -/
def dumpGlobals (session : Session ρ) : String :=
  (session.interpreter.machine.store.frame Interpreter.globals).dump

end Session

end Lox
