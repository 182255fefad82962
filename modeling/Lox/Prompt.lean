import Lox.Failure
import Lox.Session
import Lox.Text.Blank

/-!
The prompt.

The prompt takes its input line by line; a line ends with its newline, and a last piece without one
counts too. Each line is trimmed. An empty one does nothing, `:quit` ends the prompt, `:env` and
`:globals` print the listing of a frame, and every other line is run. Before each line, and before
the end of the input is seen, the prompt is written. Only input that is not UTF-8 is a failure.
-/

namespace Lox.Prompt

/-- What is written before each line. -/
def text : String := "> "

/-- What a trimmed line asks for. -/
inductive Command where
  | nothing
  | quit
  | showScope
  | showGlobals
  | run (source : String)
  deriving DecidableEq, Repr

/-- What a line asks for. -/
def Command.ofLine (line : String) : Command :=
  match Text.trimBlank line with
  | "" => .nothing
  | ":quit" => .quit
  | ":env" => .showScope
  | ":globals" => .showGlobals
  | source => .run source

/-- The first line of some input with its newline, and the input after it. -/
def splitLine : List UInt8 → List UInt8 × List UInt8
  | [] => ([], [])
  | byte :: rest =>
    if byte = 10 then ([byte], rest)
    else
      let (line, rest) := splitLine rest
      (byte :: line, rest)

variable {ρ : Type} [Reporter ρ]

/-- What happens after a line: the prompt goes on or it has ended, well or not. -/
inductive Step (ρ : Type) where
  | next (session : Session ρ)
  | ended (session : Session ρ)
  | failed (failure : Failure) (session : Session ρ)

/-- Do what a line asks for. -/
def obey (fuel : Nat) (session : Session ρ) : Command → Option (Step ρ)
  | .nothing => some (.next session)
  | .quit => some (.ended session)
  | .showScope =>
    some (.next { session with reporter := Reporter.print session.reporter session.dump })
  | .showGlobals =>
    some (.next { session with reporter := Reporter.print session.reporter session.dumpGlobals })
  | .run source => (session.runLine fuel source).map fun result => .next result.2

/-- Take one line of input; no bytes at all are the end of the input. -/
def step (fuel : Nat) (session : Session ρ) (line : List UInt8) : Option (Step ρ) :=
  if line.isEmpty then some (.ended session)
  else
    match String.fromUTF8? ⟨line.toArray⟩ with
    | none => some (.failed .invalidLine session)
    | some line => obey fuel session (.ofLine line)

/-- How the prompt ended. -/
structure Finished (ρ : Type) where
  failure : Option Failure
  session : Session ρ
  /-- How often the prompt was written. -/
  prompts : Nat

/-- Take up to `lines` lines of input. Before each, `announce` writes the prompt where the reporter
writes it; `prompts` counts how often that was done before. -/
def runLines (fuel : Nat) (announce : ρ → ρ) :
    (lines prompts : Nat) → Session ρ → List UInt8 → Option (Finished ρ)
  | 0, prompts, session, _ => some ⟨none, session, prompts⟩
  | lines + 1, prompts, session, input => do
    let (line, rest) := splitLine input
    let announced := { session with reporter := announce session.reporter }
    match ← step fuel announced line with
    | .next session => runLines fuel announce lines (prompts + 1) session rest
    | .ended session => return ⟨none, session, prompts + 1⟩
    | .failed failure session => return ⟨some failure, session, prompts + 1⟩

/-- Take all input. It has no more lines than bytes, and its end is one more. -/
def run (fuel : Nat) (announce : ρ → ρ) (session : Session ρ) (input : List UInt8) :
    Option (Finished ρ) :=
  runLines fuel announce (input.length + 1) 0 session input

end Lox.Prompt
