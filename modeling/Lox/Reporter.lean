import Lox.Diagnostic
import Lox.Text.Lines

/-!
Reporters: where printed lines and diagnostics go.

Scanning, parsing and running hand what they print and what they find wrong to a reporter, which
also answers whether a mistake of either phase was reported since its flags were last cleared. There
are two. A `Transcript` keeps everything, and reads its flags off the diagnostics reported since the
last reset. A `Console` keeps two flags and passes everything on to two streams.
-/

namespace Lox

/-- Where printed lines and diagnostics go. -/
class Reporter (ρ : Type) where
  /-- Print one line. -/
  print : ρ → String → ρ
  /-- Report a diagnostic. -/
  report : ρ → Diagnostic → ρ
  /-- Clear the flags. -/
  reset : ρ → ρ
  /-- Whether a mistake in a source was reported since the last reset. -/
  hadSourceError : ρ → Bool
  /-- Whether a mistake at run time was reported since the last reset. -/
  hadRuntimeError : ρ → Bool

namespace Reporter

variable {ρ : Type} [Reporter ρ]

/-- Print lines in order. -/
def printAll (reporter : ρ) (texts : List String) : ρ :=
  texts.foldl print reporter

/-- Report diagnostics in order. -/
def reportAll (reporter : ρ) (diagnostics : List Diagnostic) : ρ :=
  diagnostics.foldl report reporter

/-- Report a mistake in the source. -/
def reportSource (reporter : ρ) (line : Nat) (location message : String) : ρ :=
  report reporter (.source line location message)

/-- Report a mistake at run time. -/
def reportRuntime (reporter : ρ) (line : Nat) (message : String) : ρ :=
  report reporter (.runtime line message)

end Reporter

/-- A reporter that keeps all it is given. -/
structure Transcript where
  /-- What was printed, a newline after each line. -/
  output : String
  /-- What was reported, oldest first. -/
  diagnostics : Array Diagnostic
  /-- How many diagnostics had been reported when the flags were last cleared. -/
  windowStart : Nat
  windowStart_le : windowStart ≤ diagnostics.size
  deriving DecidableEq, Repr

namespace Transcript

/-- The transcript in which nothing has happened. -/
def empty : Transcript := ⟨"", #[], 0, Nat.le_refl _⟩

/-- The diagnostics reported since the flags were last cleared. -/
def window (transcript : Transcript) : List Diagnostic :=
  transcript.diagnostics.toList.drop transcript.windowStart

/-- What was printed, as lines. -/
def outputLines (transcript : Transcript) : List String :=
  Text.lines transcript.output

/-- The texts of all diagnostics, oldest first. -/
def messages (transcript : Transcript) : List String :=
  transcript.diagnostics.toList.map Diagnostic.render

/-- Forget everything. -/
def clear (_ : Transcript) : Transcript := empty

instance : Reporter Transcript where
  print transcript text := { transcript with output := transcript.output ++ text ++ "\n" }
  report transcript diagnostic :=
    { transcript with
      diagnostics := transcript.diagnostics.push diagnostic
      windowStart_le := by
        rw [Array.size_push]
        exact Nat.le_succ_of_le transcript.windowStart_le }
  reset transcript :=
    { transcript with windowStart := transcript.diagnostics.size, windowStart_le := Nat.le_refl _ }
  hadSourceError transcript := transcript.window.any Diagnostic.isSource
  hadRuntimeError transcript := transcript.window.any Diagnostic.isRuntime

end Transcript

/-- A reporter that passes all it is given on to an output stream and an error stream. -/
structure Console where
  sourceError : Bool
  runtimeError : Bool
  /-- What goes to the output stream and has not been written yet. -/
  output : String
  /-- What goes to the error stream and has not been written yet. -/
  errors : String
  deriving DecidableEq, Repr

namespace Console

/-- The console to which nothing has been written. -/
def empty : Console := ⟨false, false, "", ""⟩

/-- Put text on the output stream as it is. -/
def write (console : Console) (text : String) : Console :=
  { console with output := console.output ++ text }

/-- Put a line on the error stream. -/
def writeError (console : Console) (text : String) : Console :=
  { console with errors := console.errors ++ text ++ "\n" }

/-- What is left once both streams have been written. -/
def written (console : Console) : Console :=
  { console with output := "", errors := "" }

instance : Reporter Console where
  print console text := { console with output := console.output ++ text ++ "\n" }
  report console diagnostic :=
    { console with
      sourceError := console.sourceError || diagnostic.isSource
      runtimeError := console.runtimeError || diagnostic.isRuntime
      errors := console.errors ++ diagnostic.render ++ "\n" }
  reset console := { console with sourceError := false, runtimeError := false }
  hadSourceError console := console.sourceError
  hadRuntimeError console := console.runtimeError

end Console

end Lox
