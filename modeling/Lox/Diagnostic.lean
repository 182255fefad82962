import Lox.Token.Basic

/-!
Diagnostics: what a user is told about a mistake.

A mistake in the source is found before anything runs and names a place in the text; a mistake at
run time names the line only, and below the message. The two kinds are worded differently and set
different flags, so a diagnostic keeps which of them it is.
-/

namespace Lox

/-- When a mistake is found. -/
inductive Diagnostic.Phase where
  | source
  | runtime
  deriving DecidableEq, Repr

/-- What a user is told about a mistake. -/
structure Diagnostic where
  phase : Diagnostic.Phase
  line : Nat
  /-- The place within the line, as text that goes into the message; empty where none is named. -/
  location : String
  message : String
  deriving DecidableEq, Repr

namespace Diagnostic

/-- A mistake in the source. -/
def source (line : Nat) (location message : String) : Diagnostic :=
  ⟨.source, line, location, message⟩

/-- A mistake at run time. -/
def runtime (line : Nat) (message : String) : Diagnostic :=
  ⟨.runtime, line, "", message⟩

/-- How a message names the place of a token. -/
def locationOf (token : Token) : String :=
  if token.kind = .endOfInput then " at end" else " at '" ++ token.lexeme ++ "'"

/-- A mistake in the source at a token. -/
def atToken (token : Token) (message : String) : Diagnostic :=
  source token.line (locationOf token) message

/-- Whether a mistake is in the source. -/
def isSource (diagnostic : Diagnostic) : Bool :=
  diagnostic.phase == .source

/-- Whether a mistake arose at run time. -/
def isRuntime (diagnostic : Diagnostic) : Bool :=
  diagnostic.phase == .runtime

/-- The text of a diagnostic. -/
def render (diagnostic : Diagnostic) : String :=
  match diagnostic.phase with
  | .source =>
    "[line " ++ toString diagnostic.line ++ "] Error" ++ diagnostic.location ++ ": "
      ++ diagnostic.message
  | .runtime => diagnostic.message ++ "\n[line " ++ toString diagnostic.line ++ "]"

end Diagnostic

end Lox
