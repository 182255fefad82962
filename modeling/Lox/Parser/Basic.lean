import Lox.Parser.Cursor
import Lox.Parser.Fault
import Lox.Parser.Scope

/-!
Parsers: functions of a state that go over tokens and collect faults.

A parser either has a result, or gives up after it has reported a fault, or runs out of the steps it
was allowed; the last is no answer about the tokens. In the first two cases the state goes on, so
faults reported on the way are never lost, and a parser that gives up leaves the cursor where it was
at that moment for `recovering` to pick up.

`withLoop`, `withFunctionBody`, `withLabel` and `keepingBack` change the scope for the parser they
are given and put it back however that parser ends.
-/

namespace Lox

/-- The state of a parser. -/
structure Parser.State where
  cursor : Cursor
  scope : Scope
  /-- The faults found so far, the latest first. -/
  errors : List GrammarError

/-- How a parser ends. -/
inductive Parser.Result (α : Type) where
  | parsed (value : α) (state : Parser.State)
  | failed (state : Parser.State)
  | exhausted

/-- A parser with results in `α`. -/
abbrev Parser (α : Type) := Parser.State → Parser.Result α

namespace Parser

variable {α β : Type}

/-- Parse, and go on with the result. -/
@[inline] def andThen (parser : Parser α) (next : α → Parser β) : Parser β := fun state =>
  match parser state with
  | .parsed value state => next value state
  | .failed state => .failed state
  | .exhausted => .exhausted

instance : Monad Parser where
  pure value := fun state => .parsed value state
  bind := andThen

/-- The parser that was allowed no steps. -/
def exhausted : Parser α := fun _ => .exhausted

/-- The current token. -/
def current : Parser Token := fun state =>
  .parsed state.cursor.current state

/-- Whether the current token is of a kind. -/
def check (kind : TokenKind) : Parser Bool := fun state =>
  .parsed (state.cursor.check kind) state

/-- Whether the input is over. -/
def atEnd : Parser Bool := fun state =>
  .parsed state.cursor.atEnd state

/-- Pass the current token. -/
def advance : Parser Token := fun state =>
  .parsed state.cursor.current { state with cursor := state.cursor.advance }

/-- Pass the current token if it is of a kind; the token, if so. -/
def eat? (kind : TokenKind) : Parser (Option Token) := fun state =>
  if state.cursor.check kind then
    .parsed (some state.cursor.current) { state with cursor := state.cursor.advance }
  else .parsed none state

/-- Pass the current token if it is of a kind; whether it was. -/
def eat (kind : TokenKind) : Parser Bool := do
  return (← eat? kind).isSome

/-- Report a fault, unless faults are kept back, and go on. -/
def report (token : Token) (fault : GrammarFault) : Parser Unit := fun state =>
  .parsed () { state with errors := ⟨token, fault, state.scope.reporting⟩ :: state.errors }

/-- Report a fault, unless faults are kept back, and give up. -/
def fail (token : Token) (fault : GrammarFault) : Parser α := fun state =>
  .failed { state with errors := ⟨token, fault, state.scope.reporting⟩ :: state.errors }

/-- Pass a token that has to be of a kind; without it, report what is missing and give up. -/
def expect (kind : TokenKind) (part : Missing) : Parser Token := do
  match ← eat? kind with
  | some token => return token
  | none => fail (← current) (.missing part)

/-- The name that an identifier token stands for. -/
def nameOf (token : Token) : Name :=
  ⟨token.lexeme, token.line⟩

/-- Pass an identifier; without it, report what is missing and give up. -/
def expectName (part : Missing) : Parser Name := do
  return nameOf (← expect .identifier part)

/-- The scope of the current place. -/
def scope : Parser Scope := fun state =>
  .parsed state.scope state

/-- Put another scope in place. -/
def setScope (scope : Scope) : Parser Unit := fun state =>
  .parsed () { state with scope }

/-- Change the scope however a result is reached. -/
def Result.mapScope (change : Scope → Scope) : Result α → Result α
  | .parsed value state => .parsed value { state with scope := change state.scope }
  | .failed state => .failed { state with scope := change state.scope }
  | .exhausted => .exhausted

/-- Parse the body of a loop. -/
def withLoop (parser : Parser α) : Parser α := fun state =>
  let around := state.scope.context
  (parser { state with scope := { state.scope with context := around.add .loop } }).mapScope
    fun scope => { scope with context := around }

/-- Parse the body of a function. -/
def withFunctionBody (parser : Parser α) : Parser α := fun state =>
  let around := state.scope
  (parser { state with scope := around.enterFunction }).mapScope fun _ => around

/-- Parse the statement that a label names. -/
def withLabel (label : Name) (isLoop : Bool) (parser : Parser α) : Parser α := fun state =>
  let inside := { state.scope with
    labels := state.scope.labels.push label.text isLoop
    pendingLoop := if isLoop then some label else state.scope.pendingLoop }
  (parser { state with scope := inside }).mapScope
    fun scope => { scope with labels := scope.labels.pop isLoop }

/-- Parse with the faults that are found kept back: they count, but they are not reported. -/
def keepingBack (parser : Parser α) : Parser α := fun state =>
  (parser { state with scope := { state.scope with reporting := false } }).mapScope
    fun scope => { scope with reporting := true }

/-- Take the label in front of a loop. -/
def takePendingLoop : Parser (Option Name) := do
  let around ← scope
  setScope { around with pendingLoop := none }
  return around.pendingLoop

/-- Parse, and on giving up go on to the next statement boundary with no result. -/
def recovering (parser : Parser α) : Parser (Option α) := fun state =>
  match parser state with
  | .parsed value state => .parsed (some value) state
  | .failed state => .parsed none { state with cursor := state.cursor.synchronize }
  | .exhausted => .exhausted

end Parser

end Lox
