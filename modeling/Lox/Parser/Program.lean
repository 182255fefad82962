import Lox.Parser.Statement

/-!
Programs.

`parse` reads a row of tokens as declarations up to the end of the input, and keeps those without a
mistake that costs them. For the prompt it first tries to read the whole input as one expression,
which is then printed. That attempt keeps the faults it finds back and counts only if it finds none
and comes to the end of the input; otherwise the parser goes back to the first token, forgets the
count, and reads declarations from there on in the state that the attempt has left.
-/

namespace Lox

/-- What parsing makes of a row of tokens. -/
structure Parsed where
  statements : List Stmt
  /-- How many faults were found. -/
  errorCount : Nat
  /-- The faults that were reported, in the order in which they were found. -/
  errors : List GrammarError

namespace Parsed

/-- Whether any fault was found. -/
def hasErrors (parsed : Parsed) : Bool :=
  decide (0 < parsed.errorCount)

/-- What the user is told about the faults. -/
def diagnostics (parsed : Parsed) : List Diagnostic :=
  parsed.errors.map GrammarError.toDiagnostic

end Parsed

namespace Parser

/-- The state on the first of the given tokens. -/
def State.start (tokens : List Token) : State :=
  ⟨.ofTokens tokens, .program, []⟩

/-- The state back on the first token, with no fault counted. -/
def State.rewound (state : State) : State :=
  { state with cursor := state.cursor.moveTo 0, errors := [] }

/-- The faults that were reported, in the order in which they were found. -/
def State.reported (state : State) : List GrammarError :=
  (state.errors.filter (·.reported)).reverse

/-- More steps than parsing a row of tokens can take: a token is passed at least every twenty. -/
def stepBound (tokens : List Token) : Nat :=
  20 * (tokens.length + 1)

/-- The declarations up to the end of the input. -/
def program : (steps : Nat) → Parser (List Stmt)
  | 0 => exhausted
  | steps + 1 => do
    if ← atEnd then return []
    else
      let first ← declaration steps
      return first.toList ++ (← program steps)

/-- The expression that the whole input is, if it is one and has no fault. No fault is reported. -/
def wholeExpression (steps : Nat) : Parser (Option Expr) := fun state =>
  match keepingBack (expression steps) state with
  | .parsed expr after =>
    .parsed (if after.errors.isEmpty && after.cursor.atEnd then some expr else none) after
  | .failed after => .parsed none after
  | .exhausted => .exhausted

/-- What the declarations from a state on are. -/
def programFrom (steps : Nat) (state : State) : Parsed :=
  match program steps state with
  | .parsed statements after => ⟨statements, after.errors.length, after.reported⟩
  | .failed after => ⟨[], after.errors.length, after.reported⟩
  | .exhausted => ⟨[], 0, []⟩

/-- What the declarations in a row of tokens are. -/
def parseProgram (tokens : List Token) : Parsed :=
  programFrom (stepBound tokens) (.start tokens)

end Parser

/-- Parse a row of tokens; with `expressionOnly`, a single expression stands for printing it. -/
def parse (tokens : List Token) (expressionOnly : Bool) : Parsed :=
  if expressionOnly then
    match Parser.wholeExpression (Parser.stepBound tokens) (.start tokens) with
    | .parsed (some expr) after => ⟨[.print expr], 0, after.reported⟩
    | .parsed none after =>
      let rest := Parser.programFrom (Parser.stepBound tokens) after.rewound
      { rest with errors := after.reported ++ rest.errors }
    | _ => Parser.parseProgram tokens
  else Parser.parseProgram tokens

end Lox
