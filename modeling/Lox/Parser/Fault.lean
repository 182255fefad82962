import Lox.Diagnostic

/-!
What can be wrong with the tokens of a program.

Most faults are a missing part, named together with the place where it was expected. The others are
rules that a program breaks although it can be read: what is assigned to has to be a variable, calls
and functions have a limit, and `break`, `continue` and `return` need something around them to
leave.
-/

namespace Lox

/-- The most arguments that a call may give, and parameters that a function may have. -/
def argumentLimit : Nat := 255

/-- A part that is missing, with its place. -/
inductive Missing where
  | expression
  | variableName
  | semicolonAfterVariable
  | functionName
  | parenAfterFunctionName
  | parameterName
  | parenAfterParameters
  | braceBeforeBody
  | semicolonAfterValue
  | semicolonAfterExpression
  | braceAfterBlock
  | parenAfterIf
  | parenAfterIfCondition
  | parenAfterWhile
  | parenAfterCondition
  | parenAfterFor
  | semicolonAfterLoopCondition
  | parenAfterForClauses
  | labelName
  | labelTarget
  | semicolonAfterBreak
  | semicolonAfterContinue
  | semicolonAfterReturn
  | parenAfterArguments
  | parenAfterExpression
  deriving DecidableEq, Repr

/-- The words for a missing part and its place. -/
def Missing.words : Missing → String
  | .expression => "expression"
  | .variableName => "variable name"
  | .semicolonAfterVariable => "';' after variable declaration"
  | .functionName => "function name"
  | .parenAfterFunctionName => "'(' after function name"
  | .parameterName => "parameter name"
  | .parenAfterParameters => "')' after parameters"
  | .braceBeforeBody => "'\x7b' before function body"
  | .semicolonAfterValue => "';' after value"
  | .semicolonAfterExpression => "';' after expression"
  | .braceAfterBlock => "'\x7d' after block"
  | .parenAfterIf => "'(' after 'if'"
  | .parenAfterIfCondition => "')' after if condition"
  | .parenAfterWhile => "'(' after 'while'"
  | .parenAfterCondition => "')' after condition"
  | .parenAfterFor => "'(' after 'for'"
  | .semicolonAfterLoopCondition => "';' after loop condition"
  | .parenAfterForClauses => "')' after for clauses"
  | .labelName => "label name after ':'"
  | .labelTarget => "loop, if or block after label"
  | .semicolonAfterBreak => "';' after 'break'"
  | .semicolonAfterContinue => "';' after 'continue'"
  | .semicolonAfterReturn => "';' after return value"
  | .parenAfterArguments => "')' after arguments"
  | .parenAfterExpression => "')' after expression"

/-- What can be wrong with the tokens of a program. -/
inductive GrammarFault where
  | missing (part : Missing)
  | assignmentTarget
  | tooManyArguments
  | tooManyParameters
  | unknownLabel (label : String)
  | unknownLoopLabel (label : String)
  | breakOutside
  | continueOutside
  | returnOutside
  deriving DecidableEq, Repr

/-- The wording of a fault. -/
def GrammarFault.message : GrammarFault → String
  | .missing part => "Expect " ++ part.words ++ "."
  | .assignmentTarget => "Invalid assignment target."
  | .tooManyArguments => "Can't have more than " ++ toString argumentLimit ++ " arguments."
  | .tooManyParameters => "Can't have more than " ++ toString argumentLimit ++ " parameters."
  | .unknownLabel label => "No enclosing label named '" ++ label ++ "'."
  | .unknownLoopLabel label => "No enclosing loop labeled '" ++ label ++ "'."
  | .breakOutside => "Can't use 'break' outside of a loop or label."
  | .continueOutside => "Can't use 'continue' outside of a loop."
  | .returnOutside => "Can't return from top-level code."

/-- A fault at a token. -/
structure GrammarError where
  token : Token
  fault : GrammarFault
  /-- Whether it was reported when it was found. -/
  reported : Bool

/-- What the user is told about a fault at a token. -/
def GrammarError.toDiagnostic (error : GrammarError) : Diagnostic :=
  .atToken error.token error.fault.message

end Lox
