import Lox.Parser.Expression

/-!
The grammar of statements.

A block, a function body and a program are rows of declarations; what stands after `if`, `else`, a
loop or a label is a statement. Each declaration is parsed so that a mistake in it costs that
declaration alone: the parser goes on at the next statement boundary.

Loops are put in their final form here. The body of a loop becomes a `continuePoint` with the loop's
label, and `for` becomes a block with the first clause in front of a loop whose body is a block of
that `continuePoint` and the last clause. So a `continue` goes on with the last clause, and the
variable of a `for` is seen nowhere else.

Whether `break`, `continue` and `return` have something to leave is checked where they stand, and
reported without giving up.
-/

namespace Lox.Parser

/-- The declaration of a variable, after its keyword. -/
def variableDeclaration (steps : Nat) : Parser Stmt := do
  let name ← expectName .variableName
  let first ← do
    if ← eat .equal then pure (some (← expression steps)) else pure none
  let _ ← expect .semicolon .semicolonAfterVariable
  return .define name first

/-- A printing statement, after its keyword. -/
def printStatement (steps : Nat) : Parser Stmt := do
  let value ← expression steps
  let _ ← expect .semicolon .semicolonAfterValue
  return .print value

/-- An expression as a statement. -/
def expressionStatement (steps : Nat) : Parser Stmt := do
  let value ← expression steps
  let _ ← expect .semicolon .semicolonAfterExpression
  return .expression value

/-- A label that may be left out. -/
def optionalLabel : Parser (Option Token) :=
  eat? .identifier

/-- A `break`, after its keyword. -/
def breakStatement (keyword : Token) : Parser Stmt := do
  let label ← optionalLabel
  let _ ← expect .semicolon .semicolonAfterBreak
  let around ← scope
  match label with
  | some label =>
    if around.labels.has label.lexeme then pure ()
    else report label (.unknownLabel label.lexeme)
  | none =>
    if around.labels.isEmpty && !around.context.inLoop then report keyword .breakOutside
  return .breakOut keyword.line (label.map nameOf)

/-- A `continue`, after its keyword. -/
def continueStatement (keyword : Token) : Parser Stmt := do
  let label ← optionalLabel
  let _ ← expect .semicolon .semicolonAfterContinue
  let around ← scope
  match label with
  | some label =>
    if around.labels.hasLoop label.lexeme then pure ()
    else report label (.unknownLoopLabel label.lexeme)
  | none =>
    if !around.context.inLoop then report keyword .continueOutside
  return .continueOn keyword.line (label.map nameOf)

/-- A `return`, after its keyword. -/
def returnStatement (steps : Nat) (keyword : Token) : Parser Stmt := do
  let around ← scope
  if !around.context.inFunction then report keyword .returnOutside
  let value ← expression steps
  let _ ← expect .semicolon .semicolonAfterReturn
  return .returning keyword.line value

/-- One parameter of a function and those after it, when `count` parameters have been read. -/
def parametersFrom : (steps : Nat) → (count : Nat) → Parser (List Name)
  | 0, _ => exhausted
  | steps + 1, count => do
    checkLimit count .tooManyParameters
    let first ← expectName .parameterName
    if ← eat .comma then return first :: (← parametersFrom steps (count + 1))
    else return [first]

/-- The parameters of a function, which may be none. -/
def parameterList (steps : Nat) : Parser (List Name) := do
  if ← check .rightParen then return [] else parametersFrom steps 0

/-- A clause of a `for` that is left out when the token that ends it comes at once. -/
def optionalClause (steps : Nat) (close : TokenKind) : Parser (Option Expr) := do
  if ← check close then return none else return some (← expression steps)

/-- The first clause of a `for`, with the semicolon that ends it. -/
def firstClause (steps : Nat) : Parser (Option Stmt) := do
  if ← eat .semicolon then return none
  else if ← eat .kwVar then return some (← variableDeclaration steps)
  else return some (← expressionStatement steps)

/-- The form of a `while`. -/
def whileLoop (label : Option Name) (condition : Expr) (body : Stmt) : Stmt :=
  .loop condition (.continuePoint label body)

/-- The form of a `for`. A condition that is left out is true. -/
def forLoop (label : Option Name) (first : Option Stmt) (condition last : Option Expr)
    (body : Stmt) : Stmt :=
  .block (first.toList ++
    [.loop (condition.getD (.literal (.bool true)))
      (.block (.continuePoint label body :: (last.map .expression).toList))])

/-- Whether a kind of token begins a loop. -/
def startsLoop (kind : TokenKind) : Bool :=
  kind == .kwFor || kind == .kwWhile

/-- Whether a kind of token begins a statement that may have a label. -/
def takesLabel (kind : TokenKind) : Bool :=
  startsLoop kind || kind == .kwIf || kind == .leftBrace

/-- The kinds of token that decide which statement follows. -/
def statementKinds : List TokenKind :=
  [.kwPrint, .leftBrace, .kwIf, .kwWhile, .kwFor, .kwBreak, .kwContinue, .kwReturn, .colon]

mutual

/-- A declaration or a statement; nothing when there is a mistake in it that cannot be passed
over. -/
def declaration : (steps : Nat) → Parser (Option Stmt)
  | 0 => exhausted
  | steps + 1 => recovering (declared steps)

/-- A declaration or a statement. -/
def declared : (steps : Nat) → Parser Stmt
  | 0 => exhausted
  | steps + 1 => do
    if ← eat .kwVar then variableDeclaration steps
    else if ← eat .kwFun then functionDeclaration steps
    else statement steps

/-- The declaration of a function, after its keyword. -/
def functionDeclaration : (steps : Nat) → Parser Stmt
  | 0 => exhausted
  | steps + 1 => do
    let name ← expectName .functionName
    let _ ← expect .leftParen .parenAfterFunctionName
    let parameters ← parameterList steps
    let _ ← expect .rightParen .parenAfterParameters
    let _ ← expect .leftBrace .braceBeforeBody
    let body ← withFunctionBody (block steps)
    return .function name parameters body

/-- A statement. -/
def statement : (steps : Nat) → Parser Stmt
  | 0 => exhausted
  | steps + 1 => do
    let token ← current
    if statementKinds.contains token.kind then
      let _ ← advance
      match token.kind with
      | .kwPrint => printStatement steps
      | .leftBrace => return .block (← block steps)
      | .kwIf => ifStatement steps
      | .kwWhile => whileStatement steps
      | .kwFor => forStatement steps
      | .kwBreak => breakStatement token
      | .kwContinue => continueStatement token
      | .kwReturn => returnStatement steps token
      | _ => labelledStatement steps
    else expressionStatement steps

/-- The declarations up to a closing brace, and the brace. -/
def block : (steps : Nat) → Parser (List Stmt)
  | 0 => exhausted
  | steps + 1 => do
    let body ← declarations steps
    let _ ← expect .rightBrace .braceAfterBlock
    return body

/-- The declarations up to a closing brace or the end of the input. -/
def declarations : (steps : Nat) → Parser (List Stmt)
  | 0 => exhausted
  | steps + 1 => do
    if (← check .rightBrace) || (← atEnd) then return []
    else
      let first ← declaration steps
      return first.toList ++ (← declarations steps)

/-- An `if`, after its keyword. An `else` belongs to the nearest `if` before it. -/
def ifStatement : (steps : Nat) → Parser Stmt
  | 0 => exhausted
  | steps + 1 => do
    let _ ← expect .leftParen .parenAfterIf
    let condition ← expression steps
    let _ ← expect .rightParen .parenAfterIfCondition
    let thenBranch ← statement steps
    if ← eat .kwElse then return .conditional condition thenBranch (some (← statement steps))
    else return .conditional condition thenBranch none

/-- A `while`, after its keyword. -/
def whileStatement : (steps : Nat) → Parser Stmt
  | 0 => exhausted
  | steps + 1 => do
    let label ← takePendingLoop
    let _ ← expect .leftParen .parenAfterWhile
    let condition ← expression steps
    let _ ← expect .rightParen .parenAfterCondition
    return whileLoop label condition (← withLoop (statement steps))

/-- A `for`, after its keyword. -/
def forStatement : (steps : Nat) → Parser Stmt
  | 0 => exhausted
  | steps + 1 => do
    let label ← takePendingLoop
    let _ ← expect .leftParen .parenAfterFor
    let first ← firstClause steps
    let condition ← optionalClause steps .semicolon
    let _ ← expect .semicolon .semicolonAfterLoopCondition
    let last ← optionalClause steps .rightParen
    let _ ← expect .rightParen .parenAfterForClauses
    return forLoop label first condition last (← withLoop (statement steps))

/-- A label and the statement it names, after the colon. -/
def labelledStatement : (steps : Nat) → Parser Stmt
  | 0 => exhausted
  | steps + 1 => do
    let label ← expectName .labelName
    let target ← current
    if takesLabel target.kind then
      return .labelled label (← withLabel label (startsLoop target.kind) (statement steps))
    else fail target (.missing .labelTarget)

end

end Lox.Parser
