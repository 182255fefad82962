import Lox.Parser.Basic

/-!
The grammar of expressions.

From loosest to tightest: assignment, `or`, `and`, equality, comparison, sums, products, prefix
operators, calls, and primary expressions. The six levels between assignment and the prefix
operators all have one form, a row of operands with operators between them that groups to the left,
so they are one parser with a `Level`. Assignment groups to the right: its left side is read as an
expression of the level below and then has to be a variable. That it is not, and that a call has too
many arguments, is reported without giving up.

Every parser here is allowed a number of steps, one for each parser it goes through on the way down.
-/

namespace Lox

/-- The levels of operators with two operands, loosest first. -/
inductive Level where
  | or | and | equality | comparison | sum | product
  deriving DecidableEq, Repr

/-- An operator with two operands. -/
inductive InfixOp where
  | logical (op : LogicalOp)
  | binary (op : BinaryOp)
  deriving DecidableEq, Repr

namespace Level

/-- The next tighter level, if there is one. -/
def tighter? : Level → Option Level
  | .or => some .and
  | .and => some .equality
  | .equality => some .comparison
  | .comparison => some .sum
  | .sum => some .product
  | .product => none

/-- The operator that a kind of token is on a level. -/
def operator? : Level → TokenKind → Option InfixOp
  | .or, .kwOr => some (.logical .or)
  | .and, .kwAnd => some (.logical .and)
  | .equality, .bangEqual => some (.binary .notEqual)
  | .equality, .equalEqual => some (.binary .equal)
  | .comparison, .greater => some (.binary .greater)
  | .comparison, .greaterEqual => some (.binary .greaterEqual)
  | .comparison, .less => some (.binary .less)
  | .comparison, .lessEqual => some (.binary .lessEqual)
  | .sum, .minus => some (.binary .subtract)
  | .sum, .plus => some (.binary .add)
  | .product, .slash => some (.binary .divide)
  | .product, .star => some (.binary .multiply)
  | _, _ => none

end Level

/-- The expression that an operator on a line makes of its operands. -/
def InfixOp.combine (op : InfixOp) (line : Nat) (left right : Expr) : Expr :=
  match op with
  | .logical op => .logical op left right
  | .binary op => .binary op line left right

/-- The prefix operator that a kind of token is. -/
def prefixOp? : TokenKind → Option UnaryOp
  | .bang => some .not
  | .minus => some .negate
  | _ => none

/-- The value that a string or number token stands for. A token that carries none stands for nil. -/
def literalValue : Option Token.Literal → Literal
  | some (.number value) => .number value
  | some (.text value) => .text value
  | none => .nil

/-- The expression that one token is, if it is one by itself. -/
def atom? (token : Token) : Option Expr :=
  match token.kind with
  | .kwFalse => some (.literal (.bool false))
  | .kwTrue => some (.literal (.bool true))
  | .kwNil => some (.literal .nil)
  | .number | .string => some (.literal (literalValue token.literal))
  | .identifier => some (.variable (Parser.nameOf token))
  | _ => none

namespace Parser

/-- Pass the current token if it is an operator of a level; the operator and its line, if so. -/
def eatInfix? (level : Level) : Parser (Option (InfixOp × Nat)) := do
  let token ← current
  match level.operator? token.kind with
  | none => return none
  | some op =>
    let _ ← advance
    return some (op, token.line)

/-- Pass the current token if it is a prefix operator; the operator and its line, if so. -/
def eatPrefix? : Parser (Option (UnaryOp × Nat)) := do
  let token ← current
  match prefixOp? token.kind with
  | none => return none
  | some op =>
    let _ ← advance
    return some (op, token.line)

/-- Report a list that is about to have more members than it may have. -/
def checkLimit (count : Nat) (fault : GrammarFault) : Parser Unit := do
  if argumentLimit ≤ count then report (← current) fault

mutual

/-- An expression of any level: an assignment, or what may stand on its left. -/
def expression : (steps : Nat) → Parser Expr
  | 0 => exhausted
  | steps + 1 => do
    let target ← operation steps .or
    match ← eat? .equal with
    | none => return target
    | some equals =>
      let value ← expression steps
      match target with
      | .variable name => return .assign name value
      | _ =>
        report equals .assignmentTarget
        return target

/-- A row of operands with operators of a level between them. -/
def operation : (steps : Nat) → Level → Parser Expr
  | 0, _ => exhausted
  | steps + 1, level => do
    let first ← operand steps level
    operationFrom steps level first

/-- The rest of such a row, after what has been read of it so far. -/
def operationFrom : (steps : Nat) → Level → Expr → Parser Expr
  | 0, _, _ => exhausted
  | steps + 1, level, left => do
    match ← eatInfix? level with
    | none => return left
    | some (op, line) =>
      let right ← operand steps level
      operationFrom steps level (op.combine line left right)

/-- One operand of such a row. -/
def operand : (steps : Nat) → Level → Parser Expr
  | 0, _ => exhausted
  | steps + 1, level =>
    match level.tighter? with
    | some tighter => operation steps tighter
    | none => unary steps

/-- Prefix operators in front of a call. -/
def unary : (steps : Nat) → Parser Expr
  | 0 => exhausted
  | steps + 1 => do
    match ← eatPrefix? with
    | none => call steps
    | some (op, line) => return .unary op line (← unary steps)

/-- A primary expression and the calls made of it. -/
def call : (steps : Nat) → Parser Expr
  | 0 => exhausted
  | steps + 1 => do
    let callee ← primary steps
    callFrom steps callee

/-- The calls made of an expression that has been read. -/
def callFrom : (steps : Nat) → Expr → Parser Expr
  | 0, _ => exhausted
  | steps + 1, callee => do
    match ← eat? .leftParen with
    | none => return callee
    | some _ =>
      let arguments ← argumentList steps
      let close ← expect .rightParen .parenAfterArguments
      callFrom steps (.call callee arguments close.line)

/-- The arguments of a call, which may be none. -/
def argumentList : (steps : Nat) → Parser (List Expr)
  | 0 => exhausted
  | steps + 1 => do
    if ← check .rightParen then return []
    else argumentsFrom steps 0

/-- One argument and those after it, when `count` arguments have been read. -/
def argumentsFrom : (steps : Nat) → (count : Nat) → Parser (List Expr)
  | 0, _ => exhausted
  | steps + 1, count => do
    checkLimit count .tooManyArguments
    let first ← expression steps
    if ← eat .comma then return first :: (← argumentsFrom steps (count + 1))
    else return [first]

/-- A value, a variable, or an expression in parentheses. -/
def primary : (steps : Nat) → Parser Expr
  | 0 => exhausted
  | steps + 1 => do
    let token ← current
    match atom? token with
    | some expr =>
      let _ ← advance
      return expr
    | none =>
      if ← eat .leftParen then
        let inner ← expression steps
        let _ ← expect .rightParen .parenAfterExpression
        return .group inner
      else fail token (.missing .expression)

end

end Parser

end Lox
