/-!
The trees of programs.

Expressions and statements are closed families. A tree keeps the lines that run-time messages need:
those of operators, of the parenthesis that closes a call, of names, and of the keywords that leave
a loop or a function. There is one loop statement; `for` is a block around it, and the place where
`continue` takes up again is a statement of its own, `continuePoint`.
-/

namespace Lox

/-- A name with the line on which it is written. -/
structure Name where
  text : String
  line : Nat
  deriving DecidableEq, Repr, Inhabited

/-- A value written in a program. -/
inductive Literal where
  | nil
  | bool (value : Bool)
  | number (value : Float)
  | text (value : String)
  deriving DecidableEq, Inhabited

/-- Operators in front of their operand. -/
inductive UnaryOp where
  | negate | not
  deriving DecidableEq, Repr

/-- Operators of arithmetic, comparison and equality. -/
inductive BinaryOp where
  | equal | notEqual | greater | greaterEqual | less | lessEqual | add | subtract
  | multiply | divide
  deriving DecidableEq, Repr

/-- Operators whose right operand is evaluated only if the left one does not decide. -/
inductive LogicalOp where
  | and | or
  deriving DecidableEq, Repr

/-- How an operator is written. -/
def UnaryOp.symbol : UnaryOp → String
  | .negate => "-"
  | .not => "!"

/-- How an operator is written. -/
def BinaryOp.symbol : BinaryOp → String
  | .equal => "=="
  | .notEqual => "!="
  | .greater => ">"
  | .greaterEqual => ">="
  | .less => "<"
  | .lessEqual => "<="
  | .add => "+"
  | .subtract => "-"
  | .multiply => "*"
  | .divide => "/"

/-- The operators in the order in which they are declared. -/
def BinaryOp.all : List BinaryOp :=
  [.equal, .notEqual, .greater, .greaterEqual, .less, .lessEqual, .add, .subtract,
    .multiply, .divide]

/-- How an operator is written. -/
def LogicalOp.symbol : LogicalOp → String
  | .and => "and"
  | .or => "or"

/-- Expressions. -/
inductive Expr where
  | literal (value : Literal)
  | unary (op : UnaryOp) (line : Nat) (operand : Expr)
  | binary (op : BinaryOp) (line : Nat) (left right : Expr)
  | logical (op : LogicalOp) (left right : Expr)
  | group (inner : Expr)
  | variable (name : Name)
  | assign (name : Name) (value : Expr)
  | call (callee : Expr) (arguments : List Expr) (closeLine : Nat)
  deriving Inhabited

/-- Statements. -/
inductive Stmt where
  | expression (value : Expr)
  | print (value : Expr)
  /-- The declaration of a variable, with a first value or without one. -/
  | define (name : Name) (first : Option Expr)
  | block (body : List Stmt)
  | conditional (condition : Expr) (thenBranch : Stmt) (elseBranch : Option Stmt)
  | loop (condition : Expr) (body : Stmt)
  | breakOut (line : Nat) (label : Option Name)
  | continueOn (line : Nat) (label : Option Name)
  /-- A statement with a name that `break` can give. -/
  | labelled (label : Name) (body : Stmt)
  /-- The body of a loop, which is over when `continue` is aimed at that loop. -/
  | continuePoint (label : Option Name) (body : Stmt)
  | function (name : Name) (parameters : List Name) (body : List Stmt)
  | returning (line : Nat) (value : Expr)
  deriving Inhabited

/-- A declared function, as its values carry it. -/
structure FunctionDecl where
  name : Name
  parameters : List Name
  body : List Stmt
  deriving Inhabited

/-- The number of arguments that a call has to give. -/
def FunctionDecl.arity (decl : FunctionDecl) : Nat :=
  decl.parameters.length

end Lox
