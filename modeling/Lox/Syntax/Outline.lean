import Lox.Decimal.Text
import Lox.Syntax.Basic
import Lox.Text.Quoted

/-!
Programs as nested lists.

The outline of a tree is an atom or a list of outlines in parentheses: operators and keywords come
first, then the parts in the order in which they are written. Lines are left out. The outline of a
program has one line for each statement.
-/

namespace Lox

/-- An atom, or a list of outlines. -/
inductive Outline where
  | atom (text : String)
  | node (parts : List Outline)
  deriving Inhabited

namespace Outline

mutual

/-- The text of an outline: parts of a list stand in parentheses with one space between them. -/
def render : Outline → String
  | .atom text => text
  | .node parts => "(" ++ renderParts parts ++ ")"

/-- The texts of outlines, with one space between them. -/
def renderParts : List Outline → String
  | [] => ""
  | [part] => part.render
  | part :: rest => part.render ++ " " ++ renderParts rest

end

/-- The outline of a name. -/
def ofName (name : Name) : Outline :=
  .atom name.text

end Outline

/-- The text of a written value; strings are quoted. -/
def Literal.render : Literal → String
  | .nil => "nil"
  | .bool value => toString value
  | .number value => Decimal.text value
  | .text value => Text.quoted value

mutual

/-- The outline of an expression. -/
def Expr.outline : Expr → Outline
  | .literal value => .atom value.render
  | .unary op _ operand => .node [.atom op.symbol, operand.outline]
  | .binary op _ left right => .node [.atom op.symbol, left.outline, right.outline]
  | .logical op left right => .node [.atom op.symbol, left.outline, right.outline]
  | .group inner => .node [.atom "group", inner.outline]
  | .variable name => .ofName name
  | .assign name value => .node [.atom "=", .ofName name, value.outline]
  | .call callee arguments _ =>
    .node (.atom "call" :: callee.outline :: Expr.outlines arguments)

/-- The outlines of expressions. -/
def Expr.outlines : List Expr → List Outline
  | [] => []
  | expr :: rest => expr.outline :: Expr.outlines rest

end

mutual

/-- The outline of a statement. -/
def Stmt.outline : Stmt → Outline
  | .expression value => .node [.atom ";", value.outline]
  | .print value => .node [.atom "print", value.outline]
  | .define name none => .node [.atom "var", .ofName name]
  | .define name (some first) => .node [.atom "var", .ofName name, first.outline]
  | .block body => .node (.atom "block" :: Stmt.outlines body)
  | .conditional condition thenBranch none =>
    .node [.atom "if", condition.outline, thenBranch.outline]
  | .conditional condition thenBranch (some elseBranch) =>
    .node [.atom "if", condition.outline, thenBranch.outline, elseBranch.outline]
  | .loop condition body => .node [.atom "while", condition.outline, body.outline]
  | .breakOut _ label => .node (.atom "break" :: label.toList.map .ofName)
  | .continueOn _ label => .node (.atom "continue" :: label.toList.map .ofName)
  | .labelled label body => .node [.atom "label", .ofName label, body.outline]
  | .continuePoint label body =>
    .node (.atom "continue-point" :: (label.toList.map .ofName ++ [body.outline]))
  | .function name parameters body =>
    .node (.atom "fun" :: .ofName name :: .node (parameters.map .ofName) :: Stmt.outlines body)
  | .returning _ value => .node [.atom "return", value.outline]

/-- The outlines of statements. -/
def Stmt.outlines : List Stmt → List Outline
  | [] => []
  | stmt :: rest => stmt.outline :: Stmt.outlines rest

end

/-- The text of an expression's outline. -/
def Expr.render (expr : Expr) : String :=
  expr.outline.render

/-- The outline of a program, one line for each statement. -/
def renderProgram (program : List Stmt) : String :=
  String.join (program.map fun stmt => stmt.outline.render ++ "\n")

end Lox
