import Lox.Syntax.Basic

/-!
Statements that declare nothing where they stand.

A statement declares a name in the frame that it runs in if it is a declaration or has one in it
outside of every block. The parser lets declarations stand in rows only, so what it reads as the
body of a loop declares nothing.
-/

namespace Lox

/-- Nothing in a statement outside of its blocks and function bodies is a declaration. -/
def Stmt.Undeclaring : Stmt → Prop
  | .define _ _ | .function _ _ _ => False
  | .conditional _ thenBranch none => thenBranch.Undeclaring
  | .conditional _ thenBranch (some elseBranch) => thenBranch.Undeclaring ∧ elseBranch.Undeclaring
  | .loop _ body | .labelled _ body | .continuePoint _ body => body.Undeclaring
  | .expression _ | .print _ | .block _ | .breakOut _ _ | .continueOn _ _ | .returning _ _ => True

end Lox
