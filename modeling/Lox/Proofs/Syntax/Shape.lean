import Lox.Parser.Fault
import Lox.Proofs.Syntax.Parts

/-!
The shapes of statements.

The types allow trees that are not programs: a loop over any statement, a continue point without a
loop, a declaration as the branch of an `if`. `Stmt.Shaped` is the grammar of the trees that are.
The body of a loop is a continue point, or a block of a continue point and the last clause of a
`for`, and continue points stand nowhere else. A statement is shaped behind a label or behind none,
and the continue point of a loop has the label that the loop is behind. Behind a label stand loops,
conditionals and blocks only, and declarations only in rows.

The names in a tree are asked to be `named`, which is whatever the reader of the grammar asks of
names; a shaped tree has no others (`Stmt.ShapedInRow.names`).
-/

namespace Lox

/-- What is asked of an expression if its names are to be `named`. -/
def Expr.Names (named : Name → Prop) : Expr → Prop
  | .variable name | .assign name _ => named name
  | _ => True

/-- Every name in an expression is as asked. -/
abbrev Expr.Named (named : Name → Prop) : Expr → Prop :=
  Expr.All (Expr.Names named)

/-- The statements that a `for` may begin with. -/
inductive Stmt.Opening (named : Name → Prop) : Stmt → Prop
  | define {name : Name} {first : Option Expr} (isNamed : named name)
      (ofFirst : ∀ value ∈ first, value.Named named) : Opening named (.define name first)
  | expression {value : Expr} (ofValue : value.Named named) : Opening named (.expression value)

mutual

/-- The statements that may stand behind a label, or behind none. -/
inductive Stmt.Shaped (named : Name → Prop) : (label : Option Name) → Stmt → Prop
  | expression {value : Expr} (ofValue : value.Named named) : Shaped named none (.expression value)
  | print {value : Expr} (ofValue : value.Named named) : Shaped named none (.print value)
  | block {label : Option Name} {body : List Stmt}
      (ofBody : ∀ stmt ∈ body, stmt.ShapedInRow named) :
      Shaped named label (.block body)
  | conditional {label : Option Name} {condition : Expr} {thenBranch : Stmt}
      {elseBranch : Option Stmt}
      (ofCondition : condition.Named named) (ofThenBranch : thenBranch.Shaped named none)
      (ofElseBranch : ∀ stmt ∈ elseBranch, stmt.Shaped named none) :
      Shaped named label (.conditional condition thenBranch elseBranch)
  | whileLoop {label : Option Name} {condition : Expr} {body : Stmt}
      (ofCondition : condition.Named named)
      (ofBody : body.Shaped named none) :
      Shaped named label (.loop condition (.continuePoint label body))
  | forLoop {label : Option Name} {first : Option Stmt} {condition : Expr} {last : Option Expr}
      {body : Stmt}
      (ofFirst : ∀ stmt ∈ first, stmt.Opening named) (ofCondition : condition.Named named)
      (ofLast : ∀ value ∈ last, value.Named named) (ofBody : body.Shaped named none) :
      Shaped named label (.block (first.toList ++
        [.loop condition (.block (.continuePoint label body :: (last.map .expression).toList))]))
  | breakOut {line : Nat} {label : Option Name} (ofLabel : ∀ name ∈ label, named name) :
      Shaped named none (.breakOut line label)
  | continueOn {line : Nat} {label : Option Name} (ofLabel : ∀ name ∈ label, named name) :
      Shaped named none (.continueOn line label)
  | returning {line : Nat} {value : Expr} (ofValue : value.Named named) :
      Shaped named none (.returning line value)
  | labelled {name : Name} {body : Stmt} (isNamed : named name)
      (ofBody : body.Shaped named (some name)) :
      Shaped named none (.labelled name body)

/-- The statements that may stand in a row: at the top level, in a block or in the body of a
function. -/
inductive Stmt.ShapedInRow (named : Name → Prop) : Stmt → Prop
  | statement {stmt : Stmt} (shaped : stmt.Shaped named none) : ShapedInRow named stmt
  | define {name : Name} {first : Option Expr} (isNamed : named name)
      (ofFirst : ∀ value ∈ first, value.Named named) : ShapedInRow named (.define name first)
  | function {name : Name} {parameters : List Name} {body : List Stmt} (isNamed : named name)
      (ofParameters : ∀ parameter ∈ parameters, named parameter)
      (ofBody : ∀ stmt ∈ body, stmt.ShapedInRow named) :
      ShapedInRow named (.function name parameters body)

end

/-- A call has no more arguments than a call may have. -/
def Expr.FewArguments : Expr → Prop
  | .call _ arguments _ => arguments.length ≤ argumentLimit
  | _ => True

/-- A function has no more parameters than a function may have. -/
def Stmt.FewParameters : Stmt → Prop
  | .function _ parameters _ => parameters.length ≤ argumentLimit
  | _ => True

/-- The names that a statement has itself. -/
def Stmt.ownNames : Stmt → List Name
  | .define name _ | .labelled name _ => [name]
  | .breakOut _ label | .continueOn _ label | .continuePoint label _ => label.toList
  | .function name parameters _ => name :: parameters
  | _ => []

/-! ### Every name is as asked -/

section Names

variable {named : Name → Prop}

theorem Stmt.Opening.names {stmt : Stmt} (opening : stmt.Opening named) :
    stmt.All (Expr.Names named) fun stmt => ∀ name ∈ stmt.ownNames, named name := by
  cases opening with
  | define isNamed ofFirst => exact .define (by simpa [ownNames] using isNamed) ofFirst
  | expression ofValue => exact .expression (by simp [ownNames]) ofValue

mutual

/-- The names in a shaped statement behind a label are as asked if the label is. -/
theorem Stmt.Shaped.names : ∀ {label : Option Name} {stmt : Stmt}, stmt.Shaped named label →
    (∀ name ∈ label, named name) → stmt.All (Expr.Names named) fun stmt =>
      ∀ name ∈ stmt.ownNames, named name
  | _, _, .expression ofValue, _ => .expression (by simp [ownNames]) ofValue
  | _, _, .print ofValue, _ => .print (by simp [ownNames]) ofValue
  | _, _, .block ofBody, _ =>
      .block (by simp [ownNames]) fun stmt member => (ofBody stmt member).names
  | _, _, .conditional ofCondition ofThenBranch ofElseBranch, _ =>
      .conditional (by simp [ownNames]) ofCondition (ofThenBranch.names (by simp))
        fun stmt given => (ofElseBranch stmt given).names (by simp)
  | _, _, .whileLoop ofCondition ofBody, ofLabel =>
      .loop (by simp [ownNames]) ofCondition (.continuePoint (by simpa [ownNames] using ofLabel)
        (ofBody.names (by simp)))
  | _, _, .forLoop ofFirst ofCondition ofLast ofBody, ofLabel => by
      have body := ofBody.names (by simp)
      refine .block (by simp [ownNames])
        (List.forall_mem_append.mpr ⟨?_, List.forall_mem_singleton.mpr ?_⟩)
      · intro stmt member
        exact (ofFirst stmt (Option.mem_toList.mp member)).names
      · refine .loop (by simp [ownNames]) ofCondition
          (.block (by simp [ownNames]) (List.forall_mem_cons.mpr ⟨?_, ?_⟩))
        · exact .continuePoint (by simpa [ownNames] using ofLabel) body
        · intro stmt member
          obtain ⟨value, given, rfl⟩ := Option.map_eq_some_iff.mp (Option.mem_toList.mp member)
          exact .expression (by simp [ownNames]) (ofLast value given)
  | _, _, .breakOut ofLabel, _ => .breakOut (by simpa [ownNames] using ofLabel)
  | _, _, .continueOn ofLabel, _ => .continueOn (by simpa [ownNames] using ofLabel)
  | _, _, .returning ofValue, _ => .returning (by simp [ownNames]) ofValue
  | _, _, .labelled isNamed ofBody, _ =>
      .labelled (by simpa [ownNames] using isNamed) (ofBody.names (by simpa using isNamed))

/-- The names in a statement that is shaped to stand in a row are as asked. -/
theorem Stmt.ShapedInRow.names : ∀ {stmt : Stmt}, stmt.ShapedInRow named →
    stmt.All (Expr.Names named) fun stmt => ∀ name ∈ stmt.ownNames, named name
  | _, .statement shaped => shaped.names (by simp)
  | _, .define isNamed ofFirst => .define (by simpa [ownNames] using isNamed) ofFirst
  | _, .function isNamed ofParameters ofBody =>
      .function (List.forall_mem_cons.mpr ⟨isNamed, ofParameters⟩) fun stmt member =>
        (ofBody stmt member).names

end

end Names

end Lox
