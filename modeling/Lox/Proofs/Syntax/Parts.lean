import Lox.Syntax.Basic

/-!
The parts of a program.

Properties of the expressions and statements that a program consists of are carried from the program
to each of them: `Expr.All` asks something of an expression and of the expressions in it, and
`Stmt.All` of a statement, of the statements in it, function bodies included, and of their
expressions.
-/

namespace Lox

/-- Every part of an expression, the expression itself included, has a property. -/
inductive Expr.All (holds : Expr → Prop) : Expr → Prop
  | literal {value : Literal} (here : holds (.literal value)) : All holds (.literal value)
  | unary {op : UnaryOp} {line : Nat} {operand : Expr} (here : holds (.unary op line operand))
      (ofOperand : All holds operand) : All holds (.unary op line operand)
  | binary {op : BinaryOp} {line : Nat} {left right : Expr}
      (here : holds (.binary op line left right))
      (ofLeft : All holds left) (ofRight : All holds right) : All holds (.binary op line left right)
  | logical {op : LogicalOp} {left right : Expr} (here : holds (.logical op left right))
      (ofLeft : All holds left) (ofRight : All holds right) : All holds (.logical op left right)
  | group {inner : Expr} (here : holds (.group inner)) (ofInner : All holds inner) :
      All holds (.group inner)
  | variable {name : Name} (here : holds (.variable name)) : All holds (.variable name)
  | assign {name : Name} {value : Expr} (here : holds (.assign name value))
      (ofValue : All holds value) :
      All holds (.assign name value)
  | call {callee : Expr} {arguments : List Expr} {closeLine : Nat}
      (here : holds (.call callee arguments closeLine)) (ofCallee : All holds callee)
      (ofArguments : ∀ argument ∈ arguments, All holds argument) :
      All holds (.call callee arguments closeLine)

/-- Every statement in a statement, the statement itself included, has a property, and every part of
their expressions has another. -/
inductive Stmt.All (asked : Expr → Prop) (holds : Stmt → Prop) : Stmt → Prop
  | expression {value : Expr} (here : holds (.expression value)) (ofValue : value.All asked) :
      All asked holds (.expression value)
  | print {value : Expr} (here : holds (.print value)) (ofValue : value.All asked) :
      All asked holds (.print value)
  | define {name : Name} {first : Option Expr} (here : holds (.define name first))
      (ofFirst : ∀ value ∈ first, value.All asked) : All asked holds (.define name first)
  | block {body : List Stmt} (here : holds (.block body))
      (ofBody : ∀ stmt ∈ body, All asked holds stmt) :
      All asked holds (.block body)
  | conditional {condition : Expr} {thenBranch : Stmt} {elseBranch : Option Stmt}
      (here : holds (.conditional condition thenBranch elseBranch))
      (ofCondition : condition.All asked)
      (ofThenBranch : All asked holds thenBranch)
      (ofElseBranch : ∀ stmt ∈ elseBranch, All asked holds stmt) :
      All asked holds (.conditional condition thenBranch elseBranch)
  | loop {condition : Expr} {body : Stmt} (here : holds (.loop condition body))
      (ofCondition : condition.All asked) (ofBody : All asked holds body) :
      All asked holds (.loop condition body)
  | breakOut {line : Nat} {label : Option Name} (here : holds (.breakOut line label)) :
      All asked holds (.breakOut line label)
  | continueOn {line : Nat} {label : Option Name} (here : holds (.continueOn line label)) :
      All asked holds (.continueOn line label)
  | labelled {label : Name} {body : Stmt} (here : holds (.labelled label body))
      (ofBody : All asked holds body) : All asked holds (.labelled label body)
  | continuePoint {label : Option Name} {body : Stmt} (here : holds (.continuePoint label body))
      (ofBody : All asked holds body) : All asked holds (.continuePoint label body)
  | function {name : Name} {parameters : List Name} {body : List Stmt}
      (here : holds (.function name parameters body))
      (ofBody : ∀ stmt ∈ body, All asked holds stmt) :
      All asked holds (.function name parameters body)
  | returning {line : Nat} {value : Expr} (here : holds (.returning line value))
      (ofValue : value.All asked) : All asked holds (.returning line value)

namespace Expr

variable {holds other : Expr → Prop}

theorem All.here {expr : Expr} (all : expr.All holds) : holds expr := by
  cases all <;> assumption

theorem All.mono (weaker : ∀ expr, holds expr → other expr) {expr : Expr} (all : expr.All holds) :
    expr.All other := by
  induction all with
  | literal here => exact .literal (weaker _ here)
  | unary here _ operand => exact .unary (weaker _ here) operand
  | binary here _ _ left right => exact .binary (weaker _ here) left right
  | logical here _ _ left right => exact .logical (weaker _ here) left right
  | group here _ inner => exact .group (weaker _ here) inner
  | «variable» here => exact .variable (weaker _ here)
  | assign here _ value => exact .assign (weaker _ here) value
  | call here _ _ callee arguments => exact .call (weaker _ here) callee arguments

end Expr

mutual

theorem Expr.all_true : ∀ expr : Expr, expr.All fun _ => True
  | .literal _ => .literal trivial
  | .unary _ _ operand => .unary trivial operand.all_true
  | .binary _ _ left right => .binary trivial left.all_true right.all_true
  | .logical _ left right => .logical trivial left.all_true right.all_true
  | .group inner => .group trivial inner.all_true
  | .variable _ => .variable trivial
  | .assign _ value => .assign trivial value.all_true
  | .call callee arguments _ => .call trivial callee.all_true (Expr.row_true arguments)

theorem Expr.row_true : ∀ exprs : List Expr, ∀ expr ∈ exprs, expr.All fun _ => True
  | [] => fun _ member => absurd member List.not_mem_nil
  | first :: rest => List.forall_mem_cons.mpr ⟨first.all_true, Expr.row_true rest⟩

end

/-- An expression of a program: one that has every property that all parts of the program have. -/
def Expr.PartOf (program : List Stmt) (expr : Expr) : Prop :=
  ∀ (asked : Expr → Prop) (holds : Stmt → Prop),
    (∀ stmt ∈ program, stmt.All asked holds) → asked expr

/-- A statement of a program, in the same sense. -/
def Stmt.PartOf (program : List Stmt) (stmt : Stmt) : Prop :=
  ∀ (asked : Expr → Prop) (holds : Stmt → Prop),
    (∀ stmt ∈ program, stmt.All asked holds) → holds stmt

theorem Stmt.All.here {asked : Expr → Prop} {holds : Stmt → Prop} {stmt : Stmt}
    (all : stmt.All asked holds) :
    holds stmt := by
  cases all <;> assumption

theorem Stmt.All.mono {asked asked' : Expr → Prop} {holds holds' : Stmt → Prop}
    (ofExpr : ∀ expr, asked expr → asked' expr) (ofStmt : ∀ stmt, holds stmt → holds' stmt)
    {stmt : Stmt} (all : stmt.All asked holds) : stmt.All asked' holds' := by
  have exprs {expr : Expr} (all : expr.All asked) : expr.All asked' := all.mono ofExpr
  induction all with
  | expression here value => exact .expression (ofStmt _ here) (exprs value)
  | print here value => exact .print (ofStmt _ here) (exprs value)
  | define here first => exact .define (ofStmt _ here) fun value given => exprs (first value given)
  | block here _ body => exact .block (ofStmt _ here) body
  | conditional here condition _ _ thenBranch elseBranch =>
      exact .conditional (ofStmt _ here) (exprs condition) thenBranch elseBranch
  | loop here condition _ body => exact .loop (ofStmt _ here) (exprs condition) body
  | breakOut here => exact .breakOut (ofStmt _ here)
  | continueOn here => exact .continueOn (ofStmt _ here)
  | labelled here _ body => exact .labelled (ofStmt _ here) body
  | continuePoint here _ body => exact .continuePoint (ofStmt _ here) body
  | function here _ body => exact .function (ofStmt _ here) body
  | returning here value => exact .returning (ofStmt _ here) (exprs value)

/-! ### Every part is a part

Parts that have each of some properties have all of them at once. The proofs follow the shape of a
tree, which one more derivation of any property shows. -/

section Every

variable {ι : Type} {asked : ι → Expr → Prop} {holds : ι → Stmt → Prop} {base : Expr → Prop}
  {baseStmt : Stmt → Prop}

theorem Expr.all_every {expr : Expr} (shape : expr.All base)
    (all : ∀ index, expr.All (asked index)) :
    expr.All fun part => ∀ index, asked index part := by
  induction shape with
  | literal => exact .literal fun index => (all index).here
  | unary _ _ operand =>
      refine .unary (fun index => (all index).here) (operand fun index => ?_)
      cases all index
      assumption
  | binary _ _ _ left right =>
      refine .binary (fun index => (all index).here) (left fun index => ?_)
        (right fun index => ?_) <;>
        cases all index <;> assumption
  | logical _ _ _ left right =>
      refine .logical (fun index => (all index).here) (left fun index => ?_)
        (right fun index => ?_) <;>
        cases all index <;> assumption
  | group _ _ inner =>
      refine .group (fun index => (all index).here) (inner fun index => ?_)
      cases all index
      assumption
  | «variable» => exact .variable fun index => (all index).here
  | assign _ _ value =>
      refine .assign (fun index => (all index).here) (value fun index => ?_)
      cases all index
      assumption
  | call _ _ _ callee arguments =>
      refine .call (fun index => (all index).here) (callee fun index => ?_)
        fun argument member => arguments argument member fun index => ?_
      · cases all index
        assumption
      · cases all index with
        | call _ _ ofArguments => exact ofArguments argument member

theorem Stmt.all_every {stmt : Stmt} (shape : stmt.All base baseStmt)
    (all : ∀ index, stmt.All (asked index) (holds index)) :
    stmt.All (fun part => ∀ index, asked index part) fun part => ∀ index, holds index part := by
  induction shape with
  | expression _ value =>
      refine .expression (fun index => (all index).here) (Expr.all_every value fun index => ?_)
      cases all index
      assumption
  | print _ value =>
      refine .print (fun index => (all index).here) (Expr.all_every value fun index => ?_)
      cases all index
      assumption
  | define _ first =>
      refine .define (fun index => (all index).here) fun value given =>
        Expr.all_every (first value given) fun index => ?_
      cases all index with
      | define _ ofFirst => exact ofFirst value given
  | block _ _ body =>
      refine .block (fun index => (all index).here) fun stmt member =>
        body stmt member fun index => ?_
      cases all index with
      | block _ ofBody => exact ofBody stmt member
  | conditional _ condition _ _ thenBranch elseBranch =>
      refine .conditional (fun index => (all index).here) (Expr.all_every condition fun index => ?_)
        (thenBranch fun index => ?_) fun stmt given => elseBranch stmt given fun index => ?_
      · cases all index
        assumption
      · cases all index
        assumption
      · cases all index with
        | conditional _ _ _ ofElseBranch => exact ofElseBranch stmt given
  | loop _ condition _ body =>
      refine .loop (fun index => (all index).here) (Expr.all_every condition fun index => ?_)
        (body fun index => ?_) <;> cases all index <;> assumption
  | breakOut => exact .breakOut fun index => (all index).here
  | continueOn => exact .continueOn fun index => (all index).here
  | labelled _ _ body =>
      refine .labelled (fun index => (all index).here) (body fun index => ?_)
      cases all index
      assumption
  | continuePoint _ _ body =>
      refine .continuePoint (fun index => (all index).here) (body fun index => ?_)
      cases all index
      assumption
  | function _ _ body =>
      refine .function (fun index => (all index).here) fun stmt member =>
        body stmt member fun index => ?_
      cases all index with
      | function _ ofBody => exact ofBody stmt member
  | returning _ value =>
      refine .returning (fun index => (all index).here) (Expr.all_every value fun index => ?_)
      cases all index
      assumption

end Every

/-- The parts of a program are its parts, as soon as they are known to have any property. -/
theorem parts_of_program {asked : Expr → Prop} {holds : Stmt → Prop} {program : List Stmt}
    (all : ∀ stmt ∈ program, stmt.All asked holds) :
    ∀ stmt ∈ program, stmt.All (Expr.PartOf program) (Stmt.PartOf program) := by
  intro stmt member
  have every :=
    Stmt.all_every (all stmt member) fun index : { given : (Expr → Prop) × (Stmt → Prop) //
    ∀ stmt ∈ program, stmt.All given.1 given.2 } => index.2 stmt member
  refine every.mono (fun expr has asked holds all => ?_) fun part has asked holds all => ?_
  · exact has ⟨(asked, holds), all⟩
  · exact has ⟨(asked, holds), all⟩

end Lox
