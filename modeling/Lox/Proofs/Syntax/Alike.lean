import Mathlib.Data.List.Forall2
import Lox.Syntax.Basic

/-!
Trees that are the same but for the lines in them.

A tree keeps lines for the messages of run-time errors and for nothing else. Two trees are alike if
they have the same form, the same names and the same values, and if the lines at the same places are
related. What the relation on lines is stays open: with equality alike trees are the same
(`Expr.Alike.eq`), and where it always holds lines make no difference.
-/

namespace Lox

/-- The relation on lines with which they make no difference. -/
def anyLines (_ _ : Nat) : Prop := True

variable {lines : Nat → Nat → Prop}

/-- Two names with the same text on related lines. -/
structure Name.Alike (lines : Nat → Nat → Prop) (name other : Name) : Prop where
  text : name.text = other.text
  line : lines name.line other.line

/-- Two expressions that are the same but for related lines. -/
inductive Expr.Alike (lines : Nat → Nat → Prop) : Expr → Expr → Prop where
  | literal (value : Literal) : Alike lines (.literal value) (.literal value)
  | unary {line other operand operand'} (op : UnaryOp) (at_ : lines line other)
      (operands : Alike lines operand operand') :
      Alike lines (.unary op line operand) (.unary op other operand')
  | binary {line other left left' right right'} (op : BinaryOp) (at_ : lines line other)
      (lefts : Alike lines left left') (rights : Alike lines right right') :
      Alike lines (.binary op line left right) (.binary op other left' right')
  | logical {left left' right right'} (op : LogicalOp) (lefts : Alike lines left left')
      (rights : Alike lines right right') :
      Alike lines (.logical op left right) (.logical op left' right')
  | group {inner inner'} (inners : Alike lines inner inner') :
      Alike lines (.group inner) (.group inner')
  | variable {name name'} (names : name.Alike lines name') :
      Alike lines (.variable name) (.variable name')
  | assign {name name' value value'} (names : name.Alike lines name')
      (values : Alike lines value value') : Alike lines (.assign name value) (.assign name' value')
  | call {callee callee' arguments arguments' line other} (callees : Alike lines callee callee')
      (given : List.Forall₂ (Alike lines) arguments arguments') (at_ : lines line other) :
      Alike lines (.call callee arguments line) (.call callee' arguments' other)

/-- Two statements that are the same but for related lines. -/
inductive Stmt.Alike (lines : Nat → Nat → Prop) : Stmt → Stmt → Prop where
  | expression {value value'} (values : value.Alike lines value') :
      Alike lines (.expression value) (.expression value')
  | print {value value'} (values : value.Alike lines value') :
      Alike lines (.print value) (.print value')
  | define {name name' first first'} (names : name.Alike lines name')
      (firsts : Option.Rel (Expr.Alike lines) first first') :
      Alike lines (.define name first) (.define name' first')
  | block {body body'} (bodies : List.Forall₂ (Alike lines) body body') :
      Alike lines (.block body) (.block body')
  | conditional {condition condition' thenBranch thenBranch' elseBranch elseBranch'}
      (conditions : condition.Alike lines condition') (thens : Alike lines thenBranch thenBranch')
      (elses : Option.Rel (Alike lines) elseBranch elseBranch') :
      Alike lines (.conditional condition thenBranch elseBranch)
        (.conditional condition' thenBranch' elseBranch')
  | loop {condition condition' body body'} (conditions : condition.Alike lines condition')
      (bodies : Alike lines body body') :
        Alike lines (.loop condition body) (.loop condition' body')
  | breakOut {line other label label'} (at_ : lines line other)
      (labels : Option.Rel (Name.Alike lines) label label') :
      Alike lines (.breakOut line label) (.breakOut other label')
  | continueOn {line other label label'} (at_ : lines line other)
      (labels : Option.Rel (Name.Alike lines) label label') :
      Alike lines (.continueOn line label) (.continueOn other label')
  | labelled {label label' body body'} (labels : label.Alike lines label')
      (bodies : Alike lines body body') :
        Alike lines (.labelled label body) (.labelled label' body')
  | continuePoint {label label' body body'} (labels : Option.Rel (Name.Alike lines) label label')
      (bodies : Alike lines body body') :
      Alike lines (.continuePoint label body) (.continuePoint label' body')
  | function {name name' parameters parameters' body body'} (names : name.Alike lines name')
      (given : List.Forall₂ (Name.Alike lines) parameters parameters')
      (bodies : List.Forall₂ (Alike lines) body body') :
      Alike lines (.function name parameters body) (.function name' parameters' body')
  | returning {line other value value'} (at_ : lines line other)
      (values : value.Alike lines value') :
      Alike lines (.returning line value) (.returning other value')

/-- Two declared functions that are the same but for related lines. -/
structure FunctionDecl.Alike (lines : Nat → Nat → Prop) (decl other : FunctionDecl) : Prop where
  name : decl.name.Alike lines other.name
  parameters : List.Forall₂ (Name.Alike lines) decl.parameters other.parameters
  body : List.Forall₂ (Stmt.Alike lines) decl.body other.body

/-! ### Related options -/

theorem rel_refl {α : Type} {related : α → α → Prop} (refl : ∀ value, related value value) :
    ∀ value? : Option α, Option.Rel related value? value?
  | none => .none
  | some value => .some (refl value)

/-! ### Reflexivity, for a relation on lines that is reflexive -/

theorem Name.alike_refl (refl : ∀ line, lines line line) (name : Name) : name.Alike lines name :=
  ⟨rfl, refl _⟩

mutual

theorem Expr.alike_refl (refl : ∀ line, lines line line) : ∀ expr : Expr, expr.Alike lines expr
  | .literal value => .literal value
  | .unary op line operand => .unary op (refl line) (Expr.alike_refl refl operand)
  | .binary op line left right =>
      .binary op (refl line) (Expr.alike_refl refl left) (Expr.alike_refl refl right)
  | .logical op left right => .logical op (Expr.alike_refl refl left) (Expr.alike_refl refl right)
  | .group inner => .group (Expr.alike_refl refl inner)
  | .variable name => .variable (name.alike_refl refl)
  | .assign name value => .assign (name.alike_refl refl) (Expr.alike_refl refl value)
  | .call callee arguments line =>
      .call (Expr.alike_refl refl callee) (Expr.allAlike_refl refl arguments) (refl line)

theorem Expr.allAlike_refl (refl : ∀ line, lines line line) :
    ∀ exprs : List Expr, List.Forall₂ (Expr.Alike lines) exprs exprs
  | [] => .nil
  | expr :: rest => .cons (Expr.alike_refl refl expr) (Expr.allAlike_refl refl rest)

end

theorem Name.allAlike_refl (refl : ∀ line, lines line line) (names : List Name) :
    List.Forall₂ (Name.Alike lines) names names :=
  List.forall₂_same.mpr fun name _ => name.alike_refl refl

mutual

theorem Stmt.alike_refl (refl : ∀ line, lines line line) : ∀ stmt : Stmt, stmt.Alike lines stmt
  | .expression value => .expression (value.alike_refl refl)
  | .print value => .print (value.alike_refl refl)
  | .define name first => .define (name.alike_refl refl) (rel_refl (Expr.alike_refl refl) first)
  | .block body => .block (Stmt.allAlike_refl refl body)
  | .conditional condition thenBranch none =>
      .conditional (condition.alike_refl refl) (Stmt.alike_refl refl thenBranch) .none
  | .conditional condition thenBranch (some elseBranch) =>
      .conditional (condition.alike_refl refl) (Stmt.alike_refl refl thenBranch)
        (.some (Stmt.alike_refl refl elseBranch))
  | .loop condition body => .loop (condition.alike_refl refl) (Stmt.alike_refl refl body)
  | .breakOut line label => .breakOut (refl line) (rel_refl (Name.alike_refl refl) label)
  | .continueOn line label => .continueOn (refl line) (rel_refl (Name.alike_refl refl) label)
  | .labelled label body => .labelled (label.alike_refl refl) (Stmt.alike_refl refl body)
  | .continuePoint label body =>
      .continuePoint (rel_refl (Name.alike_refl refl) label) (Stmt.alike_refl refl body)
  | .function name parameters body =>
      .function (name.alike_refl refl) (Name.allAlike_refl refl parameters)
        (Stmt.allAlike_refl refl body)
  | .returning line value => .returning (refl line) (value.alike_refl refl)

theorem Stmt.allAlike_refl (refl : ∀ line, lines line line) :
    ∀ stmts : List Stmt, List.Forall₂ (Stmt.Alike lines) stmts stmts
  | [] => .nil
  | stmt :: rest => .cons (Stmt.alike_refl refl stmt) (Stmt.allAlike_refl refl rest)

end

theorem FunctionDecl.alike_refl (refl : ∀ line, lines line line) (decl : FunctionDecl) :
    decl.Alike lines decl :=
  ⟨decl.name.alike_refl refl, Name.allAlike_refl refl _, Stmt.allAlike_refl refl decl.body⟩

/-! ### Trees with the same lines -/

theorem Name.Alike.eq {name other : Name} (alike : name.Alike Eq other) : name = other := by
  cases name
  cases other
  cases alike
  simp_all

mutual

theorem Expr.Alike.eq : ∀ {expr other : Expr}, expr.Alike Eq other → expr = other
  | .literal _, _, .literal _ => rfl
  | .unary .., _, .unary _ at_ operands => by rw [at_, operands.eq]
  | .binary .., _, .binary _ at_ lefts rights => by rw [at_, lefts.eq, rights.eq]
  | .logical .., _, .logical _ lefts rights => by rw [lefts.eq, rights.eq]
  | .group _, _, .group inners => by rw [inners.eq]
  | .variable _, _, .variable names => by rw [names.eq]
  | .assign .., _, .assign names values => by rw [names.eq, values.eq]
  | .call .., _, .call callees given at_ => by rw [callees.eq, Expr.allAlike_eq given, at_]

theorem Expr.allAlike_eq : ∀ {exprs others : List Expr},
    List.Forall₂ (Expr.Alike Eq) exprs others → exprs = others
  | [], _, .nil => rfl
  | _ :: _, _, .cons first rest => by rw [first.eq, Expr.allAlike_eq rest]

end

end Lox
