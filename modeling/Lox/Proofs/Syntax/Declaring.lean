import Lox.Proofs.Syntax.Parts
import Lox.Proofs.Syntax.Surface
import Lox.Proofs.Syntax.Undeclaring

/-!
Where the declarations of a program stand.

In the surface language declarations stand in rows only: at the top level, in blocks and in function
bodies. What becomes of a statement as it is written therefore declares nothing where it stands,
even the `for` whose first clause is a declaration, which becomes a block; and all statements in the
tree of a program either are declarations or declare nothing (`Declaration.trees_declaring`).
-/

namespace Lox

/-- A declaration, or a statement that declares nothing outside of its blocks and function
bodies. -/
inductive Stmt.Settled : Stmt → Prop where
  | variable (name : Name) (first : Option Expr) : Settled (.define name first)
  | function (name : Name) (parameters : List Name) (body : List Stmt) :
      Settled (.function name parameters body)
  | statement {stmt : Stmt} (undeclaring : stmt.Undeclaring) : Settled stmt

/-- All statements in a tree are declarations or declare nothing. -/
abbrev Stmt.AllSettled (stmt : Stmt) : Prop :=
  stmt.All (fun _ => True) Stmt.Settled

theorem Phrase.tree_undeclaring :
    ∀ (phrase : Phrase) (label : Option Name), (phrase.tree label).Undeclaring
  | .ifThen _ thenBranch, _ => thenBranch.tree_undeclaring none
  | .ifElse _ thenBranch elseBranch, _ =>
      ⟨thenBranch.tree_undeclaring none, elseBranch.tree_undeclaring none⟩
  | .whileLoop _ body, _ => body.tree_undeclaring none
  | .labelled _ target, _ => target.tree_undeclaring _
  | .expression _, _ | .print _, _ | .block _, _ | .forLoop _ _ _ _, _ | .breakOut _ _, _
  | .continueOn _ _, _
  | .returning _ _, _ => trivial

theorem Clause.tree_settled (clause : Clause) : clause.tree.AllSettled := by
  cases clause with
  | «variable» name first => exact .define (.variable name first) fun value _ => value.all_true
  | expression value => exact .expression (.statement trivial) value.all_true

mutual

/-- All statements in the tree of a statement are declarations or declare nothing. -/
theorem Phrase.tree_settled :
    ∀ (phrase : Phrase) (label : Option Name), (phrase.tree label).AllSettled
  | .expression value, _ => .expression (.statement trivial) value.all_true
  | .print value, _ => .print (.statement trivial) value.all_true
  | .block body, _ => .block (.statement trivial) (Declaration.trees_settled body)
  | .ifThen condition thenBranch, label => by
      refine .conditional
        (.statement (Phrase.tree_undeclaring (.ifThen condition thenBranch) label))
        condition.all_true (thenBranch.tree_settled none) ?_
      simp
  | .ifElse condition thenBranch elseBranch, label => by
      refine .conditional
        (.statement (Phrase.tree_undeclaring (.ifElse condition thenBranch elseBranch) label))
        condition.all_true (thenBranch.tree_settled none) ?_
      rintro stmt ⟨⟩
      exact elseBranch.tree_settled none
  | .whileLoop condition body, _ => by
      have undeclaring := body.tree_undeclaring none
      exact .loop (.statement undeclaring) condition.all_true
        (.continuePoint (.statement undeclaring) (body.tree_settled none))
  | .forLoop first condition last body, label => by
      have undeclaring := body.tree_undeclaring none
      have point : (Stmt.continuePoint label (body.tree none)).AllSettled :=
        .continuePoint (.statement undeclaring) (body.tree_settled none)
      have lasts : ∀ stmt ∈ (last.map Stmt.expression).toList, stmt.AllSettled := by
        intro stmt member
        obtain ⟨value, -, rfl⟩ := by simpa using member
        exact .expression (.statement trivial) value.all_true
      have firsts : ∀ stmt ∈ (first.map Clause.tree).toList, stmt.AllSettled := by
        intro stmt member
        obtain ⟨clause, -, rfl⟩ := by simpa using member
        exact clause.tree_settled
      have loop : (Stmt.loop (condition.getD (.literal (.bool true)))
          (.block
            (.continuePoint label (body.tree none) :: (last.map .expression).toList))).AllSettled :=
        .loop (.statement trivial) (Expr.all_true _)
          (.block (.statement trivial) (List.forall_mem_cons.mpr ⟨point, lasts⟩))
      refine .block (.statement trivial) fun stmt member => ?_
      rcases List.mem_append.mp member with member | member
      · exact firsts stmt member
      · rw [List.mem_singleton.mp member]
        exact loop
  | .breakOut _ _, _ => .breakOut (.statement trivial)
  | .continueOn _ _, _ => .continueOn (.statement trivial)
  | .returning _ value, _ => .returning (.statement trivial) value.all_true
  | .labelled label target, waiting =>
      .labelled (.statement (Phrase.tree_undeclaring (.labelled label target) waiting))
        (target.tree_settled _)

theorem Declaration.tree_settled : ∀ declared : Declaration, declared.tree.AllSettled
  | .variable name first => .define (.variable name first) fun value _ => value.all_true
  | .function name parameters body =>
      .function (.function name parameters _) (Declaration.trees_settled body)
  | .statement phrase => phrase.tree_settled none

theorem Declaration.trees_settled :
    ∀ body : List Declaration, ∀ stmt ∈ Declaration.trees body, stmt.AllSettled
  | [] => fun _ member => absurd member List.not_mem_nil
  | first :: rest => List.forall_mem_cons.mpr ⟨first.tree_settled, Declaration.trees_settled rest⟩

end

end Lox
