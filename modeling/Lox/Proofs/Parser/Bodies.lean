import Lox.Proofs.Parser.Progress
import Lox.Proofs.Syntax.Undeclaring

/-!
What the parser of statements reads declares nothing.

Only the parser of declarations reads declarations, and from a statement one comes to it through a
block or a function body. This holds of every statement that is read, also of one that has faults.
-/

namespace Lox.Parser

variable {α β : Type}

/-- Whatever a parser reads has a property. -/
def Gives (holds : α → Prop) (parser : Parser α) : Prop :=
  ∀ before value after, parser before = .parsed value after → holds value

namespace Gives

variable {holds : α → Prop}

theorem exhausted : Gives holds (exhausted : Parser α) := by
  intro before value after run
  cases run

theorem fail (token : Token) (fault : GrammarFault) :
    Gives holds (fail token fault : Parser α) := by
  intro before value after run
  cases run

theorem pure {value : α} (given : holds value) : Gives holds (Pure.pure value : Parser α) := by
  intro before result after run
  cases run
  exact given

theorem bind {first : β → Prop} {parser : Parser β} {next : β → Parser α}
    (gives : Gives first parser) (rest : ∀ value, first value → Gives holds (next value)) :
    Gives holds (parser >>= next) := by
  intro before value after run
  rw [bind_apply, andThen] at run
  cases result : parser before with
  | exhausted =>
      rw [result] at run
      cases run
  | failed middle =>
      rw [result] at run
      cases run
  | parsed found middle =>
      rw [result] at run
      exact rest found (gives before found middle result) middle value after run

/-- Nothing is asked of what comes first. -/
theorem next {parser : Parser β} {next : β → Parser α} (rest : ∀ value, Gives holds (next value)) :
    Gives holds (parser >>= next) := by
  have any : Gives (fun _ => True) parser := fun _ _ _ _ => trivial
  exact any.bind fun value _ => rest value

theorem within {parser : Parser α} (enter : Scope → Scope) (leave : Scope → Scope → Scope)
    (gives : Gives holds parser) : Gives holds (within enter leave parser) := by
  intro before value after run
  rw [Parser.within] at run
  cases result : parser { before with scope := enter before.scope } with
  | exhausted =>
      rw [result] at run
      cases run
  | failed inner =>
      rw [result] at run
      cases run
  | parsed found inner =>
      rw [result] at run
      cases run
      exact gives _ _ inner result

end Gives

/-- Statements read by the parsers that are allowed so many steps. -/
structure Undeclared (steps : Nat) : Prop where
  statement : Gives Stmt.Undeclaring (statement steps)
  ifStatement : Gives Stmt.Undeclaring (ifStatement steps)
  whileStatement : Gives Stmt.Undeclaring (whileStatement steps)
  forStatement : Gives Stmt.Undeclaring (forStatement steps)
  labelledStatement : Gives Stmt.Undeclaring (labelledStatement steps)

theorem statementAfter_undeclared {steps : Nat} (ih : Undeclared steps) (token : Token) :
    Gives Stmt.Undeclaring (statementAfter steps token) := by
  unfold statementAfter
  split
  · exact .next fun value => .next fun _ => .pure trivial
  · exact .next fun body => .pure trivial
  · exact ih.ifStatement
  · exact ih.whileStatement
  · exact ih.forStatement
  · rw [breakStatement_eq]
    refine .next fun label => .next fun _ => .next fun around => ?_
    cases label <;> exact .next fun _ => .pure trivial
  · rw [continueStatement_eq]
    refine .next fun label => .next fun _ => .next fun around => ?_
    cases label <;> exact .next fun _ => .pure trivial
  · rw [returnStatement_eq]
    exact .next fun around => .next fun _ => .next fun value => .next fun _ => .pure trivial
  · exact ih.labelledStatement

theorem undeclared : ∀ steps, Undeclared steps
  | 0 => by constructor <;> exact .exhausted
  | steps + 1 => by
      have ih := undeclared steps
      constructor
      case statement =>
        intro before value after run
        rw [statement_apply] at run
        split at run
        · exact Gives.next (fun _ => statementAfter_undeclared ih _) before value after run
        · exact Gives.next (fun value => .next fun _ => .pure trivial) before value after run
      case ifStatement =>
        rw [Parser.ifStatement]
        refine .next fun _ => .next fun condition => .next fun _ => ?_
        refine .bind ih.statement fun thenBranch declares => .next fun hasElse => ?_
        split
        · exact .bind ih.statement fun elseBranch declaresElse => .pure ⟨declares, declaresElse⟩
        · exact .pure declares
      case whileStatement =>
        rw [Parser.whileStatement]
        refine .next fun label => .next fun _ => .next fun condition => .next fun _ => ?_
        rw [withLoop_eq]
        exact .bind (.within _ _ ih.statement) fun body declares => .pure declares
      case forStatement =>
        rw [Parser.forStatement]
        refine .next fun label => .next fun _ => .next fun first => .next fun condition => ?_
        exact .next fun _ => .next fun last => .next fun _ => .next fun body => .pure trivial
      case labelledStatement =>
        rw [Parser.labelledStatement]
        refine .next fun label => .next fun target => ?_
        split
        · rw [withLabel_eq]
          exact .bind (.within _ _ ih.statement) fun body declares => .pure declares
        · exact .fail _ _

end Lox.Parser
