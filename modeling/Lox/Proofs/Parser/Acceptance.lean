import Lox.Proofs.Parser.Attempt
import Lox.Proofs.Syntax.Written

/-!
What tokens are accepted as, in either way of parsing.

At the prompt a row of tokens may be a single expression; otherwise, and always for a program in a
file, it is a row of declarations. `Accepts` says so of the tokens in front of the end of the input
in terms of the surface language alone. The parser agrees: what is accepted is read without a fault,
as what it is accepted as (`parse_of_accepts`), and what is read without a fault is accepted
(`accepts_of_parse`).
-/

namespace Lox

/-- The tokens in front of the end of the input are lawful, and become these statements. -/
inductive Accepts (tokens : List Token) : (expressionOnly : Bool) → List Stmt → Prop
  | bare {expr : Expr} (levelled : expr.WellLevelled) (spells : Spells expr.spelling tokens) :
      Accepts tokens true [.print expr]
  | program {expressionOnly : Bool} {body : List Declaration} (derives : Derives tokens body) :
      Accepts tokens expressionOnly (body.map Declaration.tree)

/-- The parts of what is accepted are written within its tokens. -/
theorem Accepts.written {tokens : List Token} {expressionOnly : Bool} {stmts : List Stmt}
    (accepts : Accepts tokens expressionOnly stmts) :
    ∃ marks, Spells marks tokens ∧ ∀ stmt ∈ stmts, stmt.Written marks := by
  cases accepts with
  | @bare expr levelled spells =>
      exact ⟨expr.spelling, spells,
        List.forall_mem_singleton.mpr (.print trivial (Expr.written levelled))⟩
  | @program _ body derives =>
      refine ⟨Declaration.spellings body, derives.spells, ?_⟩
      rw [← Declaration.trees_eq]
      exact Declaration.trees_written body .program derives.formed derives.obeys

namespace Parser

open State

variable {tokens : List Token} {line : Nat}

theorem ended_append (tokens : List Token) (line : Nat) :
    ∃ token ∈ tokens ++ [.endOfInput line], token.kind = .endOfInput :=
  ⟨_, List.mem_append_right _ List.mem_cons_self, rfl⟩

theorem start_remaining (tokens : List Token) (line : Nat) :
    (State.start (tokens ++ [.endOfInput line])).cursor.remaining =
      tokens ++ .endOfInput line :: [] := by
  cases tokens <;> rfl

/-- Tokens that spell an expression which the ladder allows are a bare expression. -/
theorem bare_of_spells {expr : Expr} (levelled : expr.WellLevelled)
    (spells : Spells expr.spelling tokens) (line : Nat) :
    BareExpression (tokens ++ [.endOfInput line]) expr := by
  have ended := ended_append tokens line
  have inside := spells.kinds (· ≠ .endOfInput) expr.spelling_inside
  have goes := goes_of_remaining (start_remaining tokens line) inside
  have stops : TokenKind.endOfInput ∉ continuesExpression := by decide
  have reached := (reads_of_wellLevelled expr levelled).expression spells goes stops
  have ends := expression_ends ended (Nat.le_refl _)
  exact ⟨_, _, reached.result (fun steps => (expressionsExtend steps).expression) ends, rfl, rfl⟩

/-- A bare expression in front of the end of the input is spelled by the tokens. -/
theorem spells_of_bare {expr : Expr}
    (scanned : ∀ token ∈ tokens, token.kind ≠ .endOfInput ∧ token.Carries)
    (bare : BareExpression (tokens ++ [.endOfInput line]) expr) :
    expr.WellLevelled ∧ Spells expr.spelling tokens := by
  obtain ⟨steps, after, run, clean, atEnd⟩ := bare
  obtain ⟨front, goes, tree, -⟩ :=
    expression_sound (start_ready (ended_append tokens line)) run clean
  have last : after.cursor.current.kind = .endOfInput := by simpa [Cursor.atEnd] using atEnd
  have remaining := goes.passes.remaining
  rw [start_remaining] at remaining
  obtain rfl : front = tokens :=
    before_end_unique last goes.passes.inside
      (fun token member => (scanned token member).1) remaining
  exact ⟨tree.wellLevelled, tree.written fun token member => (scanned token member).2⟩

/-- What is accepted is read without a fault, as what it is accepted as. -/
theorem parse_of_accepts {expressionOnly : Bool} {stmts : List Stmt}
    (inside : ∀ token ∈ tokens, token.kind ≠ .endOfInput)
    (accepts : Accepts tokens expressionOnly stmts) (line : Nat) :
    parse (tokens ++ [.endOfInput line]) expressionOnly = ⟨stmts, 0, []⟩ := by
  have ended := ended_append tokens line
  cases accepts with
  | bare levelled spells => exact parse_bare ended (bare_of_spells levelled spells line)
  | @program _ body derives =>
      have declared : parse (tokens ++ [.endOfInput line]) false =
          ⟨body.map Declaration.tree, 0, []⟩ := by
        rw [← Declaration.trees_eq]
        exact parseProgram_complete inside derives
      cases expressionOnly with
      | false => exact declared
      | true =>
          rw [parse_not_bare ended fun expr bare =>
            bare_not_program ended bare (by rw [declared]), declared]

/-- What is read without a fault is accepted. -/
theorem accepts_of_parse {expressionOnly : Bool}
    (scanned : ∀ token ∈ tokens, token.kind ≠ .endOfInput ∧ token.Carries)
    (clean : (parse (tokens ++ [.endOfInput line]) expressionOnly).errorCount = 0) :
    Accepts tokens expressionOnly
      (parse (tokens ++ [.endOfInput line]) expressionOnly).statements := by
  have ended := ended_append tokens line
  have declarations {expressionOnly : Bool}
      (clean : (parse (tokens ++ [.endOfInput line]) false).errorCount = 0) :
      Accepts tokens expressionOnly (parse (tokens ++ [.endOfInput line]) false).statements := by
    obtain ⟨accepts, becomes⟩ := parse_exact line scanned
    obtain ⟨body, derives⟩ := accepts.mp clean
    rw [becomes body derives]
    exact .program derives
  cases expressionOnly with
  | false => exact declarations clean
  | true =>
      by_cases bare : ∃ expr, BareExpression (tokens ++ [.endOfInput line]) expr
      · obtain ⟨expr, bare⟩ := bare
        obtain ⟨levelled, spells⟩ := spells_of_bare scanned bare
        rw [parse_bare ended bare]
        exact .bare levelled spells
      · have same := parse_not_bare ended fun expr given => bare ⟨expr, given⟩
        rw [same] at clean ⊢
        exact declarations clean

end Parser

end Lox
