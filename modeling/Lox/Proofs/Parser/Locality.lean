import Lox.Proofs.Parser.Lookahead

/-!
What the parsers of the grammar see.

Expressions see the token in front of which they stop, and never pass a semicolon
(`expressionsLocal`). Statements end with a token of their own; only the `if` without `else` looks
beyond it, for the `else` (`statementsLocal`). A row of declarations sees where it ends, and nothing
more (`program_local`).
-/

namespace Lox.Parser

/-! ### Expressions -/

/-- Every kind but the semicolon. -/
def noSemicolon (kind : TokenKind) : Bool :=
  kind != .semicolon

theorem selects_eatInfix? (level : Level) : Selects noSemicolon (eatInfix? level) fun token =>
    (level.operator? token.kind).map fun op => (op, token.line) where
  selects := by
    funext state
    cases found : level.operator? state.cursor.current.kind with
    | none =>
        rw [eatInfix?_of_none found]
        simp only [bind_apply, andThen, current, found]
        rfl
    | some op =>
        rw [eatInfix?_of_some found]
        simp only [bind_apply, andThen, current, found]
        rfl
  inside := by
    intro token value found
    obtain ⟨op, operator, rfl⟩ := Option.map_eq_some_iff.mp found
    refine ⟨Level.operator?_inside operator, ?_⟩
    rw [noSemicolon, bne_iff_ne]
    intro kind
    cases level <;> simp [Level.operator?, kind] at operator

theorem selects_eatPrefix? : Selects noSemicolon eatPrefix? fun token =>
    (prefixOp? token.kind).map fun op => (op, token.line) where
  selects := by
    funext state
    cases found : prefixOp? state.cursor.current.kind with
    | none =>
        rw [eatPrefix?_of_none found]
        simp only [bind_apply, andThen, current, found]
        rfl
    | some op =>
        rw [eatPrefix?_of_some found]
        simp only [bind_apply, andThen, current, found]
        rfl
  inside := by
    intro token value found
    obtain ⟨op, operator, rfl⟩ := Option.map_eq_some_iff.mp found
    refine ⟨prefixOp?_inside operator, ?_⟩
    rw [noSemicolon, bne_iff_ne]
    intro kind
    simp [prefixOp?, kind] at operator

theorem atom?_noSemicolon {token : Token} {expr : Expr} (found : atom? token = some expr) :
    noSemicolon token.kind := by
  rw [noSemicolon, bne_iff_ne]
  intro kind
  simp [atom?, kind] at found

/-- What the parsers of expressions see and pass. -/
structure ExpressionsLocal (steps : Nat) : Prop where
  expression : Local noSemicolon .whole false (expression steps)
  operation : ∀ level, Local noSemicolon .whole false (operation steps level)
  operationFrom : ∀ level left, Local noSemicolon .whole false (operationFrom steps level left)
  operand : ∀ level, Local noSemicolon .whole false (operand steps level)
  unary : Local noSemicolon .whole false (unary steps)
  call : Local noSemicolon .whole false (call steps)
  callFrom : ∀ callee, Local noSemicolon .whole false (callFrom steps callee)
  argumentList : Local noSemicolon .whole false (argumentList steps)
  argumentsFrom : ∀ count, Local noSemicolon .whole false (argumentsFrom steps count)
  primary : Local noSemicolon .whole false (primary steps)

theorem expressionsLocal : ∀ steps, ExpressionsLocal steps
  | 0 => by constructor <;> intros <;> exact .exhausted
  | steps + 1 => by
      have ih := expressionsLocal steps
      have shows {α : Type} {found : Token → Option α} : false = true ∨ Glance.whole.Shows found :=
        .inr (Glance.whole_shows found)
      constructor
      case expression =>
        rw [Parser.expression]
        refine .bind (ih.operation .or) fun target =>
          .bind_selects (selects_eat? (by decide) rfl) shows
          (.pure target) fun equals => .bind ih.expression fun value => ?_
        split
        · exact .pure _
        · exact .bindStill (.report equals .assignmentTarget) fun _ => .pure _
      case operation =>
        intro level
        rw [Parser.operation]
        exact .bind (ih.operand level) fun first => ih.operationFrom level first
      case operationFrom =>
        intro level left
        rw [Parser.operationFrom]
        exact .bind_selects (selects_eatInfix? level) shows (.pure left) fun found =>
          .bind (ih.operand level) fun right => ih.operationFrom level _
      case operand =>
        intro level
        rw [Parser.operand]
        cases level.tighter? with
        | none => exact ih.unary
        | some tighter => exact ih.operation tighter
      case unary =>
        rw [Parser.unary]
        exact .bind_selects selects_eatPrefix? shows ih.call fun found =>
          .bind ih.unary fun _ => .pure _
      case call =>
        rw [Parser.call]
        exact .bind ih.primary fun callee => ih.callFrom callee
      case callFrom =>
        intro callee
        rw [Parser.callFrom]
        exact .bind_selects (selects_eat? (by decide) rfl) shows (.pure callee) fun _ =>
          .bind ih.argumentList fun arguments =>
            .bind (Local.expect (by decide) rfl _).loose fun close => ih.callFrom _
      case argumentList =>
        rw [Parser.argumentList]
        refine .check_bind fun closes => ?_
        cases closes with
        | true => exact .pure []
        | false => exact ih.argumentsFrom 0
      case argumentsFrom =>
        intro count
        rw [Parser.argumentsFrom]
        exact .bind (.checkLimit count _) fun _ => .bind ih.expression fun first =>
          .bind_eat (by decide) rfl shows (.pure [first])
            (.bind (ih.argumentsFrom (count + 1)) fun _ => .pure _)
      case primary =>
        rw [Parser.primary]
        intro state ended
        refine .current_bind (.inr rfl) ?_
        cases found : atom? state.cursor.current with
        | some expr =>
            have moves : LocalFrom noSemicolon .whole true state (advance >>= fun _ => pure expr) :=
              .advance_bind ended (atom?_inside found) (atom?_noSemicolon found) fun _ => .pure expr
            exact moves.weaken (fun _ => id) (Glance.covers_refl _) (by simp)
        | none =>
            exact Local.bind_eat (by decide) rfl shows (.fail _ _) (.bind ih.expression fun inner =>
              .bind (Local.expect (by decide) rfl _).loose fun _ => .pure _) state ended

/-! ### The parts of statements -/

section Statements

variable {glance : Glance}

theorem local_expression (steps : Nat) : Local anyKind .whole false (expression steps) :=
  (expressionsLocal steps).expression.weaken (fun _ _ => rfl) (Glance.covers_refl _)

/-- An expression with the token that closes it. -/
theorem local_closed {α β : Type} {parser : Parser α} (inner : Local anyKind .whole false parser)
    {close : TokenKind} (inside : close ≠ .endOfInput) (part : Missing)
    {next : α → Token → Parser β}
    (rest : ∀ value token, Local anyKind glance false (next value token)) :
    Local anyKind glance true (parser >>= fun value => expect close part >>= next value) :=
  .bindStrict inner fun value => .bind (.expect inside rfl part) fun token => rest value token

theorem local_variableDeclaration (steps : Nat) :
    Local anyKind glance true (variableDeclaration steps) := by
  rw [variableDeclaration_eq]
  refine .bind (.expectName rfl _) fun name => ?_
  refine .loose (.bind_eat (by decide) rfl (.inl rfl) ?_ (.loose ?_))
  · exact local_closed (.pure none) (by decide) _ fun first _ => .pure _
  · exact local_closed ((local_expression steps).map some) (by decide) _ fun first _ => .pure _

theorem local_printStatement (steps : Nat) : Local anyKind glance true (printStatement steps) :=
  local_closed (local_expression steps) (by decide) _ fun value _ => .pure _

theorem local_expressionStatement (steps : Nat) :
    Local anyKind glance true (expressionStatement steps) :=
  local_closed (local_expression steps) (by decide) _ fun value _ => .pure _

theorem local_optionalLabel {allowed : TokenKind → Bool} (allows : allowed .identifier) :
    Local allowed .whole false optionalLabel := by
  have here : Local allowed .whole false (optionalLabel >>= fun label => pure label) :=
    .bind_selects (selects_eat? (by decide) allows) (.inr (Glance.whole_shows _))
      (.pure none) fun label => .pure _
  rwa [bind_pure] at here

/-- What a `break` or a `continue` checks once it has been read. -/
theorem still_check {label : Option Token} {named : Token → Scope → Bool} {bare : Scope → Bool}
    {keyword : Token} {unknown : Token → GrammarFault} {outside : GrammarFault} {stmt : Stmt} :
    Still (scope >>= fun around => match label with
      | some label => demand (named label around) label (unknown label) >>= fun _ => pure stmt
      | none => demand (bare around) keyword outside >>= fun _ => pure stmt) := by
  refine .bind .scope fun around => ?_
  cases label with
  | none => exact .bind (.demand _ _ _) fun _ => .pure _
  | some label => exact .bind (.demand _ _ _) fun _ => .pure _

theorem local_breakStatement (keyword : Token) :
    Local anyKind glance true (breakStatement keyword) := by
  rw [breakStatement_eq]
  exact local_closed (local_optionalLabel rfl) (by decide) _ fun label _ => still_check.toLocal

theorem local_continueStatement (keyword : Token) :
    Local anyKind glance true (continueStatement keyword) := by
  rw [continueStatement_eq]
  exact local_closed (local_optionalLabel rfl) (by decide) _ fun label _ => still_check.toLocal

theorem local_returnStatement (steps : Nat) (keyword : Token) :
    Local anyKind glance true (returnStatement steps keyword) := by
  rw [returnStatement_eq]
  exact .bindStill .scope fun around => .bindStill (.demand _ _ _) fun _ =>
    local_closed (local_expression steps) (by decide) _ fun value _ => .pure _

theorem local_parametersFrom (steps count : Nat) :
    Local anyKind .whole false (parametersFrom steps count) := by
  induction steps generalizing count with
  | zero => exact .exhausted
  | succ steps ih =>
      rw [parametersFrom]
      exact .bind (.checkLimit count _) fun _ => .bind (Local.expectName rfl _).loose fun first =>
        .bind_eat (by decide) rfl (.inr (Glance.whole_shows _)) (.pure [first])
          (.bind (ih (count + 1)) fun _ => .pure _)

theorem local_parameterList (steps : Nat) : Local anyKind .whole false (parameterList steps) := by
  refine .check_bind fun closes => ?_
  cases closes with
  | true => exact .pure []
  | false => exact local_parametersFrom steps 0

theorem local_optionalClause (steps : Nat) (close : TokenKind) :
    Local anyKind .whole false (optionalClause steps close) := by
  refine .check_bind fun closes => ?_
  cases closes with
  | true => exact .pure none
  | false => exact .bind (local_expression steps) fun _ => .pure _

theorem local_firstClause (steps : Nat) : Local anyKind .whole false (firstClause steps) :=
  .bind_eat (by decide) rfl (.inr (Glance.whole_shows _))
    (.bind_eat (by decide) rfl (.inr (Glance.whole_shows _))
      (.bind (local_expressionStatement steps).loose fun _ => .pure _)
      (.bind (local_variableDeclaration steps).loose fun _ => .pure _))
    (.pure none)

/-! ### Statements -/

theorem orElse_shows : Glance.orElse.Shows (ofKind .kwElse) := by
  intro seen token same absent
  simp only [ofKind, ite_eq_right_iff, reduceCtorEq, imp_false, beq_iff_eq] at absent ⊢
  exact fun kind => absent (same kind)

/-- What the parsers of statements see. -/
structure StatementsLocal (steps : Nat) : Prop where
  declaration : Local anyKind .whole false (declaration steps)
  declared : Local anyKind .orElse true (declared steps)
  functionDeclaration : Local anyKind .orElse true (functionDeclaration steps)
  statement : Local anyKind .orElse true (statement steps)
  block : Local anyKind .orElse true (block steps)
  declarations : Local anyKind .whole false (declarations steps)
  ifStatement : Local anyKind .orElse true (ifStatement steps)
  whileStatement : Local anyKind .orElse true (whileStatement steps)
  forStatement : Local anyKind .orElse true (forStatement steps)
  labelledStatement : Local anyKind .orElse true (labelledStatement steps)

theorem StatementsLocal.after {steps : Nat} (parsers : StatementsLocal steps) (token : Token) :
    Local anyKind .orElse false (statementAfter steps token) := by
  unfold statementAfter
  split
  · exact (local_printStatement steps).loose
  · exact .bind parsers.block.loose fun body => .pure _
  · exact parsers.ifStatement.loose
  · exact parsers.whileStatement.loose
  · exact parsers.forStatement.loose
  · exact (local_breakStatement token).loose
  · exact (local_continueStatement token).loose
  · exact (local_returnStatement steps token).loose
  · exact parsers.labelledStatement.loose

theorem statementsLocal : ∀ steps, StatementsLocal steps
  | 0 => by constructor <;> exact .exhausted
  | steps + 1 => by
      have ih := statementsLocal steps
      have parsed := local_expression steps
      constructor
      case declaration =>
        rw [Parser.declaration]
        exact ih.declared.recovering
      case declared =>
        rw [Parser.declared]
        exact .bind_eat (by decide) rfl (.inl rfl)
          (.bind_eat (by decide) rfl (.inl rfl) ih.statement ih.functionDeclaration.loose)
          (local_variableDeclaration steps).loose
      case functionDeclaration =>
        rw [Parser.functionDeclaration]
        exact .bind (.expectName rfl _) fun name => .loose <|
          .bind (.expect (by decide) rfl _) fun _ => .loose <|
            local_closed (local_parameterList steps) (by decide) _ fun parameters _ => .loose <|
              .bind (.expect (by decide) rfl _) fun _ =>
                .bind ih.block.withFunctionBody.loose fun body => .pure _
      case statement =>
        intro state ended
        have here : LocalFrom anyKind .orElse true state
            (if statementKinds.contains state.cursor.current.kind then
              advance >>= fun _ => statementAfter steps state.cursor.current
            else expressionStatement steps) := by
          split
          · rename_i begins
            exact .advance_bind ended (statementKinds_inside begins) rfl fun _ =>
              ih.after state.cursor.current
          · exact local_expressionStatement steps state ended
        refine here.congr fun other _ equal => ?_
        rw [statement_apply, equal rfl]
        split <;> rfl
      case block =>
        rw [Parser.block]
        exact local_closed ih.declarations (by decide) _ fun body _ => .pure _
      case declarations =>
        rw [Parser.declarations]
        refine .check_bind fun closes => .atEnd_bind fun ends => ?_
        split
        · exact .pure []
        · exact .bind ih.declaration fun first => .bind ih.declarations fun rest => .pure _
      case ifStatement =>
        rw [Parser.ifStatement]
        exact .bind (.expect (by decide) rfl _) fun _ => .loose <|
          local_closed parsed (by decide) _ fun condition _ =>
            .bind ih.statement.loose fun thenBranch =>
              .bind_eat (by decide) rfl (.inr orElse_shows) (.pure _)
                (.bind ih.statement.loose fun elseBranch => .pure _)
      case whileStatement =>
        rw [Parser.whileStatement]
        exact .bindStill .takePendingLoop fun label =>
          .bind (.expect (by decide) rfl _) fun _ => .loose <|
            local_closed parsed (by decide) _ fun condition _ =>
              .bind ih.statement.withLoop.loose fun body => .pure _
      case forStatement =>
        rw [Parser.forStatement]
        exact .bindStill .takePendingLoop fun label =>
          .bind (.expect (by decide) rfl _) fun _ => .loose <|
            .bindStrict (local_firstClause steps) fun first =>
              local_closed (local_optionalClause steps _) (by decide) _ fun condition _ => .loose <|
                local_closed (local_optionalClause steps _) (by decide) _ fun last _ =>
                  .bind ih.statement.withLoop.loose fun body => .pure _
      case labelledStatement =>
        rw [Parser.labelledStatement]
        refine .bind (.expectName rfl _) fun label => .loose fun state ended => ?_
        refine .current_bind (.inl rfl) ?_
        split
        · exact Local.bind (ih.statement.withLabel label _) (fun body => .pure _) state ended
        · exact Local.fail _ _ state ended

/-- A row of declarations up to the end of the input sees where it ends. -/
theorem program_local (steps : Nat) : Local anyKind .whole false (program steps) := by
  induction steps with
  | zero => exact .exhausted
  | succ steps ih =>
      rw [program]
      refine .atEnd_bind fun ends => ?_
      split
      · exact .pure []
      · exact .bind (statementsLocal steps).declaration fun first => .bind ih fun rest => .pure _

end Statements

end Lox.Parser
