import Lox.Proofs.Parser.Passing

/-!
The contracts of the grammar.

Every parser of the grammar goes forward, drops no fault, leaves the scope as it found it, and
reports a fault when it gives up (`expressionContracts`, `statementContracts`); those that read an
expression, a statement or a declaration pass a token at least. Loops and the statements that begin
with one may be entered while a label waits for them, so their contracts are stated for such places
too.
-/

namespace Lox

theorem Level.operator?_inside {level : Level} {kind : TokenKind} {op : InfixOp}
    (found : level.operator? kind = some op) : kind ≠ .endOfInput := by
  rintro rfl
  cases level <;> simp [operator?] at found

theorem prefixOp?_inside {kind : TokenKind} {op : UnaryOp} (found : prefixOp? kind = some op) :
    kind ≠ .endOfInput := by
  rintro rfl
  simp [prefixOp?] at found

theorem atom?_inside {token : Token} {expr : Expr} (found : atom? token = some expr) :
    token.kind ≠ .endOfInput := by
  intro kind
  simp [atom?, kind] at found

namespace Parser

/-! ### Expressions -/

theorem eatInfix?_of_none {level : Level} {state : State}
    (absent : level.operator? state.cursor.current.kind = none) :
    eatInfix? level state = .parsed none state := by
  simp only [eatInfix?, bind_apply, andThen, current, absent]
  rfl

theorem eatInfix?_of_some {level : Level} {state : State} {op : InfixOp}
    (found : level.operator? state.cursor.current.kind = some op) :
    eatInfix? level state = .parsed (some (op, state.cursor.current.line))
      { state with cursor := state.cursor.advance } := by
  simp only [eatInfix?, bind_apply, andThen, current, found]
  rfl

theorem eats_eatInfix? (level : Level) : Eats (eatInfix? level) := by
  intro state
  cases found : level.operator? state.cursor.current.kind with
  | none => exact .inl (eatInfix?_of_none found)
  | some op => exact .inr ⟨Level.operator?_inside found, _, eatInfix?_of_some found⟩

theorem eatPrefix?_of_none {state : State} (absent : prefixOp? state.cursor.current.kind = none) :
    eatPrefix? state = .parsed none state := by
  simp only [eatPrefix?, bind_apply, andThen, current, absent]
  rfl

theorem eatPrefix?_of_some {state : State} {op : UnaryOp}
    (found : prefixOp? state.cursor.current.kind = some op) :
    eatPrefix? state = .parsed (some (op, state.cursor.current.line))
      { state with cursor := state.cursor.advance } := by
  simp only [eatPrefix?, bind_apply, andThen, current, found]
  rfl

theorem eats_eatPrefix? : Eats eatPrefix? := by
  intro state
  cases found : prefixOp? state.cursor.current.kind with
  | none => exact .inl (eatPrefix?_of_none found)
  | some op => exact .inr ⟨prefixOp?_inside found, _, eatPrefix?_of_some found⟩

/-- The contracts of the parsers of expressions. -/
structure ExpressionContracts (steps : Nat) : Prop where
  expression : Contract true (expression steps)
  operation : ∀ level, Contract true (operation steps level)
  operationFrom : ∀ level left, Contract false (operationFrom steps level left)
  operand : ∀ level, Contract true (operand steps level)
  unary : Contract true (unary steps)
  call : Contract true (call steps)
  callFrom : ∀ callee, Contract false (callFrom steps callee)
  argumentList : Contract false (argumentList steps)
  argumentsFrom : ∀ count, Contract true (argumentsFrom steps count)
  primary : Contract true (primary steps)

theorem expressionContracts : ∀ steps, ExpressionContracts steps
  | 0 => by constructor <;> intros <;> exact .exhausted
  | steps + 1 => by
      have ih := expressionContracts steps
      constructor
      case expression =>
        rw [Parser.expression]
        refine .bind (ih.operation .or) fun target => .bind_eats (eats_eat? (by decide))
          (.pure target) fun equals => .bind ih.expression.weaken fun value => ?_
        split
        · exact .pure _
        · exact .bind (.report equals .assignmentTarget) fun _ => .pure _
      case operation =>
        intro level
        rw [Parser.operation]
        exact .bind (ih.operand level) fun first => ih.operationFrom level first
      case operationFrom =>
        intro level left
        rw [Parser.operationFrom]
        exact .bind_eats (eats_eatInfix? level) (.pure left) fun found =>
          .bind (ih.operand level).weaken fun right => ih.operationFrom level _
      case operand =>
        intro level
        rw [Parser.operand]
        cases level.tighter? with
        | none => exact ih.unary
        | some tighter => exact ih.operation tighter
      case unary =>
        rw [Parser.unary]
        exact .bind_eats eats_eatPrefix? ih.call fun found =>
          .bind ih.unary.weaken fun _ => .pure _
      case call =>
        rw [Parser.call]
        exact .bind ih.primary fun callee => ih.callFrom callee
      case callFrom =>
        intro callee
        rw [Parser.callFrom]
        exact .bind_eats (eats_eat? (by decide)) (.pure callee) fun _ =>
          .bind ih.argumentList fun arguments =>
            .bind (Contract.expect (by decide) _).weaken fun close => ih.callFrom _
      case argumentList =>
        rw [Parser.argumentList]
        refine .bind (.check .rightParen) fun closes => ?_
        cases closes with
        | true => exact .pure []
        | false => exact (ih.argumentsFrom 0).weaken
      case argumentsFrom =>
        intro count
        rw [Parser.argumentsFrom]
        exact .bindStrict (.checkLimit count _) fun _ => .bind ih.expression fun first =>
          .bind_eat (by decide) (.pure [first])
            (.bind (ih.argumentsFrom (count + 1)).weaken fun _ => .pure _)
      case primary =>
        rw [Parser.primary]
        intro state ready
        refine .current_bind ?_
        cases found : atom? state.cursor.current with
        | some expr =>
            exact (ready.keepsFrom_advance (atom?_inside found)).bind fun _ after _ keeps =>
              Contract.pure expr after (keeps.ready ready.ended)
        | none =>
            exact Contract.bind_eat (by decide) (.fail _ _) (.bind ih.expression.weaken fun inner =>
              .bind (Contract.expect (by decide) _).weaken fun _ => .pure _) state ready

/-! ### The parts of statements

The rules on `break`, `continue` and `return` are written here as demands, so that one lemma on
demands serves them all. -/

/-- The first value of a variable, if its declaration goes on to one. -/
def firstValue (steps : Nat) (follows : Bool) : Parser (Option Expr) :=
  if follows then some <$> Parser.expression steps else pure none

theorem variableDeclaration_eq (steps : Nat) : variableDeclaration steps = (do
    let name ← expectName .variableName
    let follows ← eat .equal
    let first ← firstValue steps follows
    let _ ← expect .semicolon .semicolonAfterVariable
    return .define name first) := by
  unfold variableDeclaration firstValue
  congr 1
  funext name
  congr 1
  funext follows
  cases follows with
  | false => rfl
  | true => simp only [if_true, map_eq_pure_bind, bind_assoc]

theorem breakStatement_eq (keyword : Token) : breakStatement keyword = (do
    let label ← optionalLabel
    let _ ← expect .semicolon .semicolonAfterBreak
    let around ← scope
    match label with
    | some label => demand (around.labels.has label.lexeme) label (.unknownLabel label.lexeme)
    | none => demand (!around.labels.isEmpty || around.context.inLoop) keyword .breakOutside
    return .breakOut keyword.line (label.map nameOf)) := by
  unfold breakStatement
  congr 1
  funext label
  congr 1
  funext _
  congr 1
  funext around
  cases label with
  | some label => simp only [demand_bind]
  | none =>
      simp only [demand_bind]
      cases around.labels.isEmpty <;> cases around.context.inLoop <;> rfl

theorem continueStatement_eq (keyword : Token) : continueStatement keyword = (do
    let label ← optionalLabel
    let _ ← expect .semicolon .semicolonAfterContinue
    let around ← scope
    match label with
    | some label =>
      demand (around.labels.hasLoop label.lexeme) label (.unknownLoopLabel label.lexeme)
    | none => demand around.context.inLoop keyword .continueOutside
    return .continueOn keyword.line (label.map nameOf)) := by
  unfold continueStatement
  congr 1
  funext label
  congr 1
  funext _
  congr 1
  funext around
  cases label with
  | some label => simp only [demand_bind]
  | none =>
      simp only [demand_bind]
      cases around.context.inLoop <;> rfl

theorem returnStatement_eq (steps : Nat) (keyword : Token) : returnStatement steps keyword = (do
    let around ← scope
    demand around.context.inFunction keyword .returnOutside
    let value ← Parser.expression steps
    let _ ← expect .semicolon .semicolonAfterReturn
    return .returning keyword.line value) := by
  unfold returnStatement
  congr 1
  funext around
  rw [demand_bind]
  cases around.context.inFunction <;> rfl

/-- The statement that a keyword, an opening brace or a colon begins. -/
def statementAfter (steps : Nat) (token : Token) : Parser Stmt :=
  match token.kind with
  | .kwPrint => printStatement steps
  | .leftBrace => do return .block (← block steps)
  | .kwIf => ifStatement steps
  | .kwWhile => whileStatement steps
  | .kwFor => forStatement steps
  | .kwBreak => breakStatement token
  | .kwContinue => continueStatement token
  | .kwReturn => returnStatement steps token
  | _ => labelledStatement steps

theorem statement_apply (steps : Nat) (state : State) : statement (steps + 1) state =
    if statementKinds.contains state.cursor.current.kind then
      (advance >>= fun _ => statementAfter steps state.cursor.current) state
    else expressionStatement steps state := by
  rw [statement]
  change (if statementKinds.contains state.cursor.current.kind then
    _ else _ : Parser Stmt) state = _
  split <;> rfl

theorem contract_variableDeclaration (steps : Nat) : Contract true (variableDeclaration steps) := by
  have parsed := (expressionContracts steps).expression
  rw [variableDeclaration_eq]
  refine .bind (.expectName _) fun name => .bind_eat (by decide) ?_ ?_
  · exact .bind (.pure none) fun first =>
      .bind (Contract.expect (by decide) _).weaken fun _ => .pure _
  · exact .bind (parsed.map some).weaken fun first =>
      .bind (Contract.expect (by decide) _).weaken fun _ => .pure _

theorem contract_printStatement (steps : Nat) : Contract true (printStatement steps) :=
  .bind (expressionContracts steps).expression fun _ =>
    .bind (Contract.expect (by decide) _).weaken fun _ => .pure _

theorem contract_expressionStatement (steps : Nat) : Contract true (expressionStatement steps) :=
  .bind (expressionContracts steps).expression fun _ =>
    .bind (Contract.expect (by decide) _).weaken fun _ => .pure _

theorem contract_breakStatement (keyword : Token) : Contract true (breakStatement keyword) := by
  rw [breakStatement_eq]
  refine .bindStrict (.eat? (by decide)) fun label => .bind (.expect (by decide) _) fun _ =>
    .bind .scope fun around => ?_
  cases label with
  | none => exact .bind (.demand _ _ _) fun _ => .pure _
  | some label => exact .bind (.demand _ _ _) fun _ => .pure _

theorem contract_continueStatement (keyword : Token) :
    Contract true (continueStatement keyword) := by
  rw [continueStatement_eq]
  refine .bindStrict (.eat? (by decide)) fun label => .bind (.expect (by decide) _) fun _ =>
    .bind .scope fun around => ?_
  cases label with
  | none => exact .bind (.demand _ _ _) fun _ => .pure _
  | some label => exact .bind (.demand _ _ _) fun _ => .pure _

theorem contract_returnStatement (steps : Nat) (keyword : Token) :
    Contract true (returnStatement steps keyword) := by
  rw [returnStatement_eq]
  exact .bindStrict .scope fun around => .bindStrict (.demand _ _ _) fun _ =>
    .bind (expressionContracts steps).expression fun _ =>
      .bind (Contract.expect (by decide) _).weaken fun _ => .pure _

theorem contract_parametersFrom (steps count : Nat) :
    Contract true (parametersFrom steps count) := by
  induction steps generalizing count with
  | zero => exact .exhausted
  | succ steps ih =>
      rw [parametersFrom]
      exact .bindStrict (.checkLimit count _) fun _ => .bind (.expectName _) fun first =>
        .bind_eat (by decide) (.pure [first]) (.bind (ih (count + 1)).weaken fun _ => .pure _)

theorem contract_parameterList (steps : Nat) : Contract false (parameterList steps) := by
  refine .bind (.check .rightParen) fun closes => ?_
  cases closes with
  | true => exact .pure []
  | false => exact (contract_parametersFrom steps 0).weaken

theorem contract_optionalClause (steps : Nat) (close : TokenKind) :
    Contract false (optionalClause steps close) := by
  refine .bind (.check close) fun closes => ?_
  cases closes with
  | true => exact .pure none
  | false => exact .bind (expressionContracts steps).expression.weaken fun _ => .pure _

theorem contract_firstClause (steps : Nat) : Contract false (firstClause steps) :=
  .bind_eat (by decide)
    (.bind_eat (by decide) (.bind (contract_expressionStatement steps).weaken fun _ => .pure _)
      (.bind (contract_variableDeclaration steps).weaken fun _ => .pure _))
    (.pure none)

/-! ### Statements -/

/-- The contracts of the parsers of statements. -/
structure StatementContracts (steps : Nat) : Prop where
  declaration : ∀ state : State, state.Ready → state.cursor.current.kind ≠ .endOfInput →
    KeepsFrom true state (declaration steps)
  declared : Contract true (declared steps)
  functionDeclaration : Contract true (functionDeclaration steps)
  statement : Contract true (statement steps)
  /-- A label may wait for the loop that the statement is. -/
  labelledLoop : ∀ state : State, state.cursor.Ended → startsLoop state.cursor.current.kind →
    KeepsFrom true state (Parser.statement steps)
  block : Contract true (block steps)
  declarations : Contract false (declarations steps)
  ifStatement : Contract true (ifStatement steps)
  whileStatement : ∀ state : State, state.cursor.Ended → KeepsFrom true state (whileStatement steps)
  forStatement : ∀ state : State, state.cursor.Ended → KeepsFrom true state (forStatement steps)
  labelledStatement : Contract true (labelledStatement steps)

theorem statementKinds_inside {kind : TokenKind} (begins : statementKinds.contains kind) :
    kind ≠ .endOfInput := by
  rintro rfl
  exact absurd begins (by decide)

theorem startsLoop_iff {kind : TokenKind} :
    startsLoop kind = true ↔ kind = .kwFor ∨ kind = .kwWhile := by
  simp [startsLoop]

theorem statementContracts : ∀ steps, StatementContracts steps
  | 0 => by constructor <;> intros <;> first | exact .exhausted | trivial
  | steps + 1 => by
      have ih := statementContracts steps
      have parsed := (expressionContracts steps).expression
      constructor
      case declaration =>
        intro state ready inside
        rw [Parser.declaration]
        exact .recovering ready.ended (ih.declared state ready) inside
      case declared =>
        rw [Parser.declared]
        exact .bind_eat (by decide)
          (.bind_eat (by decide) ih.statement ih.functionDeclaration.weaken)
          (contract_variableDeclaration steps).weaken
      case functionDeclaration =>
        rw [Parser.functionDeclaration]
        exact .bind (.expectName _) fun name =>
          .bind (Contract.expect (by decide) _).weaken fun _ =>
          .bind (contract_parameterList steps) fun parameters =>
            .bind (Contract.expect (by decide) _).weaken fun _ =>
              .bind (Contract.expect (by decide) _).weaken fun _ =>
                .bind ih.block.withFunctionBody.weaken fun body => .pure _
      case statement =>
        intro state ready
        unfold KeepsFrom
        rw [statement_apply]
        split
        · rename_i begins
          have inside := statementKinds_inside begins
          have after := (ready.keeps_advance inside).ready ready.ended
          refine KeepsFrom.advance_bind ready.ended inside (?_ : KeepsFrom false _ _)
          unfold statementAfter
          split
          · exact (contract_printStatement steps).weaken _ after
          · exact Contract.bind ih.block.weaken (fun body => .pure _) _ after
          · exact ih.ifStatement.weaken _ after
          · exact (ih.whileStatement _ after.ended).weaken
          · exact (ih.forStatement _ after.ended).weaken
          · exact (contract_breakStatement _).weaken _ after
          · exact (contract_continueStatement _).weaken _ after
          · exact (contract_returnStatement steps _).weaken _ after
          · exact ih.labelledStatement.weaken _ after
        · exact contract_expressionStatement steps state ready
      case labelledLoop =>
        intro state ended loops
        have begins : statementKinds.contains state.cursor.current.kind := by
          rcases startsLoop_iff.mp loops with kind | kind <;> simp [statementKinds, kind]
        have inside := statementKinds_inside begins
        have after := (Cursor.passes_advance ended inside).ended ended
        unfold KeepsFrom
        rw [statement_apply, if_pos begins]
        refine KeepsFrom.advance_bind ended inside (?_ : KeepsFrom true _ _)
        unfold statementAfter
        rcases startsLoop_iff.mp loops with kind | kind
        · rw [kind]
          exact ih.forStatement _ after
        · rw [kind]
          exact ih.whileStatement _ after
      case block =>
        rw [Parser.block]
        exact .bindStrict ih.declarations fun body =>
          .bind (.expect (by decide) _) fun _ => .pure _
      case declarations =>
        intro state ready
        rw [Parser.declarations]
        refine .check_bind (.atEnd_bind ?_)
        split
        · exact Contract.pure [] state ready
        · rename_i goesOn
          have inside : state.cursor.current.kind ≠ .endOfInput := by
            intro kind
            simp [Cursor.atEnd, kind] at goesOn
          exact (ih.declaration state ready inside).weaken.bind fun first after _ keeps =>
            Contract.bind ih.declarations (fun rest => .pure _) after (keeps.ready ready.ended)
      case ifStatement =>
        rw [Parser.ifStatement]
        exact .bind (.expect (by decide) _) fun _ => .bind parsed.weaken fun condition =>
          .bind (Contract.expect (by decide) _).weaken fun _ =>
            .bind ih.statement.weaken fun thenBranch =>
              .bind_eat (by decide) (.pure _) (.bind ih.statement.weaken fun elseBranch => .pure _)
      case whileStatement =>
        intro state ended
        rw [Parser.whileStatement]
        exact .takePendingLoop ended fun label => .bind (.expect (by decide) _) fun _ =>
          .bind parsed.weaken fun condition => .bind (Contract.expect (by decide) _).weaken fun _ =>
            .bind ih.statement.withLoop.weaken fun body => .pure _
      case forStatement =>
        intro state ended
        rw [Parser.forStatement]
        exact .takePendingLoop ended fun label => .bind (.expect (by decide) _) fun _ =>
          .bind (contract_firstClause steps) fun first =>
            .bind (contract_optionalClause steps _) fun condition =>
              .bind (Contract.expect (by decide) _).weaken fun _ =>
                .bind (contract_optionalClause steps _) fun last =>
                  .bind (Contract.expect (by decide) _).weaken fun _ =>
                    .bind ih.statement.withLoop.weaken fun body => .pure _
      case labelledStatement =>
        rw [Parser.labelledStatement]
        refine .bind (.expectName _) fun label state ready => ?_
        refine .current_bind ?_
        split
        · have named : KeepsFrom false state (withLabel label
              (startsLoop state.cursor.current.kind) (Parser.statement steps)) := by
            refine .withLabel ?_
            cases loops : startsLoop state.cursor.current.kind with
            | true => exact KeepsFrom.weaken (ih.labelledLoop _ ready.ended loops)
            | false => exact ih.statement.weaken _ ⟨ready.ended, ready.clear⟩
          exact named.bind fun body after _ keeps =>
            Contract.pure _ after (keeps.ready ready.ended)
        · exact Contract.fail _ _ state ready

end Parser

end Lox
