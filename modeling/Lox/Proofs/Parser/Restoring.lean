import Lox.Proofs.Parser.Progress

/-!
Scopes are put back.

Whatever the tokens are, also if no end of input is among them, a parser of the grammar leaves the
scope as it found it, whether it has a result or gives up (`expressionsRestore`,
`statementsRestore`). A label that waits for a loop is the one thing that it may take out of the
scope; only loops are parsed where one waits.

`Restores.bind` and its relatives build this for a parser from its parts. A change of scope for a
part of a parser has to be undone however that part ends (`RestoresFrom.within`). Recovery moves
nothing but the cursor.
-/

namespace Lox.Parser

variable {α β : Type}

/-- However a parser ends, with a result or giving up, the scope is then the given one. -/
def Result.Leaves (scope : Scope) (result : Result α) : Prop :=
  result.Meets (fun _ after => after.scope = scope) fun after => after.scope = scope

/-- The scope is left as it was found, but for a label in front of a loop, which is taken. -/
def RestoresFrom (state : State) (parser : Parser α) : Prop :=
  (parser state).Leaves state.scope.settled

/-- Where no label waits for a loop, the scope is left as it was found. -/
def Restores (parser : Parser α) : Prop :=
  ∀ state : State, state.scope.pendingLoop = none → RestoresFrom state parser

namespace RestoresFrom

variable {state : State} {parser : Parser α}

theorem scope_of_parsed {value : α} {after : State} (restores : RestoresFrom state parser)
    (run : parser state = .parsed value after) : after.scope = state.scope.settled := by
  rw [RestoresFrom, run] at restores
  exact restores

theorem bind {next : α → Parser β} (first : RestoresFrom state parser)
    (rest : ∀ value after, parser state = .parsed value after → after.scope = state.scope.settled →
      RestoresFrom after (next value)) : RestoresFrom state (parser >>= next) := by
  unfold RestoresFrom at first ⊢
  rw [bind_apply, andThen]
  cases result : parser state with
  | exhausted => trivial
  | failed after =>
      rw [result] at first
      exact first
  | parsed value after =>
      rw [result] at first
      have second := rest value after result first
      have same : after.scope.settled = state.scope.settled := by rw [first, Scope.settled_settled]
      rwa [RestoresFrom, same] at second

/-- A part of a parser in another scope, if what comes behind it puts the scope back. -/
theorem within {enter : Scope → Scope} {leave : Scope → Scope → Scope}
    (back : leave state.scope (enter state.scope).settled = state.scope.settled)
    (inside : RestoresFrom { state with scope := enter state.scope } parser) :
    RestoresFrom state (within enter leave parser) := by
  unfold RestoresFrom at inside ⊢
  unfold Parser.within
  cases result : parser { state with scope := enter state.scope } with
  | exhausted => trivial
  | failed after =>
      rw [result] at inside
      exact (congrArg (leave state.scope) inside).trans back
  | parsed value after =>
      rw [result] at inside
      exact (congrArg (leave state.scope) inside).trans back

theorem withLabel {label : Name} {isLoop : Bool}
    (inside : RestoresFrom { state with scope := { state.scope with
      labels := state.scope.labels.push label.text isLoop
      pendingLoop := if isLoop then some label else state.scope.pendingLoop } } parser) :
    RestoresFrom state (withLabel label isLoop parser) := by
  rw [withLabel_eq]
  exact .within (by simp [Scope.settled]) inside

theorem recovering (restores : RestoresFrom state parser) :
    RestoresFrom state (recovering parser) := by
  unfold RestoresFrom at restores ⊢
  unfold Parser.recovering
  cases result : parser state with
  | exhausted => trivial
  | failed after =>
      rw [result] at restores
      exact restores
  | parsed value after =>
      rw [result] at restores
      exact restores

/-- Taking the label in front of a loop leaves none to be taken. -/
theorem takePendingLoop_bind {next : Option Name → Parser β}
    (rest : ∀ label, Restores (next label)) :
    RestoresFrom state (takePendingLoop >>= next) := by
  rw [RestoresFrom, Parser.takePendingLoop_bind]
  exact rest state.scope.pendingLoop { state with scope := state.scope.settled } rfl

end RestoresFrom

namespace Restores

variable {parser : Parser α}

theorem bind {next : α → Parser β} (first : Restores parser)
    (rest : ∀ value, Restores (next value)) :
    Restores (parser >>= next) := by
  intro state clear
  refine (first state clear).bind fun value after _ same => rest value after ?_
  rw [same, Scope.settled_pendingLoop]

theorem scope_of_parsed {state after : State} {value : α} (restores : Restores parser)
    (clear : state.scope.pendingLoop = none) (run : parser state = .parsed value after) :
    after.scope = state.scope :=
  ((restores state clear).scope_of_parsed run).trans (Scope.settled_eq clear)

/-- A parser that always has a result and leaves the scope alone. -/
theorem of_parsed
    (does : ∀ state,
      ∃ value after, parser state = .parsed value after ∧ after.scope = state.scope) :
    Restores parser := by
  intro state clear
  obtain ⟨value, after, run, same⟩ := does state
  rw [RestoresFrom, run]
  exact same.trans (Scope.settled_eq clear).symm

theorem pure (value : α) : Restores (pure value : Parser α) :=
  of_parsed fun state => ⟨value, state, rfl, rfl⟩

theorem exhausted : Restores (exhausted : Parser α) :=
  fun _ _ => trivial

theorem current : Restores current :=
  of_parsed fun state => ⟨_, state, rfl, rfl⟩

theorem check (kind : TokenKind) : Restores (check kind) :=
  of_parsed fun state => ⟨_, state, rfl, rfl⟩

theorem atEnd : Restores atEnd :=
  of_parsed fun state => ⟨_, state, rfl, rfl⟩

theorem scope : Restores scope :=
  of_parsed fun state => ⟨_, state, rfl, rfl⟩

theorem advance : Restores advance :=
  of_parsed fun _ => ⟨_, _, rfl, rfl⟩

theorem report (token : Token) (fault : GrammarFault) : Restores (report token fault) :=
  of_parsed fun _ => ⟨_, _, rfl, rfl⟩

theorem fail (token : Token) (fault : GrammarFault) : Restores (fail token fault : Parser α) :=
  fun _ clear => (Scope.settled_eq clear).symm

theorem eats {parser : Parser (Option α)} (eats : Eats parser) : Restores parser := by
  refine of_parsed fun state => ?_
  rcases eats state with absent | ⟨-, value, found⟩
  · exact ⟨none, state, absent, rfl⟩
  · exact ⟨some value, _, found, rfl⟩

theorem eat? (kind : TokenKind) : Restores (eat? kind) := by
  refine of_parsed fun state => ?_
  cases found : state.cursor.check kind with
  | true => exact ⟨_, _, eat?_of_check found, rfl⟩
  | false => exact ⟨_, _, eat?_of_not_check found, rfl⟩

theorem eat (kind : TokenKind) : Restores (eat kind) :=
  .bind (.eat? kind) fun _ => .pure _

theorem expect (kind : TokenKind) (part : Missing) : Restores (expect kind part) := by
  rw [expect_eq]
  refine .bind (.eat? kind) fun found => ?_
  cases found with
  | some token => exact .pure token
  | none => exact .bind .current fun token => .fail token _

theorem expectName (part : Missing) : Restores (expectName part) :=
  .bind (.expect _ part) fun _ => .pure _

theorem map (restores : Restores parser) (change : α → β) : Restores (change <$> parser) := by
  rw [map_eq_pure_bind]
  exact restores.bind fun _ => .pure _

theorem ite {condition : Prop} [Decidable condition] {other : Parser α} (yes : Restores parser)
    (no : Restores other) : Restores (if condition then parser else other) := by
  split
  · exact yes
  · exact no

theorem demand (kept : Bool) (token : Token) (fault : GrammarFault) :
    Restores (demand kept token fault) :=
  .ite (.pure ()) (.report token fault)

theorem checkLimit (count : Nat) (fault : GrammarFault) : Restores (checkLimit count fault) :=
  .ite (.bind .current fun token => .report token fault) (.pure ())

theorem withLoop (restores : Restores parser) : Restores (withLoop parser) := by
  intro state clear
  rw [withLoop_eq]
  exact .within rfl (restores _ clear)

theorem withFunctionBody (restores : Restores parser) : Restores (withFunctionBody parser) := by
  intro state clear
  rw [withFunctionBody_eq]
  exact .within (Scope.settled_eq clear).symm (restores _ rfl)

end Restores

/-! ### Expressions -/

/-- The parsers of expressions leave the scope as they find it. -/
structure ExpressionsRestore (steps : Nat) : Prop where
  expression : Restores (expression steps)
  operation : ∀ level, Restores (operation steps level)
  operationFrom : ∀ level left, Restores (operationFrom steps level left)
  operand : ∀ level, Restores (operand steps level)
  unary : Restores (unary steps)
  call : Restores (call steps)
  callFrom : ∀ callee, Restores (callFrom steps callee)
  argumentList : Restores (argumentList steps)
  argumentsFrom : ∀ count, Restores (argumentsFrom steps count)
  primary : Restores (primary steps)

theorem expressionsRestore : ∀ steps, ExpressionsRestore steps
  | 0 => by constructor <;> intros <;> exact .exhausted
  | steps + 1 => by
      have ih := expressionsRestore steps
      constructor
      case expression =>
        rw [Parser.expression]
        refine .bind (ih.operation .or) fun target => .bind (.eat? _) fun equals => ?_
        cases equals with
        | none => exact .pure target
        | some equals =>
            refine .bind ih.expression fun value => ?_
            split
            · exact .pure _
            · exact .bind (.report equals _) fun _ => .pure target
      case operation =>
        intro level
        rw [Parser.operation]
        exact .bind (ih.operand level) fun first => ih.operationFrom level first
      case operationFrom =>
        intro level left
        rw [Parser.operationFrom]
        refine .bind (.eats (eats_eatInfix? level)) fun found => ?_
        cases found with
        | none => exact .pure left
        | some found => exact .bind (ih.operand level) fun right => ih.operationFrom level _
      case operand =>
        intro level
        rw [Parser.operand]
        cases level.tighter? with
        | none => exact ih.unary
        | some tighter => exact ih.operation tighter
      case unary =>
        rw [Parser.unary]
        refine .bind (.eats eats_eatPrefix?) fun found => ?_
        cases found with
        | none => exact ih.call
        | some found => exact .bind ih.unary fun _ => .pure _
      case call =>
        rw [Parser.call]
        exact .bind ih.primary fun callee => ih.callFrom callee
      case callFrom =>
        intro callee
        rw [Parser.callFrom]
        refine .bind (.eat? _) fun opens => ?_
        cases opens with
        | none => exact .pure callee
        | some opens =>
            exact .bind ih.argumentList fun arguments =>
              .bind (.expect _ _) fun close => ih.callFrom _
      case argumentList =>
        rw [Parser.argumentList]
        exact .bind (.check _) fun closes => .ite (.pure []) (ih.argumentsFrom 0)
      case argumentsFrom =>
        intro count
        rw [Parser.argumentsFrom]
        exact .bind (.checkLimit count _) fun _ =>
          .bind ih.expression fun first => .bind (.eat _) fun more =>
          .ite (.bind (ih.argumentsFrom (count + 1)) fun _ => .pure _) (.pure _)
      case primary =>
        rw [Parser.primary]
        refine .bind .current fun token => ?_
        cases atom? token with
        | some expr => exact .bind .advance fun _ => .pure expr
        | none =>
            exact .bind (.eat _) fun opens =>
              .ite (.bind ih.expression fun inner => .bind (.expect _ _) fun _ => .pure _)
                (.fail token _)

/-! ### The parts of statements -/

theorem restores_variableDeclaration (steps : Nat) : Restores (variableDeclaration steps) := by
  rw [variableDeclaration_eq]
  refine .bind (.expectName _) fun _ => .bind (.eat _) fun follows => .bind ?_ fun first =>
    .bind (.expect _ _) fun _ => .pure _
  exact .ite ((expressionsRestore steps).expression.map some) (.pure none)

theorem restores_printStatement (steps : Nat) : Restores (printStatement steps) :=
  .bind (expressionsRestore steps).expression fun _ => .bind (.expect _ _) fun _ => .pure _

theorem restores_expressionStatement (steps : Nat) : Restores (expressionStatement steps) :=
  .bind (expressionsRestore steps).expression fun _ => .bind (.expect _ _) fun _ => .pure _

theorem restores_breakStatement (keyword : Token) : Restores (breakStatement keyword) := by
  rw [breakStatement_eq]
  refine .bind (.eat? _) fun label => .bind (.expect _ _) fun _ => .bind .scope fun around => ?_
  cases label with
  | none => exact .bind (.demand _ _ _) fun _ => .pure _
  | some label => exact .bind (.demand _ _ _) fun _ => .pure _

theorem restores_continueStatement (keyword : Token) : Restores (continueStatement keyword) := by
  rw [continueStatement_eq]
  refine .bind (.eat? _) fun label => .bind (.expect _ _) fun _ => .bind .scope fun around => ?_
  cases label with
  | none => exact .bind (.demand _ _ _) fun _ => .pure _
  | some label => exact .bind (.demand _ _ _) fun _ => .pure _

theorem restores_returnStatement (steps : Nat) (keyword : Token) :
    Restores (returnStatement steps keyword) := by
  rw [returnStatement_eq]
  exact .bind .scope fun around => .bind (.demand _ _ _) fun _ =>
    .bind (expressionsRestore steps).expression fun _ => .bind (.expect _ _) fun _ => .pure _

theorem restores_parametersFrom (steps count : Nat) : Restores (parametersFrom steps count) := by
  induction steps generalizing count with
  | zero => exact .exhausted
  | succ steps ih =>
      rw [parametersFrom]
      exact .bind (.checkLimit count _) fun _ =>
        .bind (.expectName _) fun first => .bind (.eat _) fun more =>
        .ite (.bind (ih (count + 1)) fun _ => .pure _) (.pure _)

theorem restores_parameterList (steps : Nat) : Restores (parameterList steps) :=
  .bind (.check _) fun _ => .ite (.pure []) (restores_parametersFrom steps 0)

theorem restores_optionalClause (steps : Nat) (close : TokenKind) :
    Restores (optionalClause steps close) :=
  .bind (.check close) fun _ =>
    .ite (.pure none) (.bind (expressionsRestore steps).expression fun _ => .pure _)

theorem restores_firstClause (steps : Nat) : Restores (firstClause steps) :=
  .bind (.eat _) fun _ => .ite (.pure none) <| .bind (.eat _) fun _ =>
    .ite (.bind (restores_variableDeclaration steps) fun _ => .pure _)
      (.bind (restores_expressionStatement steps) fun _ => .pure _)

/-! ### What comes before the statements in a statement -/

/-- The name and the parameters of a function, after its keyword and up to the brace that opens its
body. -/
def functionHead (steps : Nat) : Parser (Name × List Name) := do
  let name ← expectName .functionName
  let _ ← expect .leftParen .parenAfterFunctionName
  let parameters ← parameterList steps
  let _ ← expect .rightParen .parenAfterParameters
  let _ ← expect .leftBrace .braceBeforeBody
  return (name, parameters)

/-- The condition of an `if`, after its keyword. -/
def ifHead (steps : Nat) : Parser Expr := do
  let _ ← expect .leftParen .parenAfterIf
  let condition ← expression steps
  let _ ← expect .rightParen .parenAfterIfCondition
  return condition

/-- The label and the condition of a `while`, after its keyword. -/
def whileHead (steps : Nat) : Parser (Option Name × Expr) := do
  let label ← takePendingLoop
  let _ ← expect .leftParen .parenAfterWhile
  let condition ← expression steps
  let _ ← expect .rightParen .parenAfterCondition
  return (label, condition)

/-- The clauses of a `for`. -/
structure Clauses where
  label : Option Name
  first : Option Stmt
  condition : Option Expr
  last : Option Expr

/-- The label and the clauses of a `for`, after its keyword. -/
def forHead (steps : Nat) : Parser Clauses := do
  let label ← takePendingLoop
  let _ ← expect .leftParen .parenAfterFor
  let first ← firstClause steps
  let condition ← optionalClause steps .semicolon
  let _ ← expect .semicolon .semicolonAfterLoopCondition
  let last ← optionalClause steps .rightParen
  let _ ← expect .rightParen .parenAfterForClauses
  return ⟨label, first, condition, last⟩

theorem functionDeclaration_head (steps : Nat) : functionDeclaration (steps + 1) = (do
    let (name, parameters) ← functionHead steps
    let body ← withFunctionBody (block steps)
    return .function name parameters body) := by
  simp only [functionDeclaration, functionHead, bind_assoc, pure_bind]

theorem ifStatement_head (steps : Nat) : ifStatement (steps + 1) = (do
    let condition ← ifHead steps
    let thenBranch ← statement steps
    if ← eat .kwElse then return .conditional condition thenBranch (some (← statement steps))
    else return .conditional condition thenBranch none) := by
  simp only [ifStatement, ifHead, bind_assoc, pure_bind]

theorem whileStatement_head (steps : Nat) : whileStatement (steps + 1) = (do
    let (label, condition) ← whileHead steps
    return whileLoop label condition (← withLoop (statement steps))) := by
  simp only [whileStatement, whileHead, bind_assoc, pure_bind]

theorem forStatement_head (steps : Nat) : forStatement (steps + 1) = (do
    let clauses ← forHead steps
    return forLoop clauses.label clauses.first clauses.condition clauses.last
      (← withLoop (statement steps))) := by
  simp only [forStatement, forHead, bind_assoc, pure_bind]

theorem restores_functionHead (steps : Nat) : Restores (functionHead steps) :=
  .bind (.expectName _) fun _ =>
    .bind (.expect _ _) fun _ => .bind (restores_parameterList steps) fun _ =>
    .bind (.expect _ _) fun _ => .bind (.expect _ _) fun _ => .pure _

theorem restores_ifHead (steps : Nat) : Restores (ifHead steps) :=
  .bind (.expect _ _) fun _ => .bind (expressionsRestore steps).expression fun _ =>
    .bind (.expect _ _) fun _ => .pure _

theorem restoresFrom_whileHead (steps : Nat) (state : State) :
    RestoresFrom state (whileHead steps) :=
  .takePendingLoop_bind fun _ =>
    .bind (.expect _ _) fun _ => .bind (expressionsRestore steps).expression fun _ =>
    .bind (.expect _ _) fun _ => .pure _

theorem restoresFrom_forHead (steps : Nat) (state : State) : RestoresFrom state (forHead steps) :=
  .takePendingLoop_bind fun _ =>
    .bind (.expect _ _) fun _ => .bind (restores_firstClause steps) fun _ =>
    .bind (restores_optionalClause steps _) fun _ => .bind (.expect _ _) fun _ =>
      .bind (restores_optionalClause steps _) fun _ => .bind (.expect _ _) fun _ => .pure _

/-! ### Statements -/

/-- The parsers of statements leave the scope as they find it. The last field is about a loop that a
label waits for. -/
structure StatementsRestore (steps : Nat) : Prop where
  declaration : Restores (declaration steps)
  declared : Restores (declared steps)
  functionDeclaration : Restores (functionDeclaration steps)
  statement : Restores (statement steps)
  block : Restores (block steps)
  declarations : Restores (declarations steps)
  ifStatement : Restores (ifStatement steps)
  whileStatement : ∀ state, RestoresFrom state (whileStatement steps)
  forStatement : ∀ state, RestoresFrom state (forStatement steps)
  labelledStatement : Restores (labelledStatement steps)
  labelledLoop : ∀ state : State, startsLoop state.cursor.current.kind →
    RestoresFrom state (Parser.statement steps)

theorem RestoresFrom.then {parser : Parser α} {next : α → Parser β} {state : State}
    (first : RestoresFrom state parser) (rest : ∀ value, Restores (next value)) :
    RestoresFrom state (parser >>= next) :=
  first.bind fun value after _ same => rest value after (by rw [same, Scope.settled_pendingLoop])

theorem statementsRestore : ∀ steps, StatementsRestore steps
  | 0 => by constructor <;> intros <;> first | exact .exhausted | trivial
  | steps + 1 => by
      have ih := statementsRestore steps
      constructor
      case declaration =>
        intro state clear
        rw [Parser.declaration]
        exact .recovering (ih.declared state clear)
      case declared =>
        rw [Parser.declared]
        exact .bind (.eat _) fun _ => .ite (restores_variableDeclaration steps) <|
          .bind (.eat _) fun _ => .ite ih.functionDeclaration ih.statement
      case functionDeclaration =>
        rw [functionDeclaration_head]
        exact .bind (restores_functionHead steps) fun head =>
          .bind ih.block.withFunctionBody fun body => .pure _
      case statement =>
        intro state clear
        rw [RestoresFrom, statement_apply]
        split
        · refine Restores.advance.bind (fun _ => ?_) state clear
          unfold statementAfter
          split
          · exact restores_printStatement steps
          · exact .bind ih.block fun body => .pure _
          · exact ih.ifStatement
          · exact fun after _ => ih.whileStatement after
          · exact fun after _ => ih.forStatement after
          · exact restores_breakStatement _
          · exact restores_continueStatement _
          · exact restores_returnStatement steps _
          · exact ih.labelledStatement
        · exact restores_expressionStatement steps state clear
      case block =>
        rw [Parser.block]
        exact .bind ih.declarations fun body => .bind (.expect _ _) fun _ => .pure _
      case declarations =>
        rw [Parser.declarations]
        exact .bind (.check _) fun _ => .bind .atEnd fun _ => .ite (.pure []) <|
          .bind ih.declaration fun first => .bind ih.declarations fun rest => .pure _
      case ifStatement =>
        rw [ifStatement_head]
        exact .bind (restores_ifHead steps) fun condition => .bind ih.statement fun thenBranch =>
          .bind (.eat _) fun _ => .ite (.bind ih.statement fun elseBranch => .pure _) (.pure _)
      case whileStatement =>
        intro state
        rw [whileStatement_head]
        exact .then (restoresFrom_whileHead steps state) fun head =>
          .bind ih.statement.withLoop fun body => .pure _
      case forStatement =>
        intro state
        rw [forStatement_head]
        exact .then (restoresFrom_forHead steps state) fun head =>
          .bind ih.statement.withLoop fun body => .pure _
      case labelledStatement =>
        rw [Parser.labelledStatement]
        refine .bind (.expectName _) fun label state clear => ?_
        rw [RestoresFrom, bind_apply]
        change RestoresFrom state (if takesLabel state.cursor.current.kind then _ else _)
        split
        · refine .then (.withLabel ?_) fun body => .pure _
          cases loops : startsLoop state.cursor.current.kind with
          | true => exact ih.labelledLoop _ loops
          | false => exact ih.statement _ clear
        · exact Restores.fail _ _ state clear
      case labelledLoop =>
        intro state loops
        have begins : statementKinds.contains state.cursor.current.kind := by
          rcases startsLoop_iff.mp loops with kind | kind <;> simp [statementKinds, kind]
        rw [RestoresFrom, statement_apply, if_pos begins]
        change RestoresFrom { state with cursor := state.cursor.advance }
          (statementAfter steps state.cursor.current)
        unfold statementAfter
        rcases startsLoop_iff.mp loops with kind | kind
        · rw [kind]
          exact ih.forStatement _
        · rw [kind]
          exact ih.whileStatement _

end Lox.Parser
