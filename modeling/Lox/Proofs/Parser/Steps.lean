import Lox.Proofs.Parser.Progress

/-!
Steps do not matter.

A parser that has reached an end is not changed by allowing it more steps (`Extends`), and twenty
steps for each token ahead, with a few more for the way down to the place, are always enough
(`ExpressionsEnd`, `StatementsEnd`). Together: any two sufficient numbers of steps give the same
result, so what is proved of a parser for large numbers of steps holds of the number that programs
are parsed with.
-/

namespace Lox

/-- How many parsers lie on the way down from a level to a primary expression, both included. -/
def Level.height : Level → Nat
  | .or => 15
  | .and => 13
  | .equality => 11
  | .comparison => 9
  | .sum => 7
  | .product => 5

theorem Level.height_of_tighter {level tighter : Level} (next : level.tighter? = some tighter) :
    level.height = tighter.height + 2 := by
  cases level <;> cases next <;> rfl

theorem Level.height_of_tightest {level : Level} (last : level.tighter? = none) :
    level.height = 5 := by
  cases level <;> first | rfl | cases last

theorem Level.height_bounds (level : Level) : 5 ≤ level.height ∧ level.height ≤ 15 := by
  cases level <;> decide

namespace Parser

variable {α β : Type}

/-! ### More steps -/

/-- What the first parser ends with, the second one ends with too. -/
def Extends (few many : Parser α) : Prop :=
  ∀ state, few state ≠ .exhausted → many state = few state

theorem Extends.refl (parser : Parser α) : Extends parser parser :=
  fun _ _ => rfl

theorem Extends.trans {few some many : Parser α} (first : Extends few some)
    (second : Extends some many) : Extends few many := by
  intro state ends
  have same := first state ends
  rw [second state (same ▸ ends), same]

theorem Extends.exhausted (many : Parser α) : Extends exhausted many :=
  fun _ ends => absurd rfl ends

theorem Extends.bind {few many : Parser α} {fewNext manyNext : α → Parser β}
    (first : Extends few many) (rest : ∀ value, Extends (fewNext value) (manyNext value)) :
    Extends (few >>= fewNext) (many >>= manyNext) := by
  intro state ends
  rw [bind_apply, andThen] at ends ⊢
  have firstEnds : few state ≠ .exhausted := by
    intro result
    rw [result] at ends
    exact ends rfl
  rw [bind_apply, andThen, first state firstEnds]
  cases result : few state with
  | exhausted => exact absurd result firstEnds
  | failed after => rfl
  | parsed value after =>
      rw [result] at ends
      exact rest value after ends

/-- Two ways on from the same parser. -/
theorem Extends.andThen (parser : Parser α) {few many : α → Parser β}
    (rest : ∀ value, Extends (few value) (many value)) :
    Extends (parser >>= few) (parser >>= many) :=
  .bind (.refl parser) rest

theorem Extends.map {few many : Parser α} (change : α → β) (extended : Extends few many) :
    Extends (change <$> few) (change <$> many) := by
  rw [map_eq_pure_bind, map_eq_pure_bind]
  exact .bind extended fun _ => .refl _

theorem Extends.ite {condition : Prop} [Decidable condition] {few many other more : Parser α}
    (yes : Extends few many) (no : Extends other more) :
    Extends (if condition then few else other) (if condition then many else more) := by
  split
  · exact yes
  · exact no

theorem Extends.within {few many : Parser α} (enter : Scope → Scope) (leave : Scope → Scope → Scope)
    (extended : Extends few many) : Extends (within enter leave few) (within enter leave many) := by
  intro state ends
  have inside := extended { state with scope := enter state.scope } (by
    intro result
    apply ends
    rw [Parser.within, result]
    rfl)
  rw [Parser.within, Parser.within, inside]

theorem Extends.withLoop {few many : Parser α} (extended : Extends few many) :
    Extends (withLoop few) (withLoop many) := by
  rw [withLoop_eq, withLoop_eq]
  exact .within _ _ extended

theorem Extends.withFunctionBody {few many : Parser α} (extended : Extends few many) :
    Extends (withFunctionBody few) (withFunctionBody many) := by
  rw [withFunctionBody_eq, withFunctionBody_eq]
  exact .within _ _ extended

theorem Extends.withLabel {few many : Parser α} (label : Name) (isLoop : Bool)
    (extended : Extends few many) :
    Extends (withLabel label isLoop few) (withLabel label isLoop many) := by
  rw [withLabel_eq, withLabel_eq]
  exact .within _ _ extended

theorem Extends.recovering {few many : Parser α} (extended : Extends few many) :
    Extends (recovering few) (recovering many) := by
  intro state ends
  have inside := extended state (by
    intro result
    apply ends
    rw [Parser.recovering, result])
  rw [Parser.recovering, Parser.recovering, inside]

/-- One more step for each of the parsers of expressions. -/
structure ExpressionsExtend (steps : Nat) : Prop where
  expression : Extends (expression steps) (expression (steps + 1))
  operation : ∀ level, Extends (operation steps level) (operation (steps + 1) level)
  operationFrom : ∀ level left,
    Extends (operationFrom steps level left) (operationFrom (steps + 1) level left)
  operand : ∀ level, Extends (operand steps level) (operand (steps + 1) level)
  unary : Extends (unary steps) (unary (steps + 1))
  call : Extends (call steps) (call (steps + 1))
  callFrom : ∀ callee, Extends (callFrom steps callee) (callFrom (steps + 1) callee)
  argumentList : Extends (argumentList steps) (argumentList (steps + 1))
  argumentsFrom : ∀ count, Extends (argumentsFrom steps count) (argumentsFrom (steps + 1) count)
  primary : Extends (primary steps) (primary (steps + 1))

theorem expressionsExtend : ∀ steps, ExpressionsExtend steps
  | 0 => by constructor <;> intros <;> exact .exhausted _
  | steps + 1 => by
      have ih := expressionsExtend steps
      constructor
      case expression =>
        rw [Parser.expression, Parser.expression]
        refine .bind (ih.operation .or) fun target => .andThen _ fun equals => ?_
        cases equals with
        | none => exact .refl _
        | some equals => exact .bind ih.expression fun value => .refl _
      case operation =>
        intro level
        rw [Parser.operation, Parser.operation]
        exact .bind (ih.operand level) fun first => ih.operationFrom level first
      case operationFrom =>
        intro level left
        rw [Parser.operationFrom, Parser.operationFrom]
        refine .andThen _ fun found => ?_
        cases found with
        | none => exact .refl _
        | some found => exact .bind (ih.operand level) fun right => ih.operationFrom level _
      case operand =>
        intro level
        rw [Parser.operand, Parser.operand]
        cases level.tighter? with
        | none => exact ih.unary
        | some tighter => exact ih.operation tighter
      case unary =>
        rw [Parser.unary, Parser.unary]
        refine .andThen _ fun found => ?_
        cases found with
        | none => exact ih.call
        | some found => exact .bind ih.unary fun _ => .refl _
      case call =>
        rw [Parser.call, Parser.call]
        exact .bind ih.primary fun callee => ih.callFrom callee
      case callFrom =>
        intro callee
        rw [Parser.callFrom, Parser.callFrom]
        refine .andThen _ fun opens => ?_
        cases opens with
        | none => exact .refl _
        | some opens =>
            exact .bind ih.argumentList fun arguments => .andThen _ fun close => ih.callFrom _
      case argumentList =>
        rw [Parser.argumentList, Parser.argumentList]
        exact .andThen _ fun closes => .ite (.refl _) (ih.argumentsFrom 0)
      case argumentsFrom =>
        intro count
        rw [Parser.argumentsFrom, Parser.argumentsFrom]
        exact .andThen _ fun _ => .bind ih.expression fun first => .andThen _ fun more =>
          .ite (.bind (ih.argumentsFrom (count + 1)) fun _ => .refl _) (.refl _)
      case primary =>
        rw [Parser.primary, Parser.primary]
        refine .andThen _ fun token => ?_
        cases atom? token with
        | some expr => exact .refl _
        | none =>
            exact .andThen _ fun opens => .ite (.bind ih.expression fun inner => .refl _) (.refl _)

theorem extends_variableDeclaration (steps : Nat) :
    Extends (variableDeclaration steps) (variableDeclaration (steps + 1)) := by
  rw [variableDeclaration_eq, variableDeclaration_eq]
  exact .andThen _ fun name => .andThen _ fun follows =>
    .bind (.ite (.map some (expressionsExtend steps).expression) (.refl _)) fun first => .refl _

theorem extends_expressionStatement (steps : Nat) :
    Extends (expressionStatement steps) (expressionStatement (steps + 1)) :=
  .bind (expressionsExtend steps).expression fun _ => .refl _

theorem extends_parametersFrom (steps count : Nat) :
    Extends (parametersFrom steps count) (parametersFrom (steps + 1) count) := by
  induction steps generalizing count with
  | zero => exact .exhausted _
  | succ steps ih =>
      rw [parametersFrom, parametersFrom]
      exact .andThen _ fun _ => .andThen _ fun first => .andThen _ fun more =>
        .ite (.bind (ih (count + 1)) fun _ => .refl _) (.refl _)

theorem extends_optionalClause (steps : Nat) (close : TokenKind) :
    Extends (optionalClause steps close) (optionalClause (steps + 1) close) :=
  .andThen _ fun _ => .ite (.refl _)
    (.bind (expressionsExtend steps).expression fun _ => .refl _)

theorem extends_firstClause (steps : Nat) :
    Extends (firstClause steps) (firstClause (steps + 1)) :=
  .andThen _ fun _ => .ite (.refl _) (.andThen _ fun _ =>
    .ite (.bind (extends_variableDeclaration steps) fun _ => .refl _)
      (.bind (extends_expressionStatement steps) fun _ => .refl _))

/-- One more step for each of the parsers of statements. -/
structure StatementsExtend (steps : Nat) : Prop where
  declaration : Extends (declaration steps) (declaration (steps + 1))
  declared : Extends (declared steps) (declared (steps + 1))
  functionDeclaration : Extends (functionDeclaration steps) (functionDeclaration (steps + 1))
  statement : Extends (statement steps) (statement (steps + 1))
  block : Extends (block steps) (block (steps + 1))
  declarations : Extends (declarations steps) (declarations (steps + 1))
  ifStatement : Extends (ifStatement steps) (ifStatement (steps + 1))
  whileStatement : Extends (whileStatement steps) (whileStatement (steps + 1))
  forStatement : Extends (forStatement steps) (forStatement (steps + 1))
  labelledStatement : Extends (labelledStatement steps) (labelledStatement (steps + 1))

theorem statementsExtend : ∀ steps, StatementsExtend steps
  | 0 => by constructor <;> exact .exhausted _
  | steps + 1 => by
      have ih := statementsExtend steps
      have parsed := (expressionsExtend steps).expression
      constructor
      case declaration =>
        rw [Parser.declaration, Parser.declaration]
        exact .recovering ih.declared
      case declared =>
        rw [Parser.declared, Parser.declared]
        exact .andThen _ fun _ => .ite (extends_variableDeclaration steps)
          (.andThen _ fun _ => .ite ih.functionDeclaration ih.statement)
      case functionDeclaration =>
        rw [Parser.functionDeclaration, Parser.functionDeclaration]
        exact .andThen _ fun name => .andThen _ fun _ =>
          .bind (.andThen _ fun _ => .ite (.refl _) (extends_parametersFrom steps 0))
            fun parameters => .andThen _ fun _ => .andThen _ fun _ =>
              .bind ih.block.withFunctionBody fun body => .refl _
      case statement =>
        rw [Parser.statement, Parser.statement]
        refine .andThen _ fun token => .ite (.andThen _ fun _ => ?_)
          (extends_expressionStatement steps)
        split
        · exact .bind parsed fun _ => .refl _
        · exact .bind ih.block fun _ => .refl _
        · exact ih.ifStatement
        · exact ih.whileStatement
        · exact ih.forStatement
        · exact .refl _
        · exact .refl _
        · rw [returnStatement_eq, returnStatement_eq]
          exact .andThen _ fun _ => .andThen _ fun _ => .bind parsed fun _ => .refl _
        · exact ih.labelledStatement
      case block =>
        rw [Parser.block, Parser.block]
        exact .bind ih.declarations fun _ => .refl _
      case declarations =>
        rw [Parser.declarations, Parser.declarations]
        exact .andThen _ fun _ => .andThen _ fun _ => .ite (.refl _)
          (.bind ih.declaration fun first => .bind ih.declarations fun rest => .refl _)
      case ifStatement =>
        rw [Parser.ifStatement, Parser.ifStatement]
        exact .andThen _ fun _ => .bind parsed fun condition => .andThen _ fun _ =>
          .bind ih.statement fun thenBranch => .andThen _ fun _ =>
            .ite (.bind ih.statement fun elseBranch => .refl _) (.refl _)
      case whileStatement =>
        rw [Parser.whileStatement, Parser.whileStatement]
        exact .andThen _ fun label => .andThen _ fun _ => .bind parsed fun condition =>
          .andThen _ fun _ => .bind ih.statement.withLoop fun body => .refl _
      case forStatement =>
        rw [Parser.forStatement, Parser.forStatement]
        exact .andThen _ fun label =>
          .andThen _ fun _ => .bind (extends_firstClause steps) fun first =>
          .bind (extends_optionalClause steps _) fun condition => .andThen _ fun _ =>
            .bind (extends_optionalClause steps _) fun last => .andThen _ fun _ =>
              .bind ih.statement.withLoop fun body => .refl _
      case labelledStatement =>
        rw [Parser.labelledStatement, Parser.labelledStatement]
        exact .andThen _ fun label => .andThen _ fun target =>
          .ite (.bind (ih.statement.withLabel _ _) fun body => .refl _) (.refl _)

theorem extends_program (steps : Nat) : Extends (program steps) (program (steps + 1)) := by
  induction steps with
  | zero => exact .exhausted _
  | succ steps ih =>
      rw [program, program]
      exact .andThen _ fun _ => .ite (.refl _)
        (.bind (statementsExtend steps).declaration fun first => .bind ih fun rest => .refl _)

/-- A family of parsers that one more step extends is extended by any number of steps. -/
theorem Extends.of_le {parser : Nat → Parser α}
    (more : ∀ steps, Extends (parser steps) (parser (steps + 1))) {few many : Nat}
    (le : few ≤ many) : Extends (parser few) (parser many) := by
  induction le with
  | refl => exact .refl _
  | step _ ih => exact ih.trans (more _)

/-! ### Enough steps -/

/-- The parser comes to an end from a state. -/
def EndsFrom (state : State) (parser : Parser α) : Prop :=
  parser state ≠ .exhausted

theorem EndsFrom.bind {state : State} {parser : Parser α} {next : α → Parser β}
    (first : EndsFrom state parser)
    (rest : ∀ value after, parser state = .parsed value after → EndsFrom after (next value)) :
    EndsFrom state (parser >>= next) := by
  unfold EndsFrom at first ⊢
  rw [bind_apply, Parser.andThen]
  cases result : parser state with
  | exhausted => exact absurd result first
  | failed after => simp
  | parsed value after => exact rest value after result

theorem EndsFrom.current_bind {state : State} {next : Token → Parser β}
    (rest : EndsFrom state (next state.cursor.current)) : EndsFrom state (current >>= next) := rest

theorem EndsFrom.check_bind {state : State} {kind : TokenKind} {next : Bool → Parser β}
    (rest : EndsFrom state (next (state.cursor.check kind))) :
    EndsFrom state (check kind >>= next) := rest

theorem EndsFrom.atEnd_bind {state : State} {next : Bool → Parser β}
    (rest : EndsFrom state (next state.cursor.atEnd)) : EndsFrom state (atEnd >>= next) := rest

theorem EndsFrom.within {enter : Scope → Scope} {leave : Scope → Scope → Scope} {parser : Parser α}
    {state : State} (ends : EndsFrom { state with scope := enter state.scope } parser) :
    EndsFrom state (within enter leave parser) := by
  unfold EndsFrom at ends ⊢
  unfold Parser.within
  cases result : parser { state with scope := enter state.scope } with
  | exhausted => exact absurd result ends
  | failed after => simp [Result.mapScope]
  | parsed value after => simp [Result.mapScope]

theorem EndsFrom.recovering {parser : Parser α} {state : State} (ends : EndsFrom state parser) :
    EndsFrom state (recovering parser) := by
  unfold EndsFrom at ends ⊢
  unfold Parser.recovering
  cases result : parser state with
  | exhausted => exact absurd result ends
  | failed after => simp
  | parsed value after => simp

/-- The parser comes to an end wherever at most `size` tokens lie behind the current one. -/
def EndsWithin (size : Nat) (parser : Parser α) : Prop :=
  ∀ state : State, state.Ready → state.cursor.ahead.length ≤ size → EndsFrom state parser

namespace EndsWithin

variable {size : Nat} {parser : Parser α}

theorem pure (value : α) : EndsWithin size (pure value : Parser α) := by
  intro state _ _ result
  cases result

theorem fail (token : Token) (fault : GrammarFault) :
    EndsWithin size (fail token fault : Parser α) := by
  intro state _ _ result
  cases result

theorem bind {strict : Bool} {next : α → Parser β} (first : EndsWithin size parser)
    (contract : Contract strict parser) (rest : ∀ value, EndsWithin size (next value)) :
    EndsWithin size (parser >>= next) := by
  intro state ready length
  refine EndsFrom.bind (first state ready length) fun value after result => ?_
  have kept := contract state ready
  rw [KeepsFrom, result] at kept
  have shorter := State.Keeps.length kept
  exact rest value after (State.Keeps.ready kept ready.ended) (by omega)

theorem map {strict : Bool} (change : α → β) (ends : EndsWithin size parser)
    (contract : Contract strict parser) : EndsWithin size (change <$> parser) := by
  rw [map_eq_pure_bind]
  exact bind ends contract fun _ => pure _

/-- What follows a strict parser has fewer tokens ahead. -/
theorem bindStrict {next : α → Parser β} (first : EndsWithin size parser)
    (contract : Contract true parser)
    (rest : ∀ value left, left < size → EndsWithin left (next value)) :
    EndsWithin size (parser >>= next) := by
  intro state ready length
  refine EndsFrom.bind (first state ready length) fun value after result => ?_
  have kept := contract state ready
  rw [KeepsFrom, result] at kept
  have shorter := State.Keeps.length kept
  rw [Bool.toNat_true] at shorter
  exact rest value after.cursor.ahead.length (by omega) after (State.Keeps.ready kept ready.ended)
    (Nat.le_refl _)

theorem bind_eats {parser : Parser (Option α)} (eats : Eats parser) {next : Option α → Parser β}
    (without : EndsWithin size (next none))
    (behind : ∀ value left, left < size → EndsWithin left (next (some value))) :
    EndsWithin size (parser >>= next) := by
  intro state ready length
  unfold EndsFrom
  rw [bind_apply, Parser.andThen]
  rcases eats state with absent | ⟨inside, value, found⟩
  · rw [absent]
    exact without state ready length
  · rw [found]
    have keeps := ready.keeps_advance inside
    have shorter := keeps.length
    rw [Bool.toNat_true] at shorter
    exact behind value state.cursor.advance.ahead.length (by simp only at shorter; omega) _
      (keeps.ready ready.ended) (Nat.le_refl _)

theorem bind_eat {kind : TokenKind} (inside : kind ≠ .endOfInput) {next : Bool → Parser β}
    (without : EndsWithin size (next false))
    (behind : ∀ left, left < size → EndsWithin left (next true)) :
    EndsWithin size (eat kind >>= next) := by
  rw [eat_bind]
  exact bind_eats (eats_eat? inside) without fun _ => behind

theorem expect {kind : TokenKind} (inside : kind ≠ .endOfInput) (part : Missing) :
    EndsWithin size (expect kind part) := by
  rw [expect_eq]
  refine bind_eats (eats_eat? inside) ?_ fun token left _ => .pure token
  intro state _ _ result
  cases result

theorem expectName (part : Missing) : EndsWithin size (expectName part) :=
  .bind (.expect (by decide) part) (.expect (by decide) part) fun _ => .pure _

theorem current : EndsWithin size current := by
  intro state _ _ result
  cases result

theorem scope : EndsWithin size scope := by
  intro state _ _ result
  cases result

theorem demand (kept : Bool) (token : Token) (fault : GrammarFault) :
    EndsWithin size (demand kept token fault) := by
  intro state _ _ result
  cases kept <;> cases result

theorem checkLimit (count : Nat) (fault : GrammarFault) :
    EndsWithin size (checkLimit count fault) := by
  intro state _ _
  unfold Parser.checkLimit
  split <;> intro result <;> cases result

theorem withLoop {parser : Parser α} (ends : EndsWithin size parser) :
    EndsWithin size (withLoop parser) := by
  intro state ready length
  rw [withLoop_eq]
  exact .within (ends _ ⟨ready.ended, ready.clear⟩ length)

theorem withFunctionBody {parser : Parser α} (ends : EndsWithin size parser) :
    EndsWithin size (withFunctionBody parser) := by
  intro state ready length
  rw [withFunctionBody_eq]
  exact .within (ends _ ⟨ready.ended, rfl⟩ length)

end EndsWithin

/-- The numbers of steps that are enough for the parsers of expressions. -/
structure ExpressionsEnd (steps : Nat) : Prop where
  expression : ∀ size, 20 * size + 16 ≤ steps → EndsWithin size (expression steps)
  operation : ∀ size level, 20 * size + level.height ≤ steps →
    EndsWithin size (operation steps level)
  operationFrom : ∀ size level left, 20 * size + 1 ≤ steps →
    EndsWithin size (operationFrom steps level left)
  operand : ∀ size level, 20 * size + level.height ≤ steps + 1 →
    EndsWithin size (operand steps level)
  unary : ∀ size, 20 * size + 3 ≤ steps → EndsWithin size (unary steps)
  call : ∀ size, 20 * size + 2 ≤ steps → EndsWithin size (call steps)
  callFrom : ∀ size callee, 20 * size + 1 ≤ steps → EndsWithin size (callFrom steps callee)
  argumentList : ∀ size, 20 * size + 18 ≤ steps → EndsWithin size (argumentList steps)
  argumentsFrom : ∀ size count, 20 * size + 17 ≤ steps →
    EndsWithin size (argumentsFrom steps count)
  primary : ∀ size, 20 * size + 1 ≤ steps → EndsWithin size (primary steps)

/-- Sixteen steps lead down to a token, and each token passed gives twenty more. -/
theorem expressionsEnd : ∀ steps, ExpressionsEnd steps
  | 0 => by
      constructor
      case operation =>
        intro size level enough
        have := level.height_bounds
        omega
      case operand =>
        intro size level enough
        have := level.height_bounds
        omega
      all_goals intros; omega
  | steps + 1 => by
      have ih := expressionsEnd steps
      have contracts := expressionContracts steps
      constructor
      case expression =>
        intro size enough
        rw [Parser.expression]
        refine .bindStrict (ih.operation size .or (by simp only [Level.height]; omega))
          (contracts.operation .or) fun target left less =>
            .bind_eats (eats_eat? (by decide)) (.pure target) fun equals last less =>
              .bind (ih.expression last (by omega)) contracts.expression fun value => ?_
        split
        · exact .pure _
        · intro state _ _ result
          cases result
      case operation =>
        intro size level enough
        have bounds := level.height_bounds
        rw [Parser.operation]
        exact .bindStrict (ih.operand size level (by omega)) (contracts.operand level)
          fun first left less => ih.operationFrom left level first (by omega)
      case operationFrom =>
        intro size level first enough
        have bounds := level.height_bounds
        rw [Parser.operationFrom]
        exact .bind_eats (eats_eatInfix? level) (.pure first) fun found left less =>
          .bind (ih.operand left level (by omega)) (contracts.operand level) fun right =>
            ih.operationFrom left level _ (by omega)
      case operand =>
        intro size level enough
        rw [Parser.operand]
        cases next : level.tighter? with
        | none =>
            have height := Level.height_of_tightest next
            exact ih.unary size (by omega)
        | some tighter =>
            have height := Level.height_of_tighter next
            exact ih.operation size tighter (by omega)
      case unary =>
        intro size enough
        rw [Parser.unary]
        exact .bind_eats eats_eatPrefix? (ih.call size (by omega)) fun found left less =>
          .bind (ih.unary left (by omega)) contracts.unary fun operand => .pure _
      case call =>
        intro size enough
        rw [Parser.call]
        exact .bindStrict (ih.primary size (by omega)) contracts.primary fun callee left less =>
          ih.callFrom left callee (by omega)
      case callFrom =>
        intro size callee enough
        rw [Parser.callFrom]
        exact .bind_eats (eats_eat? (by decide)) (.pure callee) fun opens left less =>
          .bind (ih.argumentList left (by omega)) contracts.argumentList fun arguments =>
            .bind (.expect (by decide) _) (.expect (by decide) _) fun close =>
              ih.callFrom left _ (by omega)
      case argumentList =>
        intro size enough
        rw [Parser.argumentList]
        intro state ready length
        refine EndsFrom.check_bind ?_
        split
        · exact EndsWithin.pure [] state ready length
        · exact ih.argumentsFrom size 0 (by omega) state ready length
      case argumentsFrom =>
        intro size count enough
        rw [Parser.argumentsFrom]
        exact .bind (.checkLimit count _) (.checkLimit count _) fun _ =>
          .bindStrict (ih.expression size (by omega)) contracts.expression fun first left less =>
            .bind_eat (by decide) (.pure [first]) fun last less =>
              .bind (ih.argumentsFrom last (count + 1) (by omega))
                (contracts.argumentsFrom (count + 1)) fun rest => .pure _
      case primary =>
        intro size enough
        rw [Parser.primary]
        refine .bind .current .current fun token => ?_
        cases atom? token with
        | some expr =>
            intro state ready length result
            cases result
        | none =>
            exact .bind_eat (by decide) (.fail _ _) fun left less =>
              .bind (ih.expression left (by omega)) contracts.expression fun inner =>
                .bind (.expect (by decide) _) (.expect (by decide) _) fun _ => .pure _

theorem variableDeclaration_ends {steps size : Nat} (enough : 20 * size ≤ steps) :
    EndsWithin size (variableDeclaration steps) := by
  rw [variableDeclaration_eq]
  refine .bindStrict (.expectName _) (.expectName _) fun name left less =>
    .bind_eat (by decide) ?_ fun last less => ?_
  · exact .bind (.pure none) (.pure none) fun first =>
      .bind (.expect (by decide) _) (.expect (by decide) _) fun _ => .pure _
  · have parsed := (expressionContracts steps).expression
    exact .bind (.map some ((expressionsEnd steps).expression last (by omega)) parsed)
      (parsed.map some) fun first =>
        .bind (.expect (by decide) _) (.expect (by decide) _) fun _ => .pure _

theorem expressionStatement_ends {steps size : Nat} (enough : 20 * size + 16 ≤ steps) :
    EndsWithin size (expressionStatement steps) :=
  .bind ((expressionsEnd steps).expression size enough) (expressionContracts steps).expression
    fun _ => .bind (.expect (by decide) _) (.expect (by decide) _) fun _ => .pure _

theorem printStatement_ends {steps size : Nat} (enough : 20 * size + 16 ≤ steps) :
    EndsWithin size (printStatement steps) :=
  .bind ((expressionsEnd steps).expression size enough) (expressionContracts steps).expression
    fun _ => .bind (.expect (by decide) _) (.expect (by decide) _) fun _ => .pure _

theorem optionalLabel_ends {size : Nat} : EndsWithin size optionalLabel := by
  intro state _ _ result
  have eats : Eats (eat? .identifier) := eats_eat? (by decide)
  rcases eats state with absent | ⟨-, value, found⟩
  · rw [optionalLabel, absent] at result
    cases result
  · rw [optionalLabel, found] at result
    cases result

theorem breakStatement_ends {size : Nat} (keyword : Token) :
    EndsWithin size (breakStatement keyword) := by
  rw [breakStatement_eq]
  refine .bind optionalLabel_ends (.eat? (by decide)) fun label =>
    .bind (.expect (by decide) _) (.expect (by decide) _) fun _ =>
      .bind .scope .scope fun around => ?_
  cases label with
  | none => exact .bind (.demand _ _ _) (.demand _ _ _) fun _ => .pure _
  | some label => exact .bind (.demand _ _ _) (.demand _ _ _) fun _ => .pure _

theorem continueStatement_ends {size : Nat} (keyword : Token) :
    EndsWithin size (continueStatement keyword) := by
  rw [continueStatement_eq]
  refine .bind optionalLabel_ends (.eat? (by decide)) fun label =>
    .bind (.expect (by decide) _) (.expect (by decide) _) fun _ =>
      .bind .scope .scope fun around => ?_
  cases label with
  | none => exact .bind (.demand _ _ _) (.demand _ _ _) fun _ => .pure _
  | some label => exact .bind (.demand _ _ _) (.demand _ _ _) fun _ => .pure _

theorem returnStatement_ends {steps size : Nat} (keyword : Token)
    (enough : 20 * size + 16 ≤ steps) :
    EndsWithin size (returnStatement steps keyword) := by
  rw [returnStatement_eq]
  exact .bind .scope .scope fun around => .bind (.demand _ _ _) (.demand _ _ _) fun _ =>
    .bind ((expressionsEnd steps).expression size enough) (expressionContracts steps).expression
      fun _ => .bind (.expect (by decide) _) (.expect (by decide) _) fun _ => .pure _

theorem parametersFrom_ends {steps size : Nat} (count : Nat) (enough : 20 * size + 1 ≤ steps) :
    EndsWithin size (parametersFrom steps count) := by
  induction steps generalizing size count with
  | zero => omega
  | succ steps ih =>
      rw [parametersFrom]
      exact .bind (.checkLimit count _) (.checkLimit count _) fun _ =>
        .bindStrict (.expectName _) (.expectName _) fun first left less =>
          .bind_eat (by decide) (.pure [first]) fun last less =>
            .bind (ih (count + 1) (by omega)) (contract_parametersFrom steps (count + 1))
              fun rest => .pure _

theorem EndsWithin.check_bind {size : Nat} {kind : TokenKind} {next : Bool → Parser α}
    (rest : ∀ found, EndsWithin size (next found)) : EndsWithin size (check kind >>= next) :=
  fun state ready length => rest (state.cursor.check kind) state ready length

theorem parameterList_ends {steps size : Nat} (enough : 20 * size + 1 ≤ steps) :
    EndsWithin size (parameterList steps) := by
  refine .check_bind fun closes => ?_
  cases closes with
  | true => exact .pure []
  | false => exact parametersFrom_ends 0 enough

theorem optionalClause_ends {steps size : Nat} (close : TokenKind)
    (enough : 20 * size + 16 ≤ steps) :
    EndsWithin size (optionalClause steps close) := by
  refine .check_bind fun closes => ?_
  cases closes with
  | true => exact .pure none
  | false =>
      exact .bind ((expressionsEnd steps).expression size enough)
        (expressionContracts steps).expression fun _ => .pure _

theorem firstClause_ends {steps size : Nat} (enough : 20 * size + 16 ≤ steps) :
    EndsWithin size (firstClause steps) :=
  .bind_eat (by decide)
    (.bind_eat (by decide)
      (.bind (expressionStatement_ends enough)
        (contract_expressionStatement steps) fun _ => .pure _)
      fun left less => .bind (variableDeclaration_ends (by omega))
        (contract_variableDeclaration steps) fun _ => .pure _)
    fun left less => .pure none

/-- Taking the label in front of a loop makes a place ready. -/
theorem EndsFrom.takePendingLoop {size : Nat} {next : Option Name → Parser α}
    (rest : ∀ label, EndsWithin size (next label)) {state : State} (ended : state.cursor.Ended)
    (length : state.cursor.ahead.length ≤ size) :
    EndsFrom state (takePendingLoop >>= next) := by
  unfold EndsFrom
  rw [takePendingLoop_bind]
  exact rest _ _ ⟨ended, rfl⟩ length

/-- The numbers of steps that are enough for the parsers of statements. -/
structure StatementsEnd (steps : Nat) : Prop where
  declaration : ∀ size, 20 * size + 19 ≤ steps → EndsWithin size (declaration steps)
  declared : ∀ size, 20 * size + 18 ≤ steps → EndsWithin size (declared steps)
  functionDeclaration : ∀ size, 20 * size + 1 ≤ steps → EndsWithin size (functionDeclaration steps)
  statement : ∀ size, 20 * size + 17 ≤ steps → EndsWithin size (statement steps)
  /-- A label may wait for the loop that the statement is. -/
  labelledLoop : ∀ state : State, state.cursor.Ended → startsLoop state.cursor.current.kind →
    20 * state.cursor.ahead.length + 17 ≤ steps → EndsFrom state (Parser.statement steps)
  block : ∀ size, 20 * size + 21 ≤ steps → EndsWithin size (block steps)
  declarations : ∀ size, 20 * size + 20 ≤ steps → EndsWithin size (declarations steps)
  ifStatement : ∀ size, 20 * size + 1 ≤ steps → EndsWithin size (ifStatement steps)
  whileStatement : ∀ state : State, state.cursor.Ended →
    20 * state.cursor.ahead.length + 1 ≤ steps → EndsFrom state (whileStatement steps)
  forStatement : ∀ state : State, state.cursor.Ended →
    20 * state.cursor.ahead.length + 1 ≤ steps → EndsFrom state (forStatement steps)
  labelledStatement : ∀ size, 20 * size + 1 ≤ steps → EndsWithin size (labelledStatement steps)

/-- A row of declarations ends if each one does: none stands still before the end of the input. -/
theorem declarations_ends {steps size : Nat} {parser : Parser (List Stmt)}
    {state : State} (first : EndsWithin size (declaration steps))
    (rest : ∀ left, left < size → EndsWithin left parser) (ready : state.Ready)
    (length : state.cursor.ahead.length ≤ size)
    (inside : state.cursor.current.kind ≠ .endOfInput) :
    EndsFrom state (do
      let stmt ← declaration steps
      return stmt.toList ++ (← parser)) := by
  refine EndsFrom.bind (first state ready length) fun value after result => ?_
  have kept := (statementContracts steps).declaration state ready inside
  rw [KeepsFrom, result] at kept
  have shorter := State.Keeps.length kept
  rw [Bool.toNat_true] at shorter
  exact EndsFrom.bind
    (rest _ (by omega) after (State.Keeps.ready kept ready.ended) (Nat.le_refl _))
    fun _ _ _ => by rintro ⟨⟩

theorem statementsEnd : ∀ steps, StatementsEnd steps
  | 0 => by constructor <;> intros <;> omega
  | steps + 1 => by
      have ih := statementsEnd steps
      have contracts := statementContracts steps
      have parsed := (expressionContracts steps).expression
      constructor
      case declaration =>
        intro size enough state ready length
        rw [Parser.declaration]
        exact .recovering (ih.declared size (by omega) state ready length)
      case declared =>
        intro size enough
        rw [Parser.declared]
        exact .bind_eat (by decide)
          (.bind_eat (by decide) (ih.statement size (by omega)) fun left less =>
            ih.functionDeclaration left (by omega))
          fun left less => variableDeclaration_ends (by omega)
      case functionDeclaration =>
        intro size enough
        rw [Parser.functionDeclaration]
        exact .bindStrict (.expectName _) (.expectName _) fun name left less =>
          .bindStrict (.expect (by decide) _) (.expect (by decide) _) fun _ inner lower =>
            .bind (parameterList_ends (by omega)) (contract_parameterList steps) fun parameters =>
              .bind (.expect (by decide) _) (.expect (by decide) _) fun _ =>
                .bind (.expect (by decide) _) (.expect (by decide) _) fun _ =>
                  .bind (ih.block inner (by omega)).withFunctionBody
                    contracts.block.withFunctionBody fun body => .pure _
      case statement =>
        intro size enough state ready length
        unfold EndsFrom
        rw [statement_apply]
        split
        · rename_i begins
          have keeps := ready.keeps_advance (statementKinds_inside begins)
          have shorter := keeps.length
          have after := keeps.ready ready.ended
          rw [Bool.toNat_true] at shorter
          simp only at shorter
          have within : state.cursor.advance.ahead.length ≤ size - 1 := by omega
          change EndsFrom { state with cursor := state.cursor.advance }
            (statementAfter steps state.cursor.current)
          unfold statementAfter
          split
          · exact printStatement_ends (by omega) _ after within
          · exact EndsWithin.bind (ih.block (size - 1) (by omega)) contracts.block
              (fun body => .pure _) _ after within
          · exact ih.ifStatement (size - 1) (by omega) _ after within
          · exact ih.whileStatement _ after.ended (by simp only; omega)
          · exact ih.forStatement _ after.ended (by simp only; omega)
          · exact breakStatement_ends _ _ after within
          · exact continueStatement_ends _ _ after within
          · exact returnStatement_ends _ (by omega) _ after within
          · exact ih.labelledStatement (size - 1) (by omega) _ after within
        · exact expressionStatement_ends (by omega) state ready length
      case labelledLoop =>
        intro state ended loops enough
        have begins : statementKinds.contains state.cursor.current.kind := by
          rcases startsLoop_iff.mp loops with kind | kind <;> simp [statementKinds, kind]
        have passes := Cursor.passes_advance ended (statementKinds_inside begins)
        have shorter := passes.length
        have after := passes.ended ended
        rw [List.length_singleton] at shorter
        unfold EndsFrom
        rw [statement_apply, if_pos begins]
        change EndsFrom { state with cursor := state.cursor.advance }
          (statementAfter steps state.cursor.current)
        unfold statementAfter
        rcases startsLoop_iff.mp loops with kind | kind
        · rw [kind]
          exact ih.forStatement _ after (by simp only; omega)
        · rw [kind]
          exact ih.whileStatement _ after (by simp only; omega)
      case block =>
        intro size enough
        rw [Parser.block]
        exact .bind (ih.declarations size (by omega)) contracts.declarations fun body =>
          .bind (.expect (by decide) _) (.expect (by decide) _) fun _ => .pure _
      case declarations =>
        intro size enough state ready length
        rw [Parser.declarations]
        refine .check_bind (.atEnd_bind ?_)
        split
        · exact EndsWithin.pure [] state ready length
        · rename_i goesOn
          have inside : state.cursor.current.kind ≠ .endOfInput := by
            intro kind
            simp [Cursor.atEnd, kind] at goesOn
          exact declarations_ends (ih.declaration size (by omega))
            (fun left less => ih.declarations left (by omega)) ready length inside
      case ifStatement =>
        intro size enough
        rw [Parser.ifStatement]
        exact .bindStrict (.expect (by decide) _) (.expect (by decide) _) fun _ left less =>
          .bind (expressionsEnd steps |>.expression left (by omega)) parsed fun condition =>
            .bind (.expect (by decide) _) (.expect (by decide) _) fun _ =>
              .bind (ih.statement left (by omega)) contracts.statement fun thenBranch =>
                .bind_eat (by decide) (.pure _) fun last lower =>
                  .bind (ih.statement last (by omega)) contracts.statement fun _ => .pure _
      case whileStatement =>
        intro state ended enough
        rw [Parser.whileStatement]
        refine .takePendingLoop (fun label => ?_) ended (Nat.le_refl _)
        exact .bindStrict (.expect (by decide) _) (.expect (by decide) _) fun _ left less =>
          .bind (expressionsEnd steps |>.expression left (by omega)) parsed fun condition =>
            .bind (.expect (by decide) _) (.expect (by decide) _) fun _ =>
              .bind (ih.statement left (by omega)).withLoop contracts.statement.withLoop
                fun body => .pure _
      case forStatement =>
        intro state ended enough
        rw [Parser.forStatement]
        refine .takePendingLoop (fun label => ?_) ended (Nat.le_refl _)
        exact .bindStrict (.expect (by decide) _) (.expect (by decide) _) fun _ left less =>
          .bind (firstClause_ends (by omega)) (contract_firstClause steps) fun first =>
            .bind (optionalClause_ends _ (by omega)) (contract_optionalClause steps _)
              fun condition => .bind (.expect (by decide) _) (.expect (by decide) _) fun _ =>
                .bind (optionalClause_ends _ (by omega)) (contract_optionalClause steps _)
                  fun last => .bind (.expect (by decide) _) (.expect (by decide) _) fun _ =>
                    .bind (ih.statement left (by omega)).withLoop contracts.statement.withLoop
                      fun body => .pure _
      case labelledStatement =>
        intro size enough
        rw [Parser.labelledStatement]
        refine .bindStrict (.expectName _)
          (.expectName _) fun label left less state ready length => ?_
        refine .current_bind ?_
        split
        · refine .bind ?_ fun body after _ => by rintro ⟨⟩
          rw [withLabel_eq]
          refine .within ?_
          cases loops : startsLoop state.cursor.current.kind with
          | true => exact ih.labelledLoop _ ready.ended loops (by simp only; omega)
          | false => exact ih.statement left (by omega) _ ⟨ready.ended, ready.clear⟩ length
        · rintro ⟨⟩

theorem program_ends {steps size : Nat} (enough : 20 * size + 20 ≤ steps) :
    EndsWithin size (program steps) := by
  induction steps generalizing size with
  | zero => omega
  | succ steps ih =>
      intro state ready length
      rw [program]
      refine .atEnd_bind ?_
      split
      · exact EndsWithin.pure [] state ready length
      · rename_i goesOn
        have inside : state.cursor.current.kind ≠ .endOfInput := by
          simpa [Cursor.atEnd] using goesOn
        exact declarations_ends ((statementsEnd steps).declaration size (by omega))
          (fun left less => ih (by omega)) ready length inside

end Parser

end Lox
