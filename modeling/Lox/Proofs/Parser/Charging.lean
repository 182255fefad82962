import Lox.Proofs.Parser.Boundaries

/-!
What a parser owes for the faults that it finds.

A user is never told of more faults than there are tokens. To see this, every fault is charged to a
token: `Pays` says of a parser what credit it needs to begin with and what is left of it when it has
a result, where each token that is passed adds one and each fault takes one. A fault that is
reported without giving up is paid for by the token that made it possible: an invalid target by its
`=`, an argument too many by the comma in front of it, a `return` by its keyword. A parser that
gives up may owe one, and recovery pays for it with the token that it passes in any case.

Only at the end of the input nothing can be passed any more. There each block that is still open is
one more fault, which its brace has paid for (`StatementsPay.block`), and the last declaration
leaves one debt, for which the end itself stands (`State.due`).
-/

namespace Lox.Parser

variable {α β : Type} {credit left middle : Nat}

/-! ### Credit -/

/-- The faults that were found, and the tokens that are still ahead. -/
def State.toll (state : State) : Nat :=
  state.errors.length + state.cursor.ahead.length

/-- From one state: with so much credit the parser comes to a result and has so much left, or gives
up and owes one. -/
def PaysFrom (credit left : Nat) (state : State) (parser : Parser α) : Prop :=
  (parser state).Meets (fun _ after => after.cursor.Ended ∧ after.toll + left ≤ state.toll + credit)
    fun after => after.cursor.Ended ∧ after.toll ≤ state.toll + credit + 1

/-- The same from every place with an end of input ahead. -/
def Pays (credit : Nat) (parser : Parser α) (left : Nat) : Prop :=
  ∀ state : State, state.cursor.Ended → PaysFrom credit left state parser

theorem State.toll_advance {state : State} (ended : state.cursor.Ended)
    (inside : state.cursor.current.kind ≠ .endOfInput) :
    state.cursor.advance.Ended ∧
      ({ state with cursor := state.cursor.advance } : State).toll + 1 = state.toll := by
  have passes := Cursor.passes_advance ended inside
  have length := passes.length
  simp only [List.length_singleton] at length
  refine ⟨passes.ended ended, ?_⟩
  simp only [State.toll]
  omega

theorem PaysFrom.bind {state : State} {parser : Parser α} {next : α → Parser β}
    (first : PaysFrom credit middle state parser)
    (rest : ∀ value after, parser state = .parsed value after → after.cursor.Ended →
      PaysFrom middle left after (next value)) :
    PaysFrom credit left state (parser >>= next) := by
  unfold PaysFrom at first ⊢
  rw [bind_apply, andThen]
  cases run : parser state with
  | exhausted => trivial
  | failed after =>
      rw [run] at first
      exact first
  | parsed value between =>
      rw [run] at first
      obtain ⟨ended, paid⟩ := first
      have second := rest value between run ended
      unfold PaysFrom at second
      simp only
      cases last : next value between with
      | exhausted => trivial
      | failed after =>
          rw [last] at second
          obtain ⟨ended, owed⟩ := second
          exact ⟨ended, by omega⟩
      | parsed result after =>
          rw [last] at second
          obtain ⟨ended, more⟩ := second
          exact ⟨ended, by omega⟩

theorem PaysFrom.advance {state : State} (ended : state.cursor.Ended)
    (inside : state.cursor.current.kind ≠ .endOfInput) :
    PaysFrom credit (credit + 1) state advance := by
  obtain ⟨ended, toll⟩ := state.toll_advance ended inside
  exact ⟨ended, by omega⟩

theorem PaysFrom.current_bind {state : State} {next : Token → Parser β}
    (rest : PaysFrom credit left state (next state.cursor.current)) :
    PaysFrom credit left state (current >>= next) := rest

namespace Pays

variable {parser : Parser α}

/-- More credit does no harm, and what is not needed of it is left. -/
theorem mono {credit' left' : Nat} (pays : Pays credit parser left) (more : credit ≤ credit')
    (less : credit + left' ≤ credit' + left) : Pays credit' parser left' := by
  intro state ended
  have here := pays state ended
  unfold PaysFrom at here ⊢
  cases run : parser state with
  | exhausted => trivial
  | failed after =>
      rw [run] at here
      obtain ⟨ended, owed⟩ := here
      exact ⟨ended, by omega⟩
  | parsed value after =>
      rw [run] at here
      obtain ⟨ended, paid⟩ := here
      exact ⟨ended, by omega⟩

/-- What costs nothing leaves any credit as it is. -/
theorem free (pays : Pays 0 parser 0) : Pays credit parser credit :=
  pays.mono (Nat.zero_le _) (by omega)

/-- Credit that is not needed may be forgotten. -/
theorem spare (pays : Pays 0 parser 0) : Pays credit parser 0 :=
  pays.mono (Nat.zero_le _) (by omega)

theorem exhausted : Pays credit (exhausted : Parser α) left :=
  fun _ _ => trivial

theorem bind {next : α → Parser β} (first : Pays credit parser middle)
    (rest : ∀ value, Pays middle (next value) left) :
    Pays credit (parser >>= next) left :=
  fun state ended => (first state ended).bind fun value after _ ended => rest value after ended

/-- A parser that only looks around. -/
theorem looks (does : ∀ state, ∃ value scope, parser state = .parsed value { state with scope }) :
    Pays credit parser credit := by
  intro state ended
  obtain ⟨value, scope, run⟩ := does state
  unfold PaysFrom
  rw [run]
  exact ⟨ended, Nat.le_refl _⟩

theorem pure (value : α) (le : left ≤ credit) : Pays credit (pure value : Parser α) left :=
  (looks fun state => ⟨value, state.scope, rfl⟩).mono (Nat.le_refl _) (by omega)

theorem current : Pays credit current credit :=
  looks fun state => ⟨state.cursor.current, state.scope, rfl⟩

theorem check (kind : TokenKind) : Pays credit (check kind) credit :=
  looks fun state => ⟨state.cursor.check kind, state.scope, rfl⟩

theorem scope : Pays credit scope credit :=
  looks fun state => ⟨state.scope, state.scope, rfl⟩

theorem takePendingLoop : Pays credit takePendingLoop credit :=
  looks fun state => ⟨state.scope.pendingLoop, state.scope.settled, rfl⟩

theorem report (token : Token) (fault : GrammarFault) :
    Pays (credit + 1) (report token fault) credit := by
  intro state ended
  refine ⟨ended, ?_⟩
  simp only [State.toll, List.length_cons]
  omega

theorem fail (token : Token) (fault : GrammarFault) :
    Pays credit (fail token fault : Parser α) left := by
  intro state ended
  refine ⟨ended, ?_⟩
  simp only [State.toll, List.length_cons]
  omega

theorem demand (kept : Bool) (token : Token) (fault : GrammarFault) :
    Pays (credit + 1) (demand kept token fault) credit := by
  unfold Parser.demand
  split
  · exact .pure () (Nat.le_succ _)
  · exact .report token fault

/-- A token that is passed pays for one fault behind it. -/
theorem bind_eats {parser : Parser (Option α)} (eats : Eats parser) {next : Option α → Parser β}
    (without : Pays credit (next none) left)
    (behind : ∀ value, Pays (credit + 1) (next (some value)) left) :
    Pays credit (parser >>= next) left := by
  intro state ended
  rcases eats state with absent | ⟨inside, value, found⟩
  · unfold PaysFrom
    rw [bind_apply, andThen, absent]
    exact without state ended
  · obtain ⟨endedBehind, toll⟩ := state.toll_advance ended inside
    have first : PaysFrom credit (credit + 1) state parser := by
      unfold PaysFrom
      rw [found]
      exact ⟨endedBehind, by omega⟩
    refine first.bind fun result after run ended => ?_
    rw [found] at run
    cases run
    exact behind value _ ended

theorem bind_eat {kind : TokenKind} (inside : kind ≠ .endOfInput) {next : Bool → Parser β}
    (without : Pays credit (next false) left) (behind : Pays (credit + 1) (next true) left) :
    Pays credit (eat kind >>= next) left := by
  rw [eat_bind]
  exact .bind_eats (eats_eat? inside) without fun _ => behind

theorem expect {kind : TokenKind} (inside : kind ≠ .endOfInput) (part : Missing) :
    Pays credit (expect kind part) (credit + 1) := by
  rw [expect_eq]
  exact .bind_eats (eats_eat? inside) (.bind .current fun token => .fail token _) fun token =>
    .pure token (Nat.le_refl _)

theorem expectName (part : Missing) : Pays credit (expectName part) (credit + 1) :=
  .bind (.expect (by decide) part) fun _ => .pure _ (Nat.le_refl _)

theorem within (enter : Scope → Scope) (leave : Scope → Scope → Scope)
    (pays : Pays credit parser left) :
    Pays credit (within enter leave parser) left := by
  intro state ended
  have inside := pays { state with scope := enter state.scope } ended
  unfold PaysFrom at inside ⊢
  unfold Parser.within
  cases run : parser { state with scope := enter state.scope } with
  | exhausted => trivial
  | failed after => rwa [run] at inside
  | parsed value after => rwa [run] at inside

theorem withLoop (pays : Pays credit parser left) : Pays credit (withLoop parser) left := by
  rw [withLoop_eq]
  exact pays.within _ _

theorem withFunctionBody (pays : Pays credit parser left) :
    Pays credit (withFunctionBody parser) left := by
  rw [withFunctionBody_eq]
  exact pays.within _ _

theorem withLabel (label : Name) (isLoop : Bool) (pays : Pays credit parser left) :
    Pays credit (withLabel label isLoop parser) left := by
  rw [withLabel_eq]
  exact pays.within _ _

end Pays

/-! ### Expressions -/

/-- What a list of arguments or parameters owes when it goes on after so many members. -/
def overdue (count : Nat) : Nat :=
  if argumentLimit ≤ count then 1 else 0

/-- The comma in front of a member pays for it. -/
theorem Pays.prepaid {parser : Parser α} {count : Nat} (pays : Pays (overdue count) parser 0) :
    Pays 1 parser 0 := by
  have le : overdue count ≤ 1 := by
    unfold overdue
    split <;> omega
  exact pays.mono le (by omega)

theorem pays_checkLimit (count : Nat) (fault : GrammarFault) :
    Pays (overdue count) (checkLimit count fault) 0 := by
  unfold Parser.checkLimit overdue
  split
  · exact .bind .current fun token => .report token fault
  · exact .pure () (Nat.le_refl _)

/-- What the parsers of expressions pay. -/
structure ExpressionsPay (steps : Nat) : Prop where
  expression : Pays 0 (expression steps) 0
  operation : ∀ level, Pays 0 (operation steps level) 0
  operationFrom : ∀ level first, Pays 0 (operationFrom steps level first) 0
  operand : ∀ level, Pays 0 (operand steps level) 0
  unary : Pays 0 (unary steps) 0
  call : Pays 0 (call steps) 0
  callFrom : ∀ callee, Pays 0 (callFrom steps callee) 0
  argumentList : Pays 0 (argumentList steps) 0
  argumentsFrom : ∀ count, Pays (overdue count) (argumentsFrom steps count) 0
  primary : Pays 0 (primary steps) 0

theorem expressionsPay : ∀ steps, ExpressionsPay steps
  | 0 => by constructor <;> intros <;> exact .exhausted
  | steps + 1 => by
      have ih := expressionsPay steps
      constructor
      case expression =>
        rw [Parser.expression]
        refine .bind (ih.operation .or) fun target => .bind_eats (eats_eat? (by decide))
          (.pure target (Nat.le_refl _)) fun equals => .bind ih.expression.free fun value => ?_
        split
        · exact .pure _ (Nat.zero_le _)
        · exact .bind (.report equals .assignmentTarget) fun _ => .pure _ (Nat.zero_le _)
      case operation =>
        intro level
        rw [Parser.operation]
        exact .bind (ih.operand level) fun first => ih.operationFrom level first
      case operationFrom =>
        intro level first
        rw [Parser.operationFrom]
        exact .bind_eats (eats_eatInfix? level) (.pure first (Nat.le_refl _)) fun found =>
          .bind (ih.operand level).free fun right => (ih.operationFrom level _).spare
      case operand =>
        intro level
        rw [Parser.operand]
        cases level.tighter? with
        | none => exact ih.unary
        | some tighter => exact ih.operation tighter
      case unary =>
        rw [Parser.unary]
        exact .bind_eats eats_eatPrefix? ih.call fun found =>
          .bind ih.unary.free fun _ => .pure _ (Nat.zero_le _)
      case call =>
        rw [Parser.call]
        exact .bind ih.primary fun callee => ih.callFrom callee
      case callFrom =>
        intro callee
        rw [Parser.callFrom]
        exact .bind_eats (eats_eat? (by decide)) (.pure callee (Nat.le_refl _)) fun _ =>
          .bind ih.argumentList.free fun arguments => .bind (.expect (by decide) _) fun close =>
            (ih.callFrom _).spare
      case argumentList =>
        rw [Parser.argumentList]
        refine .bind (.check .rightParen) fun closes => ?_
        cases closes with
        | true => exact .pure [] (Nat.le_refl _)
        | false => exact ih.argumentsFrom 0
      case argumentsFrom =>
        intro count
        rw [Parser.argumentsFrom]
        exact .bind (pays_checkLimit count _) fun _ => .bind ih.expression fun first =>
          .bind_eat (by decide) (.pure [first] (Nat.le_refl _))
            (.bind (ih.argumentsFrom (count + 1)).prepaid fun _ =>
              .pure _ (Nat.le_refl _))
      case primary =>
        rw [Parser.primary]
        intro state ended
        refine .current_bind ?_
        cases found : atom? state.cursor.current with
        | some expr =>
            exact (PaysFrom.advance ended (atom?_inside found)).bind fun _ after _ ended =>
              Pays.pure expr (Nat.zero_le _) after ended
        | none =>
            exact Pays.bind_eat (by decide) (.fail _ _) (.bind ih.expression.free fun inner =>
              .bind (.expect (by decide) _) fun _ => .pure _ (Nat.zero_le _)) state ended

/-! ### The parts of statements -/

theorem pays_firstValue (steps : Nat) (follows : Bool) :
    Pays credit (firstValue steps follows) credit := by
  cases follows with
  | false => exact .pure none (Nat.le_refl _)
  | true =>
      change Pays credit (some <$> Parser.expression steps) credit
      rw [map_eq_pure_bind]
      exact .bind (expressionsPay steps).expression.free fun value => .pure _ (Nat.le_refl _)

theorem pays_variableDeclaration (steps : Nat) : Pays 0 (variableDeclaration steps) 0 := by
  have closed (name : Name) (follows : Bool) : Pays 1 (firstValue steps follows >>= fun first =>
      expect .semicolon .semicolonAfterVariable >>= fun _ => pure (Stmt.define name first)) 0 :=
    .bind (pays_firstValue steps follows) fun first =>
      .bind (.expect (by decide) _) fun _ => .pure _ (Nat.zero_le _)
  rw [variableDeclaration_eq]
  exact .bind (.expectName _) fun name => .bind_eat (by decide) (closed name false)
    ((closed name true).mono (Nat.le_succ _) (by omega))

theorem pays_printStatement (steps : Nat) : Pays 0 (printStatement steps) 0 :=
  .bind (expressionsPay steps).expression fun value =>
    .bind (.expect (by decide) _) fun _ => .pure _ (Nat.zero_le _)

theorem pays_expressionStatement (steps : Nat) : Pays 0 (expressionStatement steps) 0 :=
  .bind (expressionsPay steps).expression fun value =>
    .bind (.expect (by decide) _) fun _ => .pure _ (Nat.zero_le _)

theorem pays_optionalLabel : Pays credit optionalLabel credit := by
  have here : Pays credit (optionalLabel >>= fun label => pure label) credit :=
    .bind_eats (eats_eat? (by decide)) (.pure none (Nat.le_refl _)) fun label =>
      .pure _ (Nat.le_succ _)
  rwa [bind_pure] at here

/-- The semicolon of a `break` or a `continue` pays for what is checked once it has been passed. -/
theorem pays_check {label : Option Token} {named : Token → Scope → Bool} {bare : Scope → Bool}
    {keyword : Token} {unknown : Token → GrammarFault} {outside : GrammarFault} {stmt : Stmt} :
    Pays 1 (scope >>= fun around => match label with
      | some label => demand (named label around) label (unknown label) >>= fun _ => pure stmt
      | none => demand (bare around) keyword outside >>= fun _ => pure stmt) 0 := by
  refine .bind .scope fun around => ?_
  cases label with
  | none => exact .bind (.demand _ _ _) fun _ => .pure _ (Nat.le_refl _)
  | some label => exact .bind (.demand _ _ _) fun _ => .pure _ (Nat.le_refl _)

theorem pays_breakStatement (keyword : Token) : Pays 0 (breakStatement keyword) 0 := by
  rw [breakStatement_eq]
  exact .bind pays_optionalLabel fun label => .bind (.expect (by decide) _) fun _ => pays_check

theorem pays_continueStatement (keyword : Token) : Pays 0 (continueStatement keyword) 0 := by
  rw [continueStatement_eq]
  exact .bind pays_optionalLabel fun label => .bind (.expect (by decide) _) fun _ => pays_check

/-- The keyword pays for a `return` that is out of place. -/
theorem pays_returnStatement (steps : Nat) (keyword : Token) :
    Pays 1 (returnStatement steps keyword) 0 := by
  rw [returnStatement_eq]
  exact .bind .scope fun around =>
    .bind (.demand _ _ _) fun _ => .bind (expressionsPay steps).expression fun value =>
    .bind (.expect (by decide) _) fun _ => .pure _ (Nat.zero_le _)

theorem pays_parametersFrom (steps count : Nat) :
    Pays (overdue count) (parametersFrom steps count) 0 := by
  induction steps generalizing count with
  | zero => exact .exhausted
  | succ steps ih =>
      rw [parametersFrom]
      exact .bind (pays_checkLimit count _) fun _ => .bind (.expectName _) fun first =>
        .bind_eat (by decide) (.pure [first] (Nat.zero_le _))
          (.bind ((ih (count + 1)).prepaid.mono (Nat.le_succ _) (by omega)) fun _ =>
            .pure _ (Nat.le_refl _))

theorem pays_parameterList (steps : Nat) : Pays 0 (parameterList steps) 0 := by
  refine .bind (.check .rightParen) fun closes => ?_
  cases closes with
  | true => exact .pure [] (Nat.le_refl _)
  | false => exact pays_parametersFrom steps 0

theorem pays_optionalClause (steps : Nat) (close : TokenKind) :
    Pays 0 (optionalClause steps close) 0 := by
  refine .bind (.check close) fun closes => ?_
  cases closes with
  | true => exact .pure none (Nat.le_refl _)
  | false => exact .bind (expressionsPay steps).expression fun _ => .pure _ (Nat.le_refl _)

theorem pays_firstClause (steps : Nat) : Pays 0 (firstClause steps) 0 :=
  .bind_eat (by decide)
    (.bind_eat (by decide) (.bind (pays_expressionStatement steps) fun _ => .pure _ (Nat.le_refl _))
      (.bind (pays_variableDeclaration steps).spare fun _ => .pure _ (Nat.le_refl _)))
    (.pure none (Nat.zero_le _))

/-! ### Rows of declarations -/

/-- The toll of a state, and one more for the end of the input as long as it has not been
reached. -/
def State.due (state : State) : Nat :=
  state.toll + if state.cursor.current.kind = .endOfInput then 0 else 1

/-- From one state: the parser comes to a result, and leaves nothing more to pay than there was. -/
def SettlesFrom (state : State) (parser : Parser α) : Prop :=
  (parser state).Meets (fun _ after => after.cursor.Ended ∧ after.due ≤ state.due) fun _ => False

/-- The same from every place with an end of input ahead. -/
def Settles (parser : Parser α) : Prop :=
  ∀ state : State, state.cursor.Ended → SettlesFrom state parser

theorem State.toll_le_due (state : State) : state.toll ≤ state.due :=
  Nat.le_add_right _ _

theorem State.due_le_toll (state : State) : state.due ≤ state.toll + 1 := by
  unfold State.due
  split <;> omega

theorem State.due_of_inside {state : State} (inside : state.cursor.current.kind ≠ .endOfInput) :
    state.due = state.toll + 1 := by
  rw [State.due, if_neg inside]

theorem SettlesFrom.bind {state : State} {parser : Parser α} {next : α → Parser β}
    (first : SettlesFrom state parser) (rest : ∀ value, Settles (next value)) :
    SettlesFrom state (parser >>= next) := by
  unfold SettlesFrom at first ⊢
  rw [bind_apply, andThen]
  cases run : parser state with
  | exhausted => trivial
  | failed after =>
      rw [run] at first
      exact first
  | parsed value middle =>
      rw [run] at first
      have second := rest value middle first.1
      unfold SettlesFrom at second
      simp only
      cases last : next value middle with
      | exhausted => trivial
      | failed after => rwa [last] at second
      | parsed result after =>
          rw [last] at second
          exact ⟨second.1, Nat.le_trans second.2 first.2⟩

theorem Settles.pure (value : α) : Settles (pure value : Parser α) :=
  fun _ ended => ⟨ended, Nat.le_refl _⟩

theorem Settles.map {parser : Parser α} (settles : Settles parser) (change : α → β) :
    Settles (parser >>= fun value => Pure.pure (change value)) :=
  fun state ended => (settles state ended).bind fun value => .pure (change value)

theorem Settles.pays {parser : Parser α} (settles : Settles parser) : Pays 1 parser 0 := by
  intro state ended
  have here := settles state ended
  unfold SettlesFrom at here
  unfold PaysFrom
  cases run : parser state with
  | exhausted => trivial
  | failed after =>
      rw [run] at here
      exact here.elim
  | parsed value after =>
      rw [run] at here
      exact ⟨here.1, Nat.le_trans after.toll_le_due (Nat.le_trans here.2 state.due_le_toll)⟩

/-- Recovery pays with the token that it passes or, where it finds the end of the input, with
that. -/
theorem SettlesFrom.recovering {state : State} {parser : Parser α}
    (pays : PaysFrom 0 0 state parser) (inside : state.cursor.current.kind ≠ .endOfInput) :
    SettlesFrom state (recovering parser) := by
  have due := state.due_of_inside inside
  unfold PaysFrom at pays
  unfold SettlesFrom
  rw [Parser.recovering]
  cases run : parser state with
  | exhausted => trivial
  | parsed value after =>
      rw [run] at pays
      obtain ⟨ended, paid⟩ := pays
      have le := after.due_le_toll
      exact ⟨ended, by omega⟩
  | failed after =>
      rw [run] at pays
      obtain ⟨ended, owed⟩ := pays
      obtain ⟨skipped, passes, moves⟩ := Cursor.passes_synchronize ended
      refine ⟨passes.ended ended, ?_⟩
      by_cases atEnd : after.cursor.current.kind = .endOfInput
      · have stays : after.cursor.synchronize = after.cursor := by
          rw [Cursor.synchronize, if_pos (by simpa [Cursor.atEnd] using atEnd)]
        have settled : after.due = after.toll := by rw [State.due, if_pos atEnd, Nat.add_zero]
        rw [stays]
        change after.due ≤ state.due
        omega
      · have length := passes.length
        have some := List.length_pos_iff.mpr (moves atEnd)
        have le := ({ after with cursor := after.cursor.synchronize } : State).due_le_toll
        simp only [State.toll] at le owed due
        omega

/-! ### Statements -/

/-- What the parsers of statements pay. -/
structure StatementsPay (steps : Nat) : Prop where
  declaration : ∀ state : State, state.cursor.Ended → state.cursor.current.kind ≠ .endOfInput →
    SettlesFrom state (declaration steps)
  declared : Pays 0 (declared steps) 0
  functionDeclaration : Pays 0 (functionDeclaration steps) 0
  statement : Pays 0 (statement steps) 0
  /-- A brace pays for a block that is never closed. -/
  block : Pays 1 (block steps) 0
  declarations : Settles (declarations steps)
  ifStatement : Pays 0 (ifStatement steps) 0
  whileStatement : Pays 0 (whileStatement steps) 0
  forStatement : Pays 0 (forStatement steps) 0
  labelledStatement : Pays 0 (labelledStatement steps) 0

theorem StatementsPay.after {steps : Nat} (parsers : StatementsPay steps) (token : Token) :
    Pays 1 (statementAfter steps token) 0 := by
  unfold statementAfter
  split
  · exact (pays_printStatement steps).spare
  · exact .bind parsers.block fun body => .pure _ (Nat.le_refl _)
  · exact parsers.ifStatement.spare
  · exact parsers.whileStatement.spare
  · exact parsers.forStatement.spare
  · exact (pays_breakStatement token).spare
  · exact (pays_continueStatement token).spare
  · exact pays_returnStatement steps token
  · exact parsers.labelledStatement.spare

theorem statementsPay : ∀ steps, StatementsPay steps
  | 0 => by constructor <;> intros <;> first | exact .exhausted | trivial | exact fun _ _ => trivial
  | steps + 1 => by
      have ih := statementsPay steps
      have parsed := (expressionsPay steps).expression
      constructor
      case declaration =>
        intro state ended inside
        rw [Parser.declaration]
        exact .recovering (ih.declared state ended) inside
      case declared =>
        rw [Parser.declared]
        exact .bind_eat (by decide)
          (.bind_eat (by decide) ih.statement ih.functionDeclaration.spare)
          (pays_variableDeclaration steps).spare
      case functionDeclaration =>
        rw [Parser.functionDeclaration]
        exact .bind (.expectName _) fun name => .bind (.expect (by decide) _) fun _ =>
          .bind (pays_parameterList steps).free fun parameters =>
            .bind (.expect (by decide) _) fun _ =>
            .bind (.expect (by decide) _) fun _ =>
              .bind (ih.block.withFunctionBody.mono (by decide) (by decide)) fun body =>
                .pure _ (Nat.le_refl _)
      case statement =>
        intro state ended
        unfold PaysFrom
        rw [statement_apply]
        split
        · rename_i begins
          exact (PaysFrom.advance ended (statementKinds_inside begins)).bind fun _ after _ ended =>
            ih.after state.cursor.current after ended
        · exact pays_expressionStatement steps state ended
      case block =>
        rw [Parser.block]
        exact .bind ih.declarations.pays fun body =>
          .bind (.expect (by decide) _) fun _ => .pure _ (Nat.zero_le _)
      case declarations =>
        intro state ended
        rw [Parser.declarations]
        change SettlesFrom state
          (if state.cursor.check .rightBrace || state.cursor.atEnd then _ else _)
        split
        · exact Settles.pure [] state ended
        · rename_i goesOn
          have inside : state.cursor.current.kind ≠ .endOfInput := by
            intro kind
            simp [Cursor.atEnd, kind] at goesOn
          exact (ih.declaration state ended inside).bind fun first => ih.declarations.map _
      case ifStatement =>
        rw [Parser.ifStatement]
        exact .bind (.expect (by decide) _) fun _ => .bind parsed.free fun condition =>
          .bind (.expect (by decide) _) fun _ => .bind ih.statement.free fun thenBranch =>
            .bind_eat (by decide) (.pure _ (Nat.zero_le _))
              (.bind ih.statement.free fun elseBranch => .pure _ (Nat.zero_le _))
      case whileStatement =>
        rw [Parser.whileStatement]
        exact .bind .takePendingLoop fun label => .bind (.expect (by decide) _) fun _ =>
          .bind parsed.free fun condition => .bind (.expect (by decide) _) fun _ =>
            .bind ih.statement.free.withLoop fun body => .pure _ (Nat.zero_le _)
      case forStatement =>
        rw [Parser.forStatement]
        exact .bind .takePendingLoop fun label => .bind (.expect (by decide) _) fun _ =>
          .bind (pays_firstClause steps).free fun first =>
            .bind (pays_optionalClause steps _).free fun condition =>
            .bind (.expect (by decide) _) fun _ =>
              .bind (pays_optionalClause steps _).free fun last =>
              .bind (.expect (by decide) _) fun _ =>
                .bind ih.statement.free.withLoop fun body => .pure _ (Nat.zero_le _)
      case labelledStatement =>
        rw [Parser.labelledStatement]
        refine .bind (.expectName _) fun label => .bind .current fun target => ?_
        split
        · exact .bind (ih.statement.free.withLabel label _) fun body => .pure _ (Nat.zero_le _)
        · exact .fail _ _

theorem program_settles (steps : Nat) : Settles (program steps) := by
  induction steps with
  | zero => exact fun _ _ => trivial
  | succ steps ih =>
      intro state ended
      rw [program]
      change SettlesFrom state (if state.cursor.atEnd then _ else _)
      split
      · exact Settles.pure [] state ended
      · rename_i goesOn
        have inside : state.cursor.current.kind ≠ .endOfInput := by
          simpa [Cursor.atEnd] using goesOn
        exact ((statementsPay steps).declaration state ended inside).bind fun first => ih.map _

end Lox.Parser
