import Lox.Proofs.Parser.Acceptance
import Lox.Proofs.Syntax.Shape

/-!
What the parser builds is shaped, whatever it is given.

`State.Knows` is what holds of a state at every moment: the tokens ahead and those that faults are
about are known ones, and it says which label waits for a loop. A parser builds values with a
property if, from such a state, it comes to such a state again and its value, if there is one, has
the property (`Builds`). Giving up and recovering keep this, so it holds of erroneous input too, and
it is met by naming the parts of a parser. The one place where a label waits is between the label
and the keyword of its loop.
-/

namespace Lox

namespace Parser

variable {α β : Type} {known : Token → Prop} {pending : Option Name}

/-! ### States and parsers -/

/-- The tokens ahead and those that the faults are about are known, and `pending` waits for a
loop. -/
structure State.Knows (known : Token → Prop) (pending : Option Name) (state : State) : Prop where
  ahead : ∀ token ∈ state.cursor.remaining, known token
  faults : ∀ error ∈ state.errors, known error.token
  waits : state.scope.pendingLoop = pending

/-- The name of a known identifier. -/
def KnownName (known : Token → Prop) (name : Name) : Prop :=
  ∃ token, known token ∧ token.kind = .identifier ∧ nameOf token = name

/-- From one state: a value has a property, and no label waits in the state that the parser
leaves. -/
def BuildsFrom (known : Token → Prop) (holds : α → Prop) (state : State) (parser : Parser α) :
    Prop :=
  (parser state).Meets (fun value after => holds value ∧ after.Knows known none)
  (State.Knows known none)

/-- From every state in which `pending` waits. -/
def Builds (known : Token → Prop) (pending : Option Name) (holds : α → Prop) (parser : Parser α) :
    Prop :=
  ∀ state : State, state.Knows known pending → BuildsFrom known holds state parser

theorem remaining_advance {cursor : Cursor} {token : Token}
    (member : token ∈ cursor.advance.remaining) :
    token ∈ cursor.remaining := by
  unfold Cursor.advance at member
  split at member
  · exact member
  · split at member
    · exact member
    · rename_i next rest ahead
      rw [Cursor.remaining, ahead]
      exact List.mem_cons_of_mem _ member

theorem remaining_toBoundary {passed ahead : List Token} {current token : Token}
    (member : token ∈ (Cursor.toBoundary passed current ahead).remaining) :
    token ∈ current :: ahead := by
  induction ahead generalizing passed current with
  | nil => exact member
  | cons next rest ih =>
      rw [Cursor.toBoundary] at member
      split at member
      · exact member
      · exact List.mem_cons_of_mem _ (ih member)

theorem remaining_synchronize {cursor : Cursor} {token : Token}
    (member : token ∈ cursor.synchronize.remaining) : token ∈ cursor.remaining := by
  unfold Cursor.synchronize at member
  split at member
  · exact member
  · exact remaining_advance (remaining_toBoundary member)

namespace State.Knows

variable {state : State} (knows : state.Knows known pending)
include knows

theorem current : known state.cursor.current :=
  knows.ahead _ List.mem_cons_self

theorem advance : ({ state with cursor := state.cursor.advance } : State).Knows known pending :=
  ⟨fun token member => knows.ahead token (remaining_advance member), knows.faults, knows.waits⟩

theorem synchronize :
    ({ state with cursor := state.cursor.synchronize } : State).Knows known pending :=
  ⟨fun token member => knows.ahead token (remaining_synchronize member), knows.faults, knows.waits⟩

theorem report {token : Token} (isKnown : known token) (fault : GrammarFault) :
    ({ state with errors := ⟨token, fault, state.scope.reporting⟩ :: state.errors } : State).Knows
      known
      pending :=
  ⟨knows.ahead, List.forall_mem_cons.mpr ⟨isKnown, knows.faults⟩, knows.waits⟩

theorem withScope {scope : Scope} {waiting : Option Name} (waits : scope.pendingLoop = waiting) :
    ({ state with scope := scope } : State).Knows known waiting :=
  ⟨knows.ahead, knows.faults, waits⟩

end State.Knows

/-! ### Parts of parsers -/

theorem BuildsFrom.bind {first : α → Prop} {holds : β → Prop} {state : State} {parser : Parser α}
    {next : α → Parser β} (builds : BuildsFrom known first state parser)
    (rest : ∀ value, first value → Builds known none holds (next value)) :
    BuildsFrom known holds state (parser >>= next) := by
  unfold BuildsFrom at builds ⊢
  rw [bind_apply, andThen]
  cases result : parser state with
  | exhausted => trivial
  | failed after =>
      rw [result] at builds
      exact builds
  | parsed value after =>
      rw [result] at builds
      exact rest value builds.1 after builds.2

theorem BuildsFrom.within {holds : α → Prop} {state : State} {parser : Parser α}
    {enter : Scope → Scope} {leave : Scope → Scope → Scope}
    (leaves : ∀ scope : Scope, scope.pendingLoop = none →
      (leave state.scope scope).pendingLoop = none)
    (inside : BuildsFrom known holds { state with scope := enter state.scope } parser) :
    BuildsFrom known holds state (within enter leave parser) := by
  unfold BuildsFrom at inside ⊢
  unfold Parser.within
  cases result : parser { state with scope := enter state.scope } with
  | exhausted => trivial
  | failed after =>
      rw [result] at inside
      exact inside.withScope (leaves _ inside.waits)
  | parsed value after =>
      rw [result] at inside
      exact ⟨inside.1, inside.2.withScope (leaves _ inside.2.waits)⟩

namespace Builds

variable {holds : α → Prop}

theorem exhausted : Builds known pending holds (exhausted : Parser α) :=
  fun _ _ => trivial

theorem pure {value : α} (given : holds value) :
    Builds known none holds (Pure.pure value : Parser α) :=
  fun _ knows => ⟨given, knows⟩

theorem fail {token : Token} (isKnown : known token) (fault : GrammarFault) :
    Builds known none holds (fail token fault : Parser α) :=
  fun _ knows => knows.report isKnown fault

theorem bind {first : β → Prop} {parser : Parser β} {next : β → Parser α}
    (builds : Builds known pending first parser)
    (rest : ∀ value, first value → Builds known none holds (next value)) :
    Builds known pending holds (parser >>= next) :=
  fun state knows => (builds state knows).bind rest

theorem mono {weaker : α → Prop} {parser : Parser α} (builds : Builds known pending holds parser)
    (implies : ∀ value, holds value → weaker value) : Builds known pending weaker parser := by
  intro state knows
  have given := builds state knows
  unfold BuildsFrom at given ⊢
  cases result : parser state with
  | exhausted => trivial
  | failed after =>
      rw [result] at given
      exact given
  | parsed value after =>
      rw [result] at given
      exact ⟨implies value given.1, given.2⟩

/-- Nothing is asked of what comes first. -/
theorem next {parser : Parser β} {next : β → Parser α}
    (builds : Builds known pending (fun _ => True) parser)
    (rest : ∀ value, Builds known none holds (next value)) :
    Builds known pending holds (parser >>= next) :=
  builds.bind fun value _ => rest value

theorem map {parser : Parser β} {change : β → α}
    (builds : Builds known pending (fun value => holds (change value)) parser) :
    Builds known pending holds (change <$> parser) := by
  rw [map_eq_pure_bind]
  exact builds.bind fun value given => .pure given

theorem current : Builds known none known current :=
  fun _ knows => ⟨knows.current, knows⟩

theorem check (kind : TokenKind) : Builds known none (fun _ => True) (check kind) :=
  fun _ knows => ⟨trivial, knows⟩

theorem atEnd : Builds known none (fun _ => True) atEnd :=
  fun _ knows => ⟨trivial, knows⟩

theorem scope : Builds known none (fun _ => True) scope :=
  fun _ knows => ⟨trivial, knows⟩

theorem advance : Builds known none known advance :=
  fun _ knows => ⟨knows.current, knows.advance⟩

theorem report {token : Token} (isKnown : known token) (fault : GrammarFault) :
    Builds known none (fun _ => True) (report token fault) :=
  fun _ knows => ⟨trivial, knows.report isKnown fault⟩

theorem demand (kept : Bool) {token : Token} (isKnown : known token) (fault : GrammarFault) :
    Builds known none (fun _ => True) (demand kept token fault) := by
  unfold Parser.demand
  split
  · exact .pure trivial
  · exact .report isKnown fault

theorem checkLimit (count : Nat) (fault : GrammarFault) :
    Builds known none (fun _ => True) (checkLimit count fault) := by
  unfold Parser.checkLimit
  split
  · exact .bind .current fun _ isKnown => .report isKnown fault
  · exact .pure trivial

theorem eat? (kind : TokenKind) :
    Builds known none (fun found => ∀ token ∈ found, known token ∧ token.kind = kind)
      (eat? kind) := by
  intro state knows
  unfold BuildsFrom Parser.eat?
  split
  · rename_i here
    refine ⟨?_, knows.advance⟩
    rintro token ⟨⟩
    exact ⟨knows.current, by simpa [Cursor.check] using here⟩
  · exact ⟨by simp, knows⟩

theorem eat (kind : TokenKind) : Builds known none (fun _ => True) (eat kind) :=
  .bind (.eat? kind) fun _ _ => .pure trivial

theorem expect (kind : TokenKind) (part : Missing) :
    Builds known none (fun token => known token ∧ token.kind = kind) (expect kind part) := by
  rw [expect_eq]
  refine .bind (.eat? kind) fun found isKnown => ?_
  cases found with
  | none => exact .bind .current fun token isKnown => .fail isKnown _
  | some token => exact .pure (isKnown token rfl)

/-- The token that has to be there is of no further interest. -/
theorem expect_next {kind : TokenKind} {part : Missing} {next : Token → Parser α}
    (rest : ∀ token, Builds known none holds (next token)) :
    Builds known none holds (Parser.expect kind part >>= next) :=
  .bind (.expect kind part) fun token _ => rest token

theorem expectName (part : Missing) : Builds known none (KnownName known) (expectName part) :=
  .bind (.expect .identifier part) fun token found => .pure ⟨token, found.1, found.2, rfl⟩

theorem withLoop {parser : Parser α} (builds : Builds known none holds parser) :
    Builds known none holds (withLoop parser) := by
  rw [withLoop_eq]
  exact fun state knows => .within (fun _ clear => clear) (builds _ (knows.withScope knows.waits))

theorem withFunctionBody {parser : Parser α} (builds : Builds known none holds parser) :
    Builds known none holds (withFunctionBody parser) := by
  rw [withFunctionBody_eq]
  exact fun state knows => .within (fun _ _ => knows.waits) (builds _ (knows.withScope rfl))

theorem recovering {parser : Parser α} (builds : Builds known none holds parser) :
    Builds known none (fun found => ∀ value ∈ found, holds value) (recovering parser) := by
  intro state knows
  have inside := builds state knows
  unfold BuildsFrom at inside ⊢
  unfold Parser.recovering
  cases result : parser state with
  | exhausted => trivial
  | failed after =>
      rw [result] at inside
      exact ⟨by simp, inside.synchronize⟩
  | parsed value after =>
      rw [result] at inside
      exact ⟨by rintro _ ⟨⟩; exact inside.1, inside.2⟩

/-- A loop takes the label that waits for it. -/
theorem takePendingLoop {next : Option Name → Parser α}
    (rest : Builds known none holds (next pending)) :
    Builds known pending holds (takePendingLoop >>= next) := by
  intro state knows
  unfold BuildsFrom
  rw [takePendingLoop_bind, knows.waits]
  exact rest _ (knows.withScope rfl)

end Builds

/-! ### Expressions -/

/-- The expressions whose names are known identifiers. -/
abbrev NamesKnown (known : Token → Prop) (expr : Expr) : Prop :=
  expr.Named (KnownName known)

theorem namesKnown_atom {token : Token} {expr : Expr} (isKnown : known token)
    (found : atom? token = some expr) :
    NamesKnown known expr := by
  unfold atom? at found
  split at found <;> cases found
  case h_6 kind => exact .variable ⟨token, isKnown, kind, rfl⟩
  all_goals exact .literal trivial

theorem namesKnown_combine {op : InfixOp} {line : Nat} {left right : Expr}
    (ofLeft : NamesKnown known left) (ofRight : NamesKnown known right) :
    NamesKnown known (op.combine line left right) := by
  cases op with
  | logical op => exact .logical trivial ofLeft ofRight
  | binary op => exact .binary trivial ofLeft ofRight

theorem builds_eatInfix? (level : Level) : Builds known none (fun _ => True) (eatInfix? level) :=
  .bind .current fun token _ => by
    split
    · exact .pure trivial
    · exact .bind .advance fun _ _ => .pure trivial

theorem builds_eatPrefix? : Builds known none (fun _ => True) eatPrefix? :=
  .bind .current fun token _ => by
    split
    · exact .pure trivial
    · exact .bind .advance fun _ _ => .pure trivial

/-- What the parsers of expressions build. -/
structure ExpressionsBuilt (known : Token → Prop) (steps : Nat) : Prop where
  expression : Builds known none (NamesKnown known) (expression steps)
  operation : ∀ level, Builds known none (NamesKnown known) (operation steps level)
  operationFrom : ∀ level left, NamesKnown known left →
    Builds known none (NamesKnown known) (operationFrom steps level left)
  operand : ∀ level, Builds known none (NamesKnown known) (operand steps level)
  unary : Builds known none (NamesKnown known) (unary steps)
  call : Builds known none (NamesKnown known) (call steps)
  callFrom : ∀ callee, NamesKnown known callee →
    Builds known none (NamesKnown known) (callFrom steps callee)
  argumentList : Builds known none (∀ argument ∈ ·, NamesKnown known argument) (argumentList steps)
  argumentsFrom : ∀ count,
    Builds known none (∀ argument ∈ ·, NamesKnown known argument) (argumentsFrom steps count)
  primary : Builds known none (NamesKnown known) (primary steps)

theorem expressionsBuilt (known : Token → Prop) : ∀ steps, ExpressionsBuilt known steps
  | 0 => by constructor <;> intros <;> exact .exhausted
  | steps + 1 => by
      have ih := expressionsBuilt known steps
      constructor
      case expression =>
        rw [Parser.expression]
        refine .bind (ih.operation .or) fun target ofTarget =>
          .bind (.eat? .equal) fun found isKnown => ?_
        cases found with
        | none => exact .pure ofTarget
        | some equals =>
            refine .bind ih.expression fun value ofValue => ?_
            split
            · cases ofTarget with
              | «variable» named => exact .pure (.assign named ofValue)
            · exact .next (.report (isKnown equals rfl).1 _) fun _ => .pure ofTarget
      case operation =>
        intro level
        rw [Parser.operation]
        exact .bind (ih.operand level) fun first ofFirst => ih.operationFrom level first ofFirst
      case operationFrom =>
        intro level left ofLeft
        rw [Parser.operationFrom]
        refine .next (builds_eatInfix? level) fun found => ?_
        cases found with
        | none => exact .pure ofLeft
        | some found => exact .bind (ih.operand level) fun right ofRight =>
            ih.operationFrom level _ (namesKnown_combine ofLeft ofRight)
      case operand =>
        intro level
        rw [Parser.operand]
        cases level.tighter? with
        | none => exact ih.unary
        | some tighter => exact ih.operation tighter
      case unary =>
        rw [Parser.unary]
        refine .next builds_eatPrefix? fun found => ?_
        cases found with
        | none => exact ih.call
        | some found =>
            exact .bind ih.unary fun operand ofOperand => .pure (.unary trivial ofOperand)
      case call =>
        rw [Parser.call]
        exact .bind ih.primary fun callee ofCallee => ih.callFrom callee ofCallee
      case callFrom =>
        intro callee ofCallee
        rw [Parser.callFrom]
        refine .bind (.eat? .leftParen) fun found _ => ?_
        cases found with
        | none => exact .pure ofCallee
        | some _ =>
            exact .bind ih.argumentList fun arguments ofArguments => .expect_next fun close =>
            ih.callFrom _ (.call trivial ofCallee ofArguments)
      case argumentList =>
        rw [Parser.argumentList]
        refine .next (.check .rightParen) fun closes => ?_
        cases closes with
        | true => exact .pure (by simp)
        | false => exact ih.argumentsFrom 0
      case argumentsFrom =>
        intro count
        rw [Parser.argumentsFrom]
        refine .next (.checkLimit count _) fun _ => .bind ih.expression fun first ofFirst => ?_
        refine .next (.eat .comma) fun follows => ?_
        cases follows with
        | true =>
            refine .bind (ih.argumentsFrom (count + 1)) fun rest ofRest => ?_
            exact .pure (List.forall_mem_cons.mpr ⟨ofFirst, ofRest⟩)
        | false => exact .pure (List.forall_mem_singleton.mpr ofFirst)
      case primary =>
        rw [Parser.primary]
        refine .bind .current fun token isKnown => ?_
        split
        · rename_i expr found
          exact .bind .advance fun _ _ => .pure (namesKnown_atom isKnown found)
        · refine .next (.eat .leftParen) fun opens => ?_
          cases opens with
          | true =>
              refine .bind ih.expression fun inner ofInner => .expect_next fun _ => ?_
              exact .pure (.group trivial ofInner)
          | false => exact .fail isKnown _

/-! ### The parts of statements -/

section Parts

variable (known) (steps : Nat)

theorem builds_variableDeclaration : Builds known none
    (fun stmt => stmt.Opening (KnownName known) ∧ stmt.ShapedInRow (KnownName known))
    (variableDeclaration steps) := by
  rw [variableDeclaration_eq]
  refine .bind (.expectName _) fun name isNamed => .next (.eat .equal) fun follows => ?_
  have first : Builds known none (∀ value ∈ ·, NamesKnown known value)
      (firstValue steps follows) := by
    cases follows with
    | false => exact .pure (by simp)
    | true =>
        exact .map
          (.mono (expressionsBuilt known steps).expression fun value given => by simpa using given)
  exact .bind first fun value ofValue => .expect_next fun _ =>
    .pure ⟨.define isNamed ofValue, .define isNamed ofValue⟩

theorem builds_printStatement :
    Builds known none (Stmt.Shaped (KnownName known) none) (printStatement steps) :=
  .bind (expressionsBuilt known steps).expression fun _ given =>
    .expect_next fun _ => .pure (.print given)

theorem builds_expressionStatement : Builds known none
    (fun stmt => stmt.Opening (KnownName known) ∧ stmt.Shaped (KnownName known) none)
    (expressionStatement steps) :=
  .bind (expressionsBuilt known steps).expression fun _ given => .expect_next fun _ =>
    .pure ⟨.expression given, .expression given⟩

theorem builds_returnStatement {keyword : Token} (isKnown : known keyword) :
    Builds known none (Stmt.Shaped (KnownName known) none) (returnStatement steps keyword) := by
  rw [returnStatement_eq]
  exact .next .scope fun around => .next (.demand _ isKnown _) fun _ =>
    .bind (expressionsBuilt known steps).expression fun _ given => .expect_next fun _ =>
      .pure (.returning given)

theorem builds_optionalLabel : Builds known none
    (fun label => (∀ token ∈ label, known token) ∧ ∀ name ∈ label.map nameOf, KnownName known name)
    optionalLabel := by
  refine .mono (.eat? .identifier) fun label found => ⟨fun token here => (found token here).1, ?_⟩
  intro name here
  obtain ⟨token, isLabel, rfl⟩ := Option.map_eq_some_iff.mp here
  exact ⟨token, (found token isLabel).1, (found token isLabel).2, rfl⟩

theorem builds_breakStatement {keyword : Token} (isKnown : known keyword) :
    Builds known none (Stmt.Shaped (KnownName known) none) (breakStatement keyword) := by
  rw [breakStatement_eq]
  refine .bind (builds_optionalLabel known) fun label ⟨ofLabel, named⟩ => .expect_next fun _ => ?_
  refine .next .scope fun around => ?_
  cases label with
  | none => exact .next (.demand _ isKnown _) fun _ => .pure (.breakOut named)
  | some token => exact .next (.demand _ (ofLabel token rfl) _) fun _ => .pure (.breakOut named)

theorem builds_continueStatement {keyword : Token} (isKnown : known keyword) :
    Builds known none (Stmt.Shaped (KnownName known) none) (continueStatement keyword) := by
  rw [continueStatement_eq]
  refine .bind (builds_optionalLabel known) fun label ⟨ofLabel, named⟩ => .expect_next fun _ => ?_
  refine .next .scope fun around => ?_
  cases label with
  | none => exact .next (.demand _ isKnown _) fun _ => .pure (.continueOn named)
  | some token => exact .next (.demand _ (ofLabel token rfl) _) fun _ => .pure (.continueOn named)

theorem builds_parametersFrom (count : Nat) :
    Builds known none (∀ parameter ∈ ·, KnownName known parameter)
      (parametersFrom steps count) := by
  induction steps generalizing count with
  | zero => exact .exhausted
  | succ steps ih =>
      rw [parametersFrom]
      refine .next (.checkLimit count _) fun _ => .bind (.expectName _) fun first ofFirst => ?_
      refine .next (.eat .comma) fun follows => ?_
      cases follows with
      | false => exact .pure (List.forall_mem_singleton.mpr ofFirst)
      | true =>
          refine .bind (ih (count + 1)) fun rest ofRest => ?_
          exact .pure (List.forall_mem_cons.mpr ⟨ofFirst, ofRest⟩)

theorem builds_parameterList :
    Builds known none (∀ parameter ∈ ·, KnownName known parameter) (parameterList steps) := by
  refine .next (.check .rightParen) fun closes => ?_
  cases closes with
  | true => exact .pure (by simp)
  | false => exact builds_parametersFrom known steps 0

theorem builds_optionalClause (close : TokenKind) :
    Builds known none (∀ value ∈ ·, NamesKnown known value) (optionalClause steps close) := by
  refine .next (.check close) fun closes => ?_
  cases closes with
  | true => exact .pure (by simp)
  | false =>
      exact .bind (expressionsBuilt known steps).expression fun _ given =>
        .pure (by simpa using given)

theorem builds_firstClause :
    Builds known none (∀ stmt ∈ ·, stmt.Opening (KnownName known)) (firstClause steps) := by
  refine .next (.eat .semicolon) fun absent => ?_
  cases absent with
  | true => exact .pure (by simp)
  | false =>
      refine .next (.eat .kwVar) fun declares => ?_
      cases declares with
      | true =>
          exact .bind (builds_variableDeclaration known steps) fun _ given =>
            .pure (by simpa using given.1)
      | false =>
          exact .bind (builds_expressionStatement known steps) fun _ given =>
            .pure (by simpa using given.1)

end Parts

/-! ### Statements -/

/-- What the parsers of statements build. Behind a label a loop finds the label waiting for it, and
what else may stand there has the same shape as without a label. -/
structure StatementsBuilt (known : Token → Prop) (steps : Nat) : Prop where
  declaration : Builds known none (∀ stmt ∈ ·, stmt.ShapedInRow (KnownName known))
    (declaration steps)
  declared : Builds known none (Stmt.ShapedInRow (KnownName known)) (declared steps)
  functionDeclaration :
    Builds known none (Stmt.ShapedInRow (KnownName known)) (functionDeclaration steps)
  statement : Builds known none (Stmt.Shaped (KnownName known) none) (statement steps)
  labelled : ∀ label (state : State), takesLabel state.cursor.current.kind →
    state.Knows known (if startsLoop state.cursor.current.kind then some label else none) →
    BuildsFrom known (Stmt.Shaped (KnownName known) (some label)) state (Parser.statement steps)
  block : Builds known none (∀ stmt ∈ ·, stmt.ShapedInRow (KnownName known)) (block steps)
  declarations : Builds known none (∀ stmt ∈ ·, stmt.ShapedInRow (KnownName known))
    (declarations steps)
  ifStatement : ∀ label, Builds known none (Stmt.Shaped (KnownName known) label) (ifStatement steps)
  whileStatement : ∀ label,
    Builds known label (Stmt.Shaped (KnownName known) label) (whileStatement steps)
  forStatement : ∀ label,
    Builds known label (Stmt.Shaped (KnownName known) label) (forStatement steps)
  labelledStatement :
    Builds known none (Stmt.Shaped (KnownName known) none) (labelledStatement steps)

/-- The statement that a token begins, behind a label if the token may stand behind one. -/
theorem builds_statementAfter {steps : Nat} (ih : StatementsBuilt known steps) {token : Token}
    (isKnown : known token) {label waiting : Option Name}
    (allowed : label = none ∨ takesLabel token.kind)
    (waits : waiting = if startsLoop token.kind then label else none) :
    Builds known waiting (Stmt.Shaped (KnownName known) label) (statementAfter steps token) := by
  have unlabelled (apart : takesLabel token.kind = false) : label = none :=
    allowed.resolve_right (by simp [apart])
  have clear (apart : startsLoop token.kind = false) : waiting = none := by simp [waits, apart]
  have taken (loops : startsLoop token.kind = true) : waiting = label := by simp [waits, loops]
  unfold statementAfter
  split
  case h_1 kind =>
    rw [kind] at unlabelled clear
    obtain ⟨rfl, rfl⟩ := And.intro (unlabelled rfl) (clear rfl)
    exact builds_printStatement known steps
  case h_2 kind =>
    rw [kind] at clear
    obtain rfl := clear rfl
    exact .bind ih.block fun _ given => .pure (.block given)
  case h_3 kind =>
    rw [kind] at clear
    obtain rfl := clear rfl
    exact ih.ifStatement label
  case h_4 kind =>
    rw [kind] at taken
    obtain rfl := taken rfl
    exact ih.whileStatement _
  case h_5 kind =>
    rw [kind] at taken
    obtain rfl := taken rfl
    exact ih.forStatement _
  case h_6 kind =>
    rw [kind] at unlabelled clear
    obtain ⟨rfl, rfl⟩ := And.intro (unlabelled rfl) (clear rfl)
    exact builds_breakStatement known isKnown
  case h_7 kind =>
    rw [kind] at unlabelled clear
    obtain ⟨rfl, rfl⟩ := And.intro (unlabelled rfl) (clear rfl)
    exact builds_continueStatement known isKnown
  case h_8 kind =>
    rw [kind] at unlabelled clear
    obtain ⟨rfl, rfl⟩ := And.intro (unlabelled rfl) (clear rfl)
    exact builds_returnStatement known steps isKnown
  case h_9 print brace branch repeats counts breaks resumes returns =>
    have apart : takesLabel token.kind = false ∧ startsLoop token.kind = false := by
      simp only [takesLabel, startsLoop, Bool.or_eq_false_iff, beq_eq_false_iff_ne]
      exact ⟨⟨⟨⟨counts, repeats⟩, branch⟩, brace⟩, counts, repeats⟩
    obtain ⟨rfl, rfl⟩ := And.intro (unlabelled apart.1) (clear apart.2)
    exact ih.labelledStatement

theorem statementKinds_takesLabel {kind : TokenKind} (takes : takesLabel kind) :
    statementKinds.contains kind := by
  revert takes
  cases kind <;> decide

theorem statementsBuilt (known : Token → Prop) : ∀ steps, StatementsBuilt known steps
  | 0 => by
      constructor <;> intros <;> first | exact .exhausted | trivial
  | steps + 1 => by
      have ih := statementsBuilt known steps
      have expressions := (expressionsBuilt known steps).expression
      constructor
      case declaration =>
        rw [Parser.declaration]
        exact .recovering ih.declared
      case declared =>
        rw [Parser.declared]
        refine .next (.eat .kwVar) fun declares => ?_
        cases declares with
        | true => exact .mono (builds_variableDeclaration known steps) fun _ given => given.2
        | false =>
            refine .next (.eat .kwFun) fun defines => ?_
            cases defines with
            | true => exact ih.functionDeclaration
            | false => exact .mono ih.statement fun _ given => .statement given
      case functionDeclaration =>
        rw [Parser.functionDeclaration]
        refine .bind (.expectName _) fun name isNamed => .expect_next fun _ => ?_
        refine .bind (builds_parameterList known steps) fun parameters named => ?_
        refine .expect_next fun _ => .expect_next fun _ => ?_
        exact .bind (.withFunctionBody ih.block) fun body given =>
          .pure (.function isNamed named given)
      case statement =>
        intro state knows
        unfold BuildsFrom
        rw [statement_apply]
        split
        · exact builds_statementAfter ih knows.current (.inl rfl) (by simp) _ knows.advance
        · exact Builds.mono (builds_expressionStatement known steps)
            (fun _ given => given.2) state knows
      case labelled =>
        intro label state takes knows
        unfold BuildsFrom
        rw [statement_apply, if_pos (statementKinds_takesLabel takes)]
        exact builds_statementAfter ih knows.current (.inr takes) rfl _ knows.advance
      case block =>
        rw [Parser.block]
        exact .bind ih.declarations fun body given => .expect_next fun _ => .pure given
      case declarations =>
        rw [Parser.declarations]
        refine .next (.check .rightBrace) fun closes => .next .atEnd fun ends => ?_
        split
        · exact .pure (by simp)
        · refine .bind ih.declaration fun first ofFirst =>
            .bind ih.declarations fun rest ofRest => ?_
          exact .pure (List.forall_mem_append.mpr ⟨by simpa using ofFirst, ofRest⟩)
      case ifStatement =>
        intro label
        rw [Parser.ifStatement]
        refine .expect_next fun _ =>
          .bind expressions fun condition ofCondition => .expect_next fun _ => ?_
        refine .bind ih.statement fun thenBranch ofThen => .next (.eat .kwElse) fun goesOn => ?_
        cases goesOn with
        | true =>
            refine .bind ih.statement fun elseBranch ofElse => ?_
            exact .pure (.conditional ofCondition ofThen (by simpa using ofElse))
        | false => exact .pure (.conditional ofCondition ofThen (by simp))
      case whileStatement =>
        intro label
        rw [Parser.whileStatement]
        refine .takePendingLoop
          (.expect_next fun _ => .bind expressions fun condition ofCondition => ?_)
        refine .expect_next fun _ => .bind (.withLoop ih.statement) fun body ofBody => ?_
        exact .pure (.whileLoop ofCondition ofBody)
      case forStatement =>
        intro label
        rw [Parser.forStatement]
        refine .takePendingLoop
          (.expect_next fun _ => .bind (builds_firstClause known steps) fun first ofFirst => ?_)
        refine .bind (builds_optionalClause known steps _) fun condition ofCondition =>
          .expect_next fun _ => ?_
        refine .bind (builds_optionalClause known steps _) fun last ofLast =>
          .expect_next fun _ => ?_
        refine .bind (.withLoop ih.statement) fun body ofBody =>
          .pure (.forLoop ofFirst ?_ ofLast ofBody)
        cases condition with
        | none => exact .literal trivial
        | some condition => exact ofCondition condition rfl
      case labelledStatement =>
        rw [Parser.labelledStatement]
        refine .bind (.expectName _) fun label isNamed state knows => ?_
        change BuildsFrom known _ state (if takesLabel state.cursor.current.kind then _ else _)
        split
        · rename_i takes
          have target : BuildsFrom known (Stmt.Shaped (KnownName known) (some label)) state
              (withLabel label (startsLoop state.cursor.current.kind)
                (Parser.statement steps)) := by
            rw [withLabel_eq]
            refine .within (fun _ clear => clear) (ih.labelled label _ takes (knows.withScope ?_))
            simp [knows.waits]
          exact target.bind fun body ofBody => .pure (.labelled isNamed ofBody)
        · exact Builds.fail knows.current _ state knows

/-! ### Programs -/

theorem builds_program (known : Token → Prop) (steps : Nat) :
    Builds known none (∀ stmt ∈ ·, stmt.ShapedInRow (KnownName known)) (program steps) := by
  induction steps with
  | zero => exact .exhausted
  | succ steps ih =>
      rw [program]
      refine .next .atEnd fun ends => ?_
      split
      · exact .pure (by simp)
      · refine .bind (statementsBuilt known steps).declaration fun first ofFirst =>
          .bind ih fun rest ofRest => ?_
        exact .pure (List.forall_mem_append.mpr ⟨by simpa using ofFirst, ofRest⟩)

section Programs

variable {tokens : List Token} (ended : ∃ token ∈ tokens, token.kind = .endOfInput)
include ended

theorem start_knows : (State.start tokens).Knows (· ∈ tokens) none := by
  refine ⟨?_, by simp [State.start], rfl⟩
  cases tokens with
  | nil =>
      obtain ⟨token, member, -⟩ := ended
      cases member
  | cons first rest => exact fun token member => member

/-- What is made of any row of tokens is shaped, and its faults are about tokens of the row. -/
theorem parseProgram_shaped :
    (∀ stmt ∈ (parseProgram tokens).statements, stmt.ShapedInRow (KnownName (· ∈ tokens))) ∧
      ∀ error ∈ (parseProgram tokens).errors, error.token ∈ tokens := by
  obtain ⟨stmts, after, run, parsed⟩ := program_parsed ended
  have built := builds_program (· ∈ tokens) (stepBound tokens) _ (start_knows ended)
  rw [BuildsFrom, run] at built
  rw [parsed]
  refine ⟨built.1, fun error member => built.2.faults error ?_⟩
  exact (List.mem_filter.mp (List.mem_reverse.mp member)).1

theorem bare_shaped {expr : Expr} (bare : BareExpression tokens expr) :
    NamesKnown (· ∈ tokens) expr := by
  obtain ⟨steps, after, run, -⟩ := bare
  have built := (expressionsBuilt (· ∈ tokens) steps).expression _ (start_knows ended)
  rw [BuildsFrom, run] at built
  exact built.1

/-- The same for both ways of parsing. -/
theorem parse_shaped (expressionOnly : Bool) :
    (∀ stmt ∈ (parse tokens expressionOnly).statements, stmt.ShapedInRow (KnownName (· ∈ tokens))) ∧
      ∀ error ∈ (parse tokens expressionOnly).errors, error.token ∈ tokens := by
  cases expressionOnly with
  | false => exact parseProgram_shaped ended
  | true =>
      by_cases bare : ∃ expr, BareExpression tokens expr
      · obtain ⟨expr, bare⟩ := bare
        rw [parse_bare ended bare]
        exact ⟨List.forall_mem_singleton.mpr
          (.statement (.print (bare_shaped ended bare))), by simp⟩
      · rw [parse_not_bare ended fun expr given => bare ⟨expr, given⟩]
        exact parseProgram_shaped ended

end Programs

theorem few_of_written {marks : List Mark} {stmt : Stmt} (written : stmt.Written marks) :
    stmt.All Expr.FewArguments Stmt.FewParameters := by
  refine written.mono (fun expr within => ?_) fun stmt within => ?_
  · cases expr with
    | call callee arguments closeLine =>
        rcases within with ⟨levelled, -⟩ | absent
        · exact levelled.2.1
        · cases absent
    | _ => trivial
  · cases stmt with
    | function name parameters body => exact within
    | _ => trivial

end Parser

/-- **The trees that the parser builds are shaped**, with or without faults in the text and in
either way of parsing: loops and continue points, labels and declarations stand only where the
grammar of trees has them, a continue point has the label that its loop is behind, and every name is
an identifier of the text. If no fault is found, no call and no function exceeds the limit on
arguments and parameters. -/
theorem statements_shaped (source : String) (expressionOnly : Bool) :
    (∀ stmt ∈ (parse (scan source).tokens expressionOnly).statements,
      stmt.ShapedInRow (Parser.KnownName (· ∈ (scan source).tokens))) ∧
    ((parse (scan source).tokens expressionOnly).errorCount = 0 →
      ∀ stmt ∈ (parse (scan source).tokens expressionOnly).statements,
        stmt.All Expr.FewArguments Stmt.FewParameters) := by
  refine ⟨(Parser.parse_shaped (scan_ended source) expressionOnly).1, fun clean stmt member => ?_⟩
  obtain ⟨tokens, line, found, scanned⟩ := scan_tokens source
  rw [found] at clean member
  obtain ⟨marks, -, written⟩ := (Parser.accepts_of_parse scanned clean).written
  exact Parser.few_of_written (written stmt member)

end Lox
