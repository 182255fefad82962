import Lox.Proofs.Parser.Progress
import Lox.Proofs.Syntax.Alike

/-!
Parsing tokens that are the same but for their lines, with or without reporting.

The grammar looks at the lines of tokens only to put them into trees and faults, and whether faults
are reported changes nothing but the mark that they bear. So two runs over tokens that are alike go
the same way (`program_alike`): they pass the same number of tokens, find the same faults, and give
trees that are alike. What differs between the two sides is put into a `Comparison`.

As for contracts, `Alike.bind` and its relatives compare a parser with another from comparisons of
their parts. All three uses of this are of one induction: that every fault of a run bears the mark
of the run, that a run that keeps its faults back finds the same as one that does not, and that code
means the same wherever in a text it stands.
-/

namespace Lox

/-- Two tokens that are the same but for related lines. -/
structure Token.Alike (lines : Nat → Nat → Prop) (token other : Token) : Prop where
  kind : token.kind = other.kind
  lexeme : token.lexeme = other.lexeme
  literal : token.literal = other.literal
  line : lines token.line other.line

theorem Token.allAlike_refl {lines : Nat → Nat → Prop} (refl : ∀ line, lines line line)
    (tokens : List Token) : List.Forall₂ (Token.Alike lines) tokens tokens :=
  List.forall₂_same.mpr fun _ _ => ⟨rfl, rfl, rfl, refl _⟩

/-- Two cursors with as many tokens before and behind them, which are alike. -/
structure Cursor.Alike (lines : Nat → Nat → Prop) (cursor other : Cursor) : Prop where
  passed : List.Forall₂ (Token.Alike lines) cursor.passed other.passed
  current : cursor.current.Alike lines other.current
  ahead : List.Forall₂ (Token.Alike lines) cursor.ahead other.ahead

namespace Cursor

variable {lines : Nat → Nat → Prop} {cursor other : Cursor}

theorem alike_ofTokens {tokens others : List Token} (holds : tokens ≠ [])
    (alike : List.Forall₂ (Token.Alike lines) tokens others) :
    (ofTokens tokens).Alike lines (ofTokens others) := by
  cases alike with
  | nil => exact absurd rfl holds
  | cons first rest => exact ⟨.nil, first, rest⟩

theorem Alike.check (alike : cursor.Alike lines other) (kind : TokenKind) :
    cursor.check kind = other.check kind := by
  rw [Cursor.check, Cursor.check, alike.current.kind]

theorem Alike.atEnd (alike : cursor.Alike lines other) : cursor.atEnd = other.atEnd :=
  alike.check .endOfInput

theorem Alike.advance (alike : cursor.Alike lines other) :
    cursor.advance.Alike lines other.advance := by
  rw [Cursor.advance, Cursor.advance, alike.atEnd]
  split
  · exact alike
  · obtain ⟨passed, current, ahead⟩ := cursor
    obtain ⟨passed', current', ahead'⟩ := other
    obtain ⟨behind, here, before⟩ := alike
    cases before with
    | nil => exact ⟨behind, here, .nil⟩
    | cons next rest => exact ⟨.cons here behind, next, rest⟩

theorem passedSemicolon_alike {passed others : List Token}
    (alike : List.Forall₂ (Token.Alike lines) passed others) :
    passedSemicolon passed = passedSemicolon others := by
  cases alike with
  | nil => rfl
  | cons first rest => rw [passedSemicolon, passedSemicolon, first.kind]

theorem toBoundary_alike {passed passed' ahead ahead' : List Token} {current current' : Token}
    (behind : List.Forall₂ (Token.Alike lines) passed passed') (here : current.Alike lines current')
    (before : List.Forall₂ (Token.Alike lines) ahead ahead') :
    (toBoundary passed current ahead).Alike lines (toBoundary passed' current' ahead') := by
  induction before generalizing passed passed' current current' with
  | nil => exact ⟨behind, here, .nil⟩
  | cons next rest ih =>
      rw [toBoundary, toBoundary, here.kind, passedSemicolon_alike behind]
      split
      · exact ⟨behind, here, .cons next rest⟩
      · exact ih (.cons here behind) next

theorem Alike.synchronize (alike : cursor.Alike lines other) :
    cursor.synchronize.Alike lines other.synchronize := by
  rw [Cursor.synchronize, Cursor.synchronize, alike.atEnd]
  split
  · exact alike
  · have moved := alike.advance
    exact toBoundary_alike moved.passed moved.current moved.ahead

end Cursor

/-- How two runs of a parser may differ: in how the lines of their tokens are related, and in
whether faults are reported. -/
structure Comparison where
  lines : Nat → Nat → Prop
  reporting : Bool
  reporting' : Bool

namespace Comparison

variable (comparison : Comparison)

/-- Two scopes that are alike, with the reporting of the two sides. -/
structure Scopes (scope other : Scope) : Prop where
  context : scope.context = other.context
  labels : scope.labels = other.labels
  pendingLoop : Option.Rel (Name.Alike comparison.lines) scope.pendingLoop other.pendingLoop
  reporting : scope.reporting = comparison.reporting
  reporting' : other.reporting = comparison.reporting'

/-- Two faults of one sort at tokens that are alike, with the marks of the two sides. -/
structure Errors (error other : GrammarError) : Prop where
  token : error.token.Alike comparison.lines other.token
  fault : error.fault = other.fault
  reported : error.reported = comparison.reporting
  reported' : other.reported = comparison.reporting'

/-- Two states of the two sides that are alike. -/
structure States (state other : Parser.State) : Prop where
  cursor : state.cursor.Alike comparison.lines other.cursor
  scope : comparison.Scopes state.scope other.scope
  errors : List.Forall₂ comparison.Errors state.errors other.errors

/-- Two results that are alike, their values being related. -/
inductive Results {α β : Type} (same : α → β → Prop) :
    Parser.Result α → Parser.Result β → Prop where
  | parsed {value other state state'} (values : same value other)
      (states : comparison.States state state') :
      Results same (.parsed value state) (.parsed other state')
  | failed {state state'} (states : comparison.States state state') :
      Results same (.failed state) (.failed state')
  | exhausted : Results same .exhausted .exhausted

namespace Results

variable {comparison : Comparison} {α β : Type} {same : α → β → Prop} {value : α}
  {state : Parser.State} {result : Parser.Result β}

theorem of_parsed (results : comparison.Results same (.parsed value state) result) :
    ∃ other state', result = .parsed other state' ∧ same value other ∧
      comparison.States state state' := by
  cases results with
  | parsed values states => exact ⟨_, _, rfl, values, states⟩

theorem of_failed (results : comparison.Results same (.failed state) result) :
    ∃ state', result = .failed state' ∧ comparison.States state state' := by
  cases results with
  | failed states => exact ⟨_, rfl, states⟩

end Results

end Comparison

namespace Parser

/-- From states that are alike two parsers come to results that are alike. -/
def Alike {α β : Type} (comparison : Comparison) (same : α → β → Prop) (parser : Parser α)
    (other : Parser β) : Prop :=
  ∀ before before', comparison.States before before' →
    comparison.Results same (parser before) (other before')

namespace Alike

variable {α β γ δ : Type} {comparison : Comparison} {same : α → β → Prop} {sameNext : γ → δ → Prop}
  {parser : Parser α} {other : Parser β}

theorem exhausted : Alike comparison same (exhausted : Parser α) (exhausted : Parser β) :=
  fun _ _ _ => .exhausted

theorem pure {value : α} {result : β} (values : same value result) :
    Alike comparison same (pure value) (pure result) :=
  fun _ _ states => .parsed values states

theorem bind {next : α → Parser γ} {next' : β → Parser δ}
    (first : Alike comparison same parser other)
    (rest : ∀ value result, same value result →
      Alike comparison sameNext (next value) (next' result)) :
    Alike comparison sameNext (parser >>= next) (other >>= next') := by
  intro before before' states
  have results := first before before' states
  rw [bind_apply, bind_apply, andThen, andThen]
  revert results
  generalize parser before = result
  generalize other before' = result'
  intro results
  cases results with
  | parsed values states => exact rest _ _ values _ _ states
  | failed states => exact .failed states
  | exhausted => exact .exhausted

/-- After parsers with equal results the same goes on on both sides. -/
theorem bindEq {parser other : Parser α} {next : α → Parser γ} {next' : α → Parser δ}
    (first : Alike comparison Eq parser other)
    (rest : ∀ value, Alike comparison sameNext (next value) (next' value)) :
    Alike comparison sameNext (parser >>= next) (other >>= next') :=
  bind first fun value _ equal => equal ▸ rest value

/-- After parsers of an optional part: without the part on both sides, and with it on both. -/
theorem bindOption {parser : Parser (Option α)} {other : Parser (Option β)}
    {next : Option α → Parser γ} {next' : Option β → Parser δ}
    (first : Alike comparison (Option.Rel same) parser other)
    (without : Alike comparison sameNext (next none) (next' none))
    (behind : ∀ value result, same value result →
      Alike comparison sameNext (next (some value)) (next' (some result))) :
    Alike comparison sameNext (parser >>= next) (other >>= next') :=
  bind first fun _ _ values =>
    match values with
    | .none => without
    | .some holds => behind _ _ holds

theorem map {change : α → γ} {change' : β → δ} (first : Alike comparison same parser other)
    (holds : ∀ value result, same value result → sameNext (change value) (change' result)) :
    Alike comparison sameNext (change <$> parser) (change' <$> other) := by
  rw [map_eq_pure_bind, map_eq_pure_bind]
  exact bind first fun value result values => pure (holds value result values)

theorem ite {condition : Prop} [Decidable condition] {whenFalse : Parser α} {whenFalse' : Parser β}
    (yes : Alike comparison same parser other) (no : Alike comparison same whenFalse whenFalse') :
    Alike comparison same (if condition then parser else whenFalse)
      (if condition then other else whenFalse') := by
  split
  · exact yes
  · exact no

/-! ### The parts of the grammar -/

theorem current : Alike comparison (Token.Alike comparison.lines) current current :=
  fun _ _ states => .parsed states.cursor.current states

theorem check (kind : TokenKind) : Alike comparison Eq (check kind) (check kind) :=
  fun _ _ states => .parsed (states.cursor.check kind) states

theorem atEnd : Alike comparison Eq atEnd atEnd :=
  fun _ _ states => .parsed states.cursor.atEnd states

theorem advance : Alike comparison (Token.Alike comparison.lines) advance advance :=
  fun _ _ states => .parsed states.cursor.current
    ⟨states.cursor.advance, states.scope, states.errors⟩

theorem eat? (kind : TokenKind) :
    Alike comparison (Option.Rel (Token.Alike comparison.lines)) (eat? kind) (eat? kind) := by
  intro before before' states
  rw [Parser.eat?, Parser.eat?, states.cursor.check kind]
  split
  · exact .parsed (.some states.cursor.current) ⟨states.cursor.advance, states.scope, states.errors⟩
  · exact .parsed .none states

theorem eat (kind : TokenKind) : Alike comparison Eq (eat kind) (eat kind) :=
  bindOption (eat? kind) (pure rfl) fun _ _ _ => pure rfl

theorem scope : Alike comparison comparison.Scopes scope scope :=
  fun _ _ states => .parsed states.scope states

section Faults

variable {token other : Token} (fault : GrammarFault) (here : token.Alike comparison.lines other)
include here

theorem states_report {before before' : State} (states : comparison.States before before') :
    comparison.States
      { before with errors := ⟨token, fault, before.scope.reporting⟩ :: before.errors }
      { before' with errors := ⟨other, fault, before'.scope.reporting⟩ :: before'.errors } :=
  ⟨states.cursor, states.scope,
    .cons ⟨here, rfl, states.scope.reporting, states.scope.reporting'⟩ states.errors⟩

theorem report : Alike comparison Eq (report token fault) (report other fault) :=
  fun _ _ states => .parsed rfl (states_report fault here states)

theorem fail : Alike comparison same (fail token fault) (fail other fault) :=
  fun _ _ states => .failed (states_report fault here states)

theorem demand (kept : Bool) :
    Alike comparison Eq (demand kept token fault) (demand kept other fault) :=
  ite (pure rfl) (report fault here)

end Faults

theorem expect (kind : TokenKind) (part : Missing) :
    Alike comparison (Token.Alike comparison.lines) (expect kind part) (expect kind part) := by
  rw [expect_eq]
  exact bindOption (eat? kind) (bind current fun _ _ here => fail _ here) fun _ _ here => pure here

theorem expectName (part : Missing) :
    Alike comparison (Name.Alike comparison.lines) (expectName part) (expectName part) :=
  bind (expect .identifier part) fun _ _ here => pure ⟨here.lexeme, here.line⟩

theorem checkLimit (count : Nat) (fault : GrammarFault) :
    Alike comparison Eq (checkLimit count fault) (checkLimit count fault) :=
  ite (bind current fun _ _ here => report fault here) (pure rfl)

/-! ### The parts that change the scope -/

theorem within {enter : Scope → Scope} {leave : Scope → Scope → Scope} {enter' : Scope → Scope}
    {leave' : Scope → Scope → Scope}
    (enters : ∀ scope scope', comparison.Scopes scope scope' →
      comparison.Scopes (enter scope) (enter' scope'))
    (leaves : ∀ around around' scope scope',
      comparison.Scopes around around' → comparison.Scopes scope scope' →
        comparison.Scopes (leave around scope) (leave' around' scope'))
    (inside : Alike comparison same parser other) :
    Alike comparison same (within enter leave parser) (within enter' leave' other) := by
  intro before before' states
  have results := inside { before with scope := enter before.scope }
    { before' with scope := enter' before'.scope }
    ⟨states.cursor, enters _ _ states.scope, states.errors⟩
  unfold Parser.within
  revert results
  generalize parser { before with scope := enter before.scope } = result
  generalize other { before' with scope := enter' before'.scope } = result'
  intro results
  cases results with
  | parsed values after =>
      exact .parsed values ⟨after.cursor, leaves _ _ _ _ states.scope after.scope, after.errors⟩
  | failed after =>
      exact .failed ⟨after.cursor, leaves _ _ _ _ states.scope after.scope, after.errors⟩
  | exhausted => exact .exhausted

theorem withLoop (inside : Alike comparison same parser other) :
    Alike comparison same (withLoop parser) (withLoop other) := by
  rw [withLoop_eq, withLoop_eq]
  refine within ?_ ?_ inside
  · intro scope scope' scopes
    exact { scopes with context := by rw [scopes.context] }
  · intro around around' scope scope' arounds scopes
    exact { scopes with context := arounds.context }

theorem withFunctionBody (inside : Alike comparison same parser other) :
    Alike comparison same (withFunctionBody parser) (withFunctionBody other) := by
  rw [withFunctionBody_eq, withFunctionBody_eq]
  refine within ?_ (fun _ _ _ _ arounds _ => arounds) inside
  intro scope scope' scopes
  exact ⟨rfl, rfl, .none, scopes.reporting, scopes.reporting'⟩

theorem withLabel {label label' : Name} (isLoop : Bool)
    (labels : label.Alike comparison.lines label') (inside : Alike comparison same parser other) :
    Alike comparison same (withLabel label isLoop parser) (withLabel label' isLoop other) := by
  rw [withLabel_eq, withLabel_eq]
  refine within ?_ ?_ inside
  · intro scope scope' scopes
    refine { scopes with labels := by rw [scopes.labels, labels.text], pendingLoop := ?_ }
    cases isLoop with
    | true => exact .some labels
    | false => exact scopes.pendingLoop
  · intro around around' scope scope' arounds scopes
    exact { scopes with labels := by rw [scopes.labels] }

theorem takePendingLoop :
    Alike comparison (Option.Rel (Name.Alike comparison.lines)) takePendingLoop takePendingLoop :=
  fun _ _ states => .parsed states.scope.pendingLoop
    ⟨states.cursor, { states.scope with pendingLoop := .none }, states.errors⟩

theorem recovering (inside : Alike comparison same parser other) :
    Alike comparison (Option.Rel same) (recovering parser) (recovering other) := by
  intro before before' states
  have results := inside before before' states
  unfold Parser.recovering
  revert results
  generalize parser before = result
  generalize other before' = result'
  intro results
  cases results with
  | parsed values after => exact .parsed (.some values) after
  | failed after => exact .parsed .none ⟨after.cursor.synchronize, after.scope, after.errors⟩
  | exhausted => exact .exhausted

end Alike

/-! ### Expressions -/

section Expressions

variable {comparison : Comparison}

theorem alike_eatInfix? (level : Level) :
    Alike comparison (Option.Rel fun (found other : InfixOp × Nat) =>
      found.1 = other.1 ∧ comparison.lines found.2 other.2) (eatInfix? level)
        (eatInfix? level) := by
  refine .bind .current fun token other here => ?_
  rw [here.kind]
  cases level.operator? other.kind with
  | none => exact .pure .none
  | some op => exact .bind .advance fun _ _ _ => .pure (.some ⟨rfl, here.line⟩)

theorem alike_eatPrefix? :
    Alike comparison (Option.Rel fun (found other : UnaryOp × Nat) =>
      found.1 = other.1 ∧ comparison.lines found.2 other.2) eatPrefix? eatPrefix? := by
  refine .bind .current fun token other here => ?_
  rw [here.kind]
  cases prefixOp? other.kind with
  | none => exact .pure .none
  | some op => exact .bind .advance fun _ _ _ => .pure (.some ⟨rfl, here.line⟩)

theorem atom?_alike {token other : Token} (here : token.Alike comparison.lines other) :
    Option.Rel (Expr.Alike comparison.lines) (atom? token) (atom? other) := by
  unfold atom?
  rw [here.kind, here.literal]
  split
  case h_6 => exact .some (.variable ⟨here.lexeme, here.line⟩)
  case h_7 => exact .none
  all_goals exact .some (.literal _)

theorem combine_alike (op : InfixOp) {line other : Nat} {left left' right right' : Expr}
    (at_ : comparison.lines line other) (lefts : left.Alike comparison.lines left')
    (rights : right.Alike comparison.lines right') :
    (op.combine line left right).Alike comparison.lines (op.combine other left' right') := by
  cases op with
  | logical op => exact .logical op lefts rights
  | binary op => exact .binary op at_ lefts rights

/-- The parsers of expressions, each compared with itself. -/
structure ExpressionsAlike (comparison : Comparison) (steps : Nat) : Prop where
  expression : Alike comparison (Expr.Alike comparison.lines) (expression steps) (expression steps)
  operation : ∀ level,
    Alike comparison (Expr.Alike comparison.lines) (operation steps level) (operation steps level)
  operationFrom : ∀ level left left', left.Alike comparison.lines left' →
    Alike comparison (Expr.Alike comparison.lines) (operationFrom steps level left)
      (operationFrom steps level left')
  operand : ∀ level,
    Alike comparison (Expr.Alike comparison.lines) (operand steps level) (operand steps level)
  unary : Alike comparison (Expr.Alike comparison.lines) (unary steps) (unary steps)
  call : Alike comparison (Expr.Alike comparison.lines) (call steps) (call steps)
  callFrom : ∀ callee callee', callee.Alike comparison.lines callee' →
    Alike comparison (Expr.Alike comparison.lines) (callFrom steps callee) (callFrom steps callee')
  argumentList : Alike comparison (List.Forall₂ (Expr.Alike comparison.lines)) (argumentList steps)
    (argumentList steps)
  argumentsFrom : ∀ count, Alike comparison (List.Forall₂ (Expr.Alike comparison.lines))
    (argumentsFrom steps count) (argumentsFrom steps count)
  primary : Alike comparison (Expr.Alike comparison.lines) (primary steps) (primary steps)

theorem expressionsAlike (comparison : Comparison) : ∀ steps, ExpressionsAlike comparison steps
  | 0 => by constructor <;> intros <;> exact .exhausted
  | steps + 1 => by
      have ih := expressionsAlike comparison steps
      constructor
      case expression =>
        rw [Parser.expression]
        refine .bind (ih.operation .or) fun target target' targets => .bindOption (.eat? _)
          (.pure targets) fun equals equals' here =>
            .bind ih.expression fun value value' values => ?_
        cases targets
        case «variable» names => exact .pure (.assign names values)
        all_goals
          refine .bind (.report .assignmentTarget here) fun _ _ _ => .pure ?_
          constructor <;> assumption
      case operation =>
        intro level
        rw [Parser.operation]
        exact .bind (ih.operand level) fun _ _ firsts => ih.operationFrom level _ _ firsts
      case operationFrom =>
        intro level left left' lefts
        rw [Parser.operationFrom, Parser.operationFrom]
        refine .bindOption (alike_eatInfix? level) (.pure lefts) ?_
        rintro ⟨op, line⟩ ⟨_, line'⟩ ⟨rfl, at_⟩
        exact .bind (ih.operand level) fun _ _ rights =>
          ih.operationFrom level _ _ (combine_alike op at_ lefts rights)
      case operand =>
        intro level
        rw [Parser.operand]
        cases level.tighter? with
        | none => exact ih.unary
        | some tighter => exact ih.operation tighter
      case unary =>
        rw [Parser.unary]
        refine .bindOption alike_eatPrefix? ih.call ?_
        rintro ⟨op, line⟩ ⟨_, line'⟩ ⟨rfl, at_⟩
        exact .bind ih.unary fun _ _ operands => .pure (.unary op at_ operands)
      case call =>
        rw [Parser.call]
        exact .bind ih.primary fun _ _ callees => ih.callFrom _ _ callees
      case callFrom =>
        intro callee callee' callees
        rw [Parser.callFrom, Parser.callFrom]
        exact .bindOption (.eat? _) (.pure callees) fun _ _ _ =>
          .bind ih.argumentList fun _ _ given => .bind (.expect _ _) fun _ _ closes =>
            ih.callFrom _ _ (.call callees given closes.line)
      case argumentList =>
        rw [Parser.argumentList]
        exact .bindEq (.check _) fun _ => .ite (.pure .nil) (ih.argumentsFrom 0)
      case argumentsFrom =>
        intro count
        rw [Parser.argumentsFrom]
        exact .bindEq (.checkLimit count _) fun _ => .bind ih.expression fun _ _ firsts =>
          .bindEq (.eat _) fun _ =>
            .ite (.bind (ih.argumentsFrom (count + 1)) fun _ _ rests => .pure (.cons firsts rests))
              (.pure (.cons firsts .nil))
      case primary =>
        rw [Parser.primary]
        refine .bind .current fun token token' here => ?_
        have atoms := atom?_alike here
        revert atoms
        generalize atom? token = atom
        generalize atom? token' = atom'
        intro atoms
        cases atoms with
        | some exprs => exact .bind .advance fun _ _ _ => .pure exprs
        | none =>
            exact .bindEq (.eat _) fun _ => .ite
              (.bind ih.expression fun _ _ inners => .bind (.expect _ _) fun _ _ _ =>
                .pure (.group inners))
              (.fail _ here)

end Expressions

/-! ### Statements -/

section Statements

variable {comparison : Comparison} {steps : Nat} {keyword keyword' : Token}

theorem alike_variableDeclaration (steps : Nat) :
    Alike comparison (Stmt.Alike comparison.lines) (variableDeclaration steps)
      (variableDeclaration steps) := by
  rw [variableDeclaration_eq]
  exact .bind (.expectName _) fun _ _ names => .bindEq (.eat _) fun _ =>
    .bind (.ite (.map (expressionsAlike comparison steps).expression fun _ _ values => .some values)
        (.pure .none)) fun _ _ firsts =>
      .bind (.expect _ _) fun _ _ _ => .pure (.define names firsts)

theorem alike_printStatement (steps : Nat) :
    Alike comparison (Stmt.Alike comparison.lines) (printStatement steps) (printStatement steps) :=
  .bind (expressionsAlike comparison steps).expression fun _ _ values =>
    .bind (.expect _ _) fun _ _ _ => .pure (.print values)

theorem alike_expressionStatement (steps : Nat) :
    Alike comparison (Stmt.Alike comparison.lines) (expressionStatement steps)
      (expressionStatement steps) :=
  .bind (expressionsAlike comparison steps).expression fun _ _ values =>
    .bind (.expect _ _) fun _ _ _ => .pure (.expression values)

theorem rel_map_nameOf {label label' : Option Token}
    (labels : Option.Rel (Token.Alike comparison.lines) label label') :
    Option.Rel (Name.Alike comparison.lines) (label.map nameOf) (label'.map nameOf) := by
  cases labels with
  | none => exact .none
  | some here => exact .some ⟨here.lexeme, here.line⟩

theorem alike_breakStatement (here : keyword.Alike comparison.lines keyword') :
    Alike comparison (Stmt.Alike comparison.lines) (breakStatement keyword)
      (breakStatement keyword') := by
  rw [breakStatement_eq, breakStatement_eq]
  refine .bind (.eat? .identifier) fun label label' labels => .bind (.expect _ _) fun _ _ _ =>
    .bind .scope fun around around' arounds => ?_
  have made := Stmt.Alike.breakOut here.line (rel_map_nameOf labels)
  cases labels with
  | none =>
      simp only [arounds.labels, arounds.context]
      exact .bindEq (.demand _ here _) fun _ => .pure made
  | some named =>
      simp only [arounds.labels, named.lexeme]
      exact .bindEq (.demand _ named _) fun _ => .pure made

theorem alike_continueStatement (here : keyword.Alike comparison.lines keyword') :
    Alike comparison (Stmt.Alike comparison.lines) (continueStatement keyword)
      (continueStatement keyword') := by
  rw [continueStatement_eq, continueStatement_eq]
  refine .bind (.eat? .identifier) fun label label' labels => .bind (.expect _ _) fun _ _ _ =>
    .bind .scope fun around around' arounds => ?_
  have made := Stmt.Alike.continueOn here.line (rel_map_nameOf labels)
  cases labels with
  | none =>
      simp only [arounds.context]
      exact .bindEq (.demand _ here _) fun _ => .pure made
  | some named =>
      simp only [arounds.labels, named.lexeme]
      exact .bindEq (.demand _ named _) fun _ => .pure made

theorem alike_returnStatement (here : keyword.Alike comparison.lines keyword') :
    Alike comparison (Stmt.Alike comparison.lines) (returnStatement steps keyword)
      (returnStatement steps keyword') := by
  rw [returnStatement_eq, returnStatement_eq]
  refine .bind .scope fun around around' arounds => ?_
  rw [arounds.context]
  exact .bindEq (.demand _ here _) fun _ =>
    .bind (expressionsAlike comparison steps).expression fun _ _ values =>
      .bind (.expect _ _) fun _ _ _ => .pure (.returning here.line values)

theorem alike_parametersFrom (steps count : Nat) :
    Alike comparison (List.Forall₂ (Name.Alike comparison.lines)) (parametersFrom steps count)
      (parametersFrom steps count) := by
  induction steps generalizing count with
  | zero => exact .exhausted
  | succ steps ih =>
      rw [parametersFrom]
      exact .bindEq (.checkLimit count _) fun _ => .bind (.expectName _) fun _ _ firsts =>
        .bindEq (.eat _) fun _ =>
          .ite (.bind (ih (count + 1)) fun _ _ rests => .pure (.cons firsts rests))
            (.pure (.cons firsts .nil))

theorem alike_parameterList (steps : Nat) :
    Alike comparison (List.Forall₂ (Name.Alike comparison.lines)) (parameterList steps)
      (parameterList steps) :=
  .bindEq (.check _) fun _ => .ite (.pure .nil) (alike_parametersFrom steps 0)

theorem alike_optionalClause (steps : Nat) (close : TokenKind) :
    Alike comparison (Option.Rel (Expr.Alike comparison.lines)) (optionalClause steps close)
      (optionalClause steps close) :=
  .bindEq (.check _) fun _ => .ite (.pure .none)
    (.bind (expressionsAlike comparison steps).expression fun _ _ values => .pure (.some values))

theorem alike_firstClause (steps : Nat) :
    Alike comparison (Option.Rel (Stmt.Alike comparison.lines)) (firstClause steps)
      (firstClause steps) :=
  .bindEq (.eat _) fun _ => .ite (.pure .none) <| .bindEq (.eat _) fun _ =>
    .ite (.bind (alike_variableDeclaration steps) fun _ _ stmts => .pure (.some stmts))
      (.bind (alike_expressionStatement steps) fun _ _ stmts => .pure (.some stmts))

theorem toList_alike {first first' : Option Stmt}
    (firsts : Option.Rel (Stmt.Alike comparison.lines) first first') :
    List.Forall₂ (Stmt.Alike comparison.lines) first.toList first'.toList := by
  cases firsts with
  | none => exact .nil
  | some stmts => exact .cons stmts .nil

theorem whileLoop_alike {label label' : Option Name} {condition condition' : Expr}
    {body body' : Stmt} (labels : Option.Rel (Name.Alike comparison.lines) label label')
    (conditions : condition.Alike comparison.lines condition')
    (bodies : body.Alike comparison.lines body') :
    (whileLoop label condition body).Alike comparison.lines (whileLoop label' condition' body') :=
  .loop conditions (.continuePoint labels bodies)

theorem forLoop_alike {label label' : Option Name} {first first' : Option Stmt}
    {condition condition' last last' : Option Expr} {body body' : Stmt}
    (labels : Option.Rel (Name.Alike comparison.lines) label label')
    (firsts : Option.Rel (Stmt.Alike comparison.lines) first first')
    (conditions : Option.Rel (Expr.Alike comparison.lines) condition condition')
    (lasts : Option.Rel (Expr.Alike comparison.lines) last last')
    (bodies : body.Alike comparison.lines body') :
    (forLoop label first condition last body).Alike comparison.lines
      (forLoop label' first' condition' last' body') := by
  have tested : (condition.getD (.literal (.bool true))).Alike comparison.lines
      (condition'.getD (.literal (.bool true))) := by
    cases conditions with
    | none => exact .literal _
    | some exprs => exact exprs
  have stepped : List.Forall₂ (Stmt.Alike comparison.lines) (last.map Stmt.expression).toList
      (last'.map Stmt.expression).toList := by
    cases lasts with
    | none => exact .nil
    | some exprs => exact .cons (.expression exprs) .nil
  have round := Stmt.Alike.block (.cons (.continuePoint labels bodies) stepped)
  exact .block (List.rel_append (toList_alike firsts) (.cons (.loop tested round) .nil))

/-- The parsers of statements, each compared with itself. -/
structure StatementsAlike (comparison : Comparison) (steps : Nat) : Prop where
  declaration : Alike comparison (Option.Rel (Stmt.Alike comparison.lines)) (declaration steps)
    (declaration steps)
  declared : Alike comparison (Stmt.Alike comparison.lines) (declared steps) (declared steps)
  functionDeclaration : Alike comparison (Stmt.Alike comparison.lines) (functionDeclaration steps)
    (functionDeclaration steps)
  statement : Alike comparison (Stmt.Alike comparison.lines) (statement steps) (statement steps)
  block : Alike comparison (List.Forall₂ (Stmt.Alike comparison.lines)) (block steps) (block steps)
  declarations : Alike comparison (List.Forall₂ (Stmt.Alike comparison.lines)) (declarations steps)
    (declarations steps)
  ifStatement : Alike comparison (Stmt.Alike comparison.lines) (ifStatement steps)
    (ifStatement steps)
  whileStatement : Alike comparison (Stmt.Alike comparison.lines) (whileStatement steps)
    (whileStatement steps)
  forStatement : Alike comparison (Stmt.Alike comparison.lines) (forStatement steps)
    (forStatement steps)
  labelledStatement : Alike comparison (Stmt.Alike comparison.lines) (labelledStatement steps)
    (labelledStatement steps)

theorem statementsAlike (comparison : Comparison) : ∀ steps, StatementsAlike comparison steps
  | 0 => by constructor <;> exact .exhausted
  | steps + 1 => by
      have ih := statementsAlike comparison steps
      have parsed := (expressionsAlike comparison steps).expression
      constructor
      case declaration =>
        rw [Parser.declaration]
        exact .recovering ih.declared
      case declared =>
        rw [Parser.declared]
        exact .bindEq (.eat _) fun _ => .ite (alike_variableDeclaration steps) <|
          .bindEq (.eat _) fun _ => .ite ih.functionDeclaration ih.statement
      case functionDeclaration =>
        rw [Parser.functionDeclaration]
        exact .bind (.expectName _) fun _ _ names => .bind (.expect _ _) fun _ _ _ =>
          .bind (alike_parameterList steps) fun _ _ parameters => .bind (.expect _ _) fun _ _ _ =>
            .bind (.expect _ _) fun _ _ _ => .bind (.withFunctionBody ih.block) fun _ _ bodies =>
              .pure (.function names parameters bodies)
      case statement =>
        rw [Parser.statement]
        refine .bind .current fun token token' here => ?_
        rw [here.kind]
        refine .ite (.bind .advance fun _ _ _ => ?_) (alike_expressionStatement steps)
        split
        · exact alike_printStatement steps
        · exact .bind ih.block fun _ _ bodies => .pure (.block bodies)
        · exact ih.ifStatement
        · exact ih.whileStatement
        · exact ih.forStatement
        · exact alike_breakStatement here
        · exact alike_continueStatement here
        · exact alike_returnStatement here
        · exact ih.labelledStatement
      case block =>
        rw [Parser.block]
        exact .bind ih.declarations fun _ _ bodies => .bind (.expect _ _) fun _ _ _ => .pure bodies
      case declarations =>
        rw [Parser.declarations]
        exact .bindEq (.check _) fun _ => .bindEq .atEnd fun _ => .ite (.pure .nil) <|
          .bind ih.declaration fun _ _ firsts => .bind ih.declarations fun _ _ rests =>
            .pure (List.rel_append (toList_alike firsts) rests)
      case ifStatement =>
        rw [Parser.ifStatement]
        exact .bind (.expect _ _) fun _ _ _ => .bind parsed fun _ _ conditions =>
          .bind (.expect _ _) fun _ _ _ => .bind ih.statement fun _ _ thens =>
            .bindEq (.eat _) fun _ => .ite
              (.bind ih.statement fun _ _ elses =>
                .pure (.conditional conditions thens (.some elses)))
              (.pure (.conditional conditions thens .none))
      case whileStatement =>
        rw [Parser.whileStatement]
        exact .bind .takePendingLoop fun _ _ labels => .bind (.expect _ _) fun _ _ _ =>
          .bind parsed fun _ _ conditions => .bind (.expect _ _) fun _ _ _ =>
            .bind (.withLoop ih.statement) fun _ _ bodies =>
              .pure (whileLoop_alike labels conditions bodies)
      case forStatement =>
        rw [Parser.forStatement]
        exact .bind .takePendingLoop fun _ _ labels => .bind (.expect _ _) fun _ _ _ =>
          .bind (alike_firstClause steps) fun _ _ firsts =>
            .bind (alike_optionalClause steps _) fun _ _ conditions =>
              .bind (.expect _ _) fun _ _ _ => .bind (alike_optionalClause steps _) fun _ _ lasts =>
                .bind (.expect _ _) fun _ _ _ => .bind (.withLoop ih.statement) fun _ _ bodies =>
                  .pure (forLoop_alike labels firsts conditions lasts bodies)
      case labelledStatement =>
        rw [Parser.labelledStatement]
        refine .bind (.expectName _) fun label label' labels =>
          .bind .current fun target target' here => ?_
        rw [here.kind]
        exact .ite (.bind (.withLabel _ labels ih.statement) fun _ _ bodies =>
          .pure (.labelled labels bodies))
          (.fail _ here)

theorem program_alike (comparison : Comparison) (steps : Nat) :
    Alike comparison (List.Forall₂ (Stmt.Alike comparison.lines)) (program steps)
      (program steps) := by
  induction steps with
  | zero => exact .exhausted
  | succ steps ih =>
      rw [program]
      exact .bindEq .atEnd fun _ => .ite (.pure .nil) <|
        .bind (statementsAlike comparison steps).declaration fun _ _ firsts =>
          .bind ih fun _ _ rests => .pure (List.rel_append (toList_alike firsts) rests)

end Statements

end Parser

/-! ### What parsing comes to -/

/-- Two diagnostics that are the same but for the lines they name. -/
structure Diagnostic.Alike (diagnostic other : Diagnostic) : Prop where
  phase : diagnostic.phase = other.phase
  location : diagnostic.location = other.location
  message : diagnostic.message = other.message

/-- Two results of parsing that are the same but for related lines in the trees, and for the lines
that diagnostics name. -/
structure Parsed.Alike (lines : Nat → Nat → Prop) (parsed other : Parsed) : Prop where
  statements : List.Forall₂ (Stmt.Alike lines) parsed.statements other.statements
  errorCount : parsed.errorCount = other.errorCount
  diagnostics : List.Forall₂ Diagnostic.Alike parsed.diagnostics other.diagnostics

theorem Comparison.Errors.toDiagnostic {comparison : Comparison} {error other : GrammarError}
    (errors : comparison.Errors error other) : error.toDiagnostic.Alike other.toDiagnostic where
  phase := rfl
  location := by
    simp only [GrammarError.toDiagnostic, Diagnostic.atToken, Diagnostic.source,
      Diagnostic.locationOf,
      errors.token.kind, errors.token.lexeme]
  message := congrArg GrammarFault.message errors.fault

namespace Parser

/-- If both sides report, they report the same. -/
theorem reported_alike {comparison : Comparison}
    (reporting : comparison.reporting = comparison.reporting') {state other : State}
    (states : comparison.States state other) :
    List.Forall₂ Diagnostic.Alike (state.reported.map GrammarError.toDiagnostic)
      (other.reported.map GrammarError.toDiagnostic) := by
  have marks : ∀ error other, comparison.Errors error other →
      (error.reported = true ↔ other.reported = true) := by
    intro error other errors
    rw [errors.reported, errors.reported', reporting]
  have reported : List.Forall₂ comparison.Errors state.reported other.reported :=
    List.rel_reverse (List.rel_filter marks states.errors)
  rw [List.forall₂_map_left_iff, List.forall₂_map_right_iff]
  exact reported.imp fun _ _ errors => errors.toDiagnostic

/-- Tokens that are alike are parsed alike. -/
theorem parse_alike {lines : Nat → Nat → Prop} {tokens others : List Token} (holds : tokens ≠ [])
    (alike : List.Forall₂ (Token.Alike lines) tokens others) :
    (parse tokens false).Alike lines (parse others false) := by
  have starts : (⟨lines, true, true⟩ : Comparison).States (.start tokens) (.start others) :=
    ⟨Cursor.alike_ofTokens holds alike, ⟨rfl, rfl, .none, rfl, rfl⟩, .nil⟩
  have steps : stepBound others = stepBound tokens := by rw [stepBound, stepBound, alike.length_eq]
  have results := program_alike ⟨lines, true, true⟩ (stepBound tokens) _ _ starts
  have parses (row : List Token) : parse row false = programFrom (stepBound row) (.start row) := rfl
  rw [parses, parses, steps, programFrom, programFrom]
  revert results
  generalize program (stepBound tokens) (.start tokens) = result
  generalize program (stepBound tokens) (.start others) = result'
  intro results
  cases results with
  | parsed values states => exact ⟨values, states.errors.length_eq, reported_alike rfl states⟩
  | failed states => exact ⟨.nil, states.errors.length_eq, reported_alike rfl states⟩
  | exhausted => exact ⟨.nil, rfl, .nil⟩

end Parser

end Lox
