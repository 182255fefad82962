import Lox.Proofs.Parser.Restoring

/-!
The scope inside of what is being parsed.

The parsers of statements call each other. `Calls` says which part is called in which state, and
what the caller makes of the way in which that part ends; a chain of calls leads from a declaration
to a place inside of it, past mistakes from which there was a recovery on the way (`Leads`). The
chains are those of the parsers: what a parser comes to is what its chain makes of the part at its
end, run in the state at its end (`Leads.result`).

The scope at such a place is that of the start, changed by the borders the chain has crossed: loop
bodies, labels and function bodies (`Leads.crosses`). What was parsed before on the same level has
left nothing behind.

One call is looked at first (`Calls.crosses`). A label that waits for a loop is in the scope only
where that loop is parsed next (`Placed`), so whatever is parsed in front of a call restores the
scope.
-/

namespace Lox.Parser

/-! ### Calls -/

/-- The parsers of statements, by what they parse. -/
inductive Part where
  | declaration | declared | functionDeclaration | statement | block | declarations
  | ifStatement | whileStatement | forStatement | labelledStatement

namespace Part

/-- What the parser of a part has as its result. -/
abbrev Tree : Part → Type
  | .declaration => Option Stmt
  | .block | .declarations => List Stmt
  | _ => Stmt

/-- The parser of a part. -/
def parser : (part : Part) → (steps : Nat) → Parser part.Tree
  | .declaration => Parser.declaration
  | .declared => Parser.declared
  | .functionDeclaration => Parser.functionDeclaration
  | .statement => Parser.statement
  | .block => Parser.block
  | .declarations => Parser.declarations
  | .ifStatement => Parser.ifStatement
  | .whileStatement => Parser.whileStatement
  | .forStatement => Parser.forStatement
  | .labelledStatement => Parser.labelledStatement

end Part

/-- Where the scope is changed for what is inside. -/
inductive Border where
  | loop
  | label (label : Name) (ofLoop : Bool)
  | functionBody

/-- The scope inside of a border. A label in front of a loop waits for it, and the loop has taken
it. -/
def Border.cross : Border → Scope → Scope
  | .loop, around => { around.settled with context := around.context.add .loop }
  | .label name ofLoop, around => { around with
      labels := around.labels.push name.text ofLoop
      pendingLoop := if ofLoop then some name else around.pendingLoop }
  | .functionBody, around => around.enterFunction

/-- What a parser comes to that goes on with the result of a part, by how that part ends. -/
def Result.andThen {α β : Type} (ended : Result α) (next : α → Parser β) : Result β :=
  match ended with
  | .parsed value state => next value state
  | .failed state => .failed state
  | .exhausted => .exhausted

/-- What a parser comes to that recovers where a part gives up, by how that part ends. -/
def Result.recovered {α : Type} : Result α → Result (Option α)
  | .parsed value state => .parsed (some value) state
  | .failed state => .parsed none { state with cursor := state.cursor.synchronize }
  | .exhausted => .exhausted

/-- With `steps` steps left, the parser of one part calls that of another, in the state that stands
behind it. The list has the border between them, if there is one, and the function says what the
caller comes to by how the called part ends. -/
inductive Calls (steps : Nat) : (part : Part) → State → List Border → (inside : Part) → State →
    (Result inside.Tree → Result part.Tree) → Prop
  | declared {state : State} :
      Calls steps .declaration state [] .declared state fun ended => ended.recovered
  | function {state : State} (noVariable : state.cursor.check .kwVar = false)
      (function : state.cursor.check .kwFun = true) :
      Calls steps .declared state []
        .functionDeclaration { state with cursor := state.cursor.advance } fun ended => ended
  | statement {state : State} (noVariable : state.cursor.check .kwVar = false)
      (noFunction : state.cursor.check .kwFun = false) :
      Calls steps .declared state [] .statement state fun ended => ended
  | body {state opened : State} {name : Name} {parameters : List Name}
      (run : functionHead steps state = .parsed (name, parameters) opened) :
      Calls steps .functionDeclaration state [.functionBody]
        .block { opened with scope := opened.scope.enterFunction } fun ended =>
          (ended.mapScope fun _ => opened.scope).andThen fun body =>
            pure (.function name parameters body)
  | braced {state : State} (kind : state.cursor.current.kind = .leftBrace) :
      Calls steps .statement state [] .block { state with cursor := state.cursor.advance }
        fun ended => ended.andThen fun body => pure (.block body)
  | conditional {state : State} (kind : state.cursor.current.kind = .kwIf) :
      Calls steps .statement state []
        .ifStatement { state with cursor := state.cursor.advance } fun ended => ended
  | whileLoop {state : State} (kind : state.cursor.current.kind = .kwWhile) :
      Calls steps .statement state []
        .whileStatement { state with cursor := state.cursor.advance } fun ended => ended
  | forLoop {state : State} (kind : state.cursor.current.kind = .kwFor) :
      Calls steps .statement state []
        .forStatement { state with cursor := state.cursor.advance } fun ended => ended
  | colon {state : State} (kind : state.cursor.current.kind = .colon) :
      Calls steps .statement state []
        .labelledStatement { state with cursor := state.cursor.advance } fun ended => ended
  | row {state : State} :
      Calls steps .block state [] .declarations state fun ended => ended.andThen fun body => do
        let _ ← expect .rightBrace .braceAfterBlock
        return body
  | first {state : State}
      (goesOn : (state.cursor.check .rightBrace || state.cursor.atEnd) = false) :
      Calls steps .declarations state [] .declaration state fun ended =>
        ended.andThen fun found => do
          let others ← declarations steps
          return found.toList ++ others
  | rest {state after : State} {found : Option Stmt}
      (goesOn : (state.cursor.check .rightBrace || state.cursor.atEnd) = false)
      (run : declaration steps state = .parsed found after) :
      Calls steps .declarations state [] .declarations after fun ended =>
        ended.andThen fun others => pure (found.toList ++ others)
  | thenBranch {state opened : State} {condition : Expr}
      (run : ifHead steps state = .parsed condition opened) :
      Calls steps .ifStatement state [] .statement opened fun ended =>
        ended.andThen fun branch => do
          if ← eat .kwElse then return .conditional condition branch (some (← statement steps))
          else return .conditional condition branch none
  | elseBranch {state opened after : State} {condition : Expr} {branch : Stmt}
      (run : ifHead steps state = .parsed condition opened)
      (branchRun : statement steps opened = .parsed branch after)
      (follows : after.cursor.check .kwElse = true) :
      Calls steps .ifStatement state []
        .statement { after with cursor := after.cursor.advance } fun ended =>
          ended.andThen fun other => pure (.conditional condition branch (some other))
  | whileBody {state opened : State} {label : Option Name} {condition : Expr}
      (run : whileHead steps state = .parsed (label, condition) opened) :
      Calls steps .whileStatement state [.loop] .statement
        { opened with scope := { opened.scope with context := opened.scope.context.add .loop } }
        fun ended =>
          (ended.mapScope fun scope => { scope with context := opened.scope.context }).andThen
            fun body => pure (Parser.whileLoop label condition body)
  | forBody {state opened : State} {clauses : Clauses}
      (run : forHead steps state = .parsed clauses opened) :
      Calls steps .forStatement state [.loop] .statement
        { opened with scope := { opened.scope with context := opened.scope.context.add .loop } }
        fun ended =>
          (ended.mapScope fun scope => { scope with context := opened.scope.context }).andThen
            fun body => pure
              (Parser.forLoop clauses.label clauses.first clauses.condition clauses.last body)
  | labelled {state opened : State} {label : Name}
      (run : expectName .labelName state = .parsed label opened)
      (takes : takesLabel opened.cursor.current.kind = true) :
      Calls steps .labelledStatement state [.label label (startsLoop opened.cursor.current.kind)]
        .statement
        { opened with scope := { opened.scope with
          labels := opened.scope.labels.push label.text (startsLoop opened.cursor.current.kind)
          pendingLoop := if startsLoop opened.cursor.current.kind then some label
            else opened.scope.pendingLoop } }
        fun ended => (ended.mapScope fun scope => { scope with
          labels := scope.labels.pop (startsLoop opened.cursor.current.kind) }).andThen
            fun body => pure (.labelled label body)

/-- A chain of calls from one part to another, with the borders between them, the innermost first,
and what the first part comes to by how the last one ends. -/
inductive Leads (steps : Nat) (part : Part) (state : State) : List Border → Nat →
    (inside : Part) → State → (Result inside.Tree → Result part.Tree) → Prop
  | here : Leads steps part state [] steps part state fun ended => ended
  | further {borders inner : List Border} {left : Nat} {around inside : Part}
      {between there : State} {outer : Result around.Tree → Result part.Tree}
      {next : Result inside.Tree → Result around.Tree}
      (way : Leads steps part state borders (left + 1) around between outer)
      (call : Calls left around between inner inside there next) :
      Leads steps part state (inner ++ borders) left inside there fun ended => outer (next ended)

/-! ### What calls come to -/

theorem bind_result {α β : Type} (parser : Parser α) (next : α → Parser β) (state : State) :
    (parser >>= next) state = (parser state).andThen next := rfl

theorem bind_of_parsed {α β : Type} {parser : Parser α} {next : α → Parser β} {state after : State}
    {value : α} (run : parser state = .parsed value after) :
    (parser >>= next) state = next value after := by
  rw [bind_result, run, Result.andThen]

theorem within_result {α : Type} (enter : Scope → Scope) (leave : Scope → Scope → Scope)
    (parser : Parser α) (state : State) : within enter leave parser state =
      (parser { state with scope := enter state.scope }).mapScope (leave state.scope) := rfl

theorem eat_of_check {state : State} {kind : TokenKind} (found : state.cursor.check kind) :
    eat kind state = .parsed true { state with cursor := state.cursor.advance } :=
  bind_of_parsed (eat?_of_check found)

theorem eat_of_not_check {state : State} {kind : TokenKind}
    (absent : state.cursor.check kind = false) : eat kind state = .parsed false state :=
  bind_of_parsed (eat?_of_not_check absent)

/-- A statement that begins with a token of its own is parsed after it. -/
theorem statement_of_kind {steps : Nat} {state : State}
    (known : statementKinds.contains state.cursor.current.kind) :
    Parser.statement (steps + 1) state = statementAfter steps state.cursor.current
      { state with cursor := state.cursor.advance } := by
  rw [statement_apply, if_pos known]
  rfl

/-- Where a row of declarations goes on, one is parsed, and then the others. -/
theorem declarations_goesOn {steps : Nat} {state : State}
    (goesOn : (state.cursor.check .rightBrace || state.cursor.atEnd) = false) :
    Parser.declarations (steps + 1) state = (do
      let found ← Parser.declaration steps
      let others ← Parser.declarations steps
      return found.toList ++ others : Parser (List Stmt)) state := by
  rw [Parser.declarations]
  change (if state.cursor.check .rightBrace || state.cursor.atEnd then _ else _ :
    Parser (List Stmt)) state = _
  rw [goesOn]
  rfl

/-- What a parser comes to is what it makes of the part that it calls. -/
theorem Calls.result {steps : Nat} {part inside : Part} {state there : State} {inner : List Border}
    {next : Result inside.Tree → Result part.Tree}
    (call : Calls steps part state inner inside there next) :
    part.parser (steps + 1) state = next (inside.parser steps there) := by
  have begins {kind : TokenKind} (same : state.cursor.current.kind = kind)
      (known : statementKinds.contains kind) : Parser.statement (steps + 1) state =
        statementAfter steps state.cursor.current { state with cursor := state.cursor.advance } :=
    statement_of_kind (by rwa [same])
  cases call with
  | declared =>
      change recovering (Parser.declared steps) state = (Parser.declared steps state).recovered
      rw [recovering]
      cases Parser.declared steps state <;> rfl
  | function noVariable function =>
      change Parser.declared (steps + 1) state = _
      rw [Parser.declared, bind_of_parsed (eat_of_not_check noVariable)]
      exact bind_of_parsed (eat_of_check function)
  | statement noVariable noFunction =>
      change Parser.declared (steps + 1) state = _
      rw [Parser.declared, bind_of_parsed (eat_of_not_check noVariable)]
      exact bind_of_parsed (eat_of_not_check noFunction)
  | body run =>
      change Parser.functionDeclaration (steps + 1) state = _
      rw [functionDeclaration_head, bind_of_parsed run]
      rfl
  | braced kind | conditional kind | whileLoop kind | forLoop kind | colon kind =>
      refine (begins kind rfl).trans ?_
      rw [statementAfter, kind]
      rfl
  | row =>
      change Parser.block (steps + 1) state = _
      rw [Parser.block]
      rfl
  | first goesOn => exact declarations_goesOn goesOn
  | rest goesOn run => exact (declarations_goesOn goesOn).trans (bind_of_parsed run)
  | thenBranch run =>
      change Parser.ifStatement (steps + 1) state = _
      rw [ifStatement_head, bind_of_parsed run]
      rfl
  | elseBranch run branchRun follows =>
      change Parser.ifStatement (steps + 1) state = _
      rw [ifStatement_head, bind_of_parsed run, bind_of_parsed branchRun,
        bind_of_parsed (eat_of_check follows)]
      rfl
  | whileBody run =>
      change Parser.whileStatement (steps + 1) state = _
      rw [whileStatement_head, bind_of_parsed run]
      rfl
  | forBody run =>
      change Parser.forStatement (steps + 1) state = _
      rw [forStatement_head, bind_of_parsed run]
      rfl
  | @labelled _ opened label run takes =>
      change Parser.labelledStatement (steps + 1) state = _
      rw [Parser.labelledStatement, bind_of_parsed run]
      change (if takesLabel opened.cursor.current.kind then _ else _ : Parser Stmt) opened = _
      rw [if_pos takes]
      rfl

/-- Where the called parser runs out of steps, so does the one that calls it. -/
theorem Calls.exhausted {steps : Nat} {part inside : Part} {state there : State}
    {inner : List Border} {next : Result inside.Tree → Result part.Tree}
    (call : Calls steps part state inner inside there next) : next .exhausted = .exhausted := by
  cases call <;> rfl

/-- What the parser at the start of a chain comes to is what the chain makes of the part at its
end. -/
theorem Leads.result {steps left : Nat} {part inside : Part} {state there : State}
    {borders : List Border} {next : Result inside.Tree → Result part.Tree}
    (leads : Leads steps part state borders left inside there next) :
    part.parser steps state = next (inside.parser left there) := by
  induction leads with
  | here => rfl
  | further _ call ih => rw [ih, call.result]

/-- A parser comes to an end only if all those do that it leads to. -/
theorem Leads.exhausted {steps left : Nat} {part inside : Part} {state there : State}
    {borders : List Border} {next : Result inside.Tree → Result part.Tree}
    (leads : Leads steps part state borders left inside there next) :
    next .exhausted = .exhausted := by
  induction leads with
  | here => rfl
  | further _ call ih => exact (congrArg _ call.exhausted).trans ih

/-! ### The scope inside -/

/-- Parts that take a label in front of them. -/
def Part.Takes : Part → State → Prop
  | .whileStatement, _ | .forStatement, _ => True
  | .statement, state => startsLoop state.cursor.current.kind = true
  | _, _ => False

/-- A label waits only where the loop that takes it is parsed next. -/
def Placed (part : Part) (state : State) : Prop :=
  state.scope.pendingLoop = none ∨ part.Takes state

theorem Placed.restoresFrom {part : Part} {state : State} (placed : Placed part state)
    (steps : Nat) :
    RestoresFrom state (part.parser steps) := by
  have restored := statementsRestore steps
  rcases placed with clear | takes
  · cases part with
    | declaration => exact restored.declaration state clear
    | declared => exact restored.declared state clear
    | functionDeclaration => exact restored.functionDeclaration state clear
    | statement => exact restored.statement state clear
    | block => exact restored.block state clear
    | declarations => exact restored.declarations state clear
    | ifStatement => exact restored.ifStatement state clear
    | whileStatement => exact restored.whileStatement state
    | forStatement => exact restored.forStatement state
    | labelledStatement => exact restored.labelledStatement state clear
  · cases part with
    | statement => exact restored.labelledLoop state takes
    | whileStatement => exact restored.whileStatement state
    | forStatement => exact restored.forStatement state
    | _ => exact takes.elim

/-- A label that waits in front of a statement waits for the loop that begins with its first
token. -/
theorem Placed.clear_of_other {state : State} (placed : Placed .statement state)
    (other : startsLoop state.cursor.current.kind = false) : state.scope.pendingLoop = none :=
  placed.resolve_right fun loops => by simp [Part.Takes, other] at loops

/-- What one call does to the scope. -/
theorem Calls.crosses {steps : Nat} {part inside : Part} {state there : State} {inner : List Border}
    {next : Result inside.Tree → Result part.Tree}
    (call : Calls steps part state inner inside there next) (placed : Placed part state) :
    Placed inside there ∧ there.scope = inner.foldr Border.cross state.scope := by
  cases call with
  | declared | function | row | first => exact ⟨.inl (placed.resolve_right id), rfl⟩
  | statement => exact ⟨.inl (placed.resolve_right id), rfl⟩
  | whileLoop | forLoop => exact ⟨placed.imp_right fun _ => trivial, rfl⟩
  | braced kind | conditional kind | colon kind =>
      exact ⟨.inl (placed.clear_of_other (by rw [kind]; rfl)), rfl⟩
  | body run =>
      have same := (restores_functionHead steps).scope_of_parsed (placed.resolve_right id) run
      exact ⟨.inl rfl, congrArg Scope.enterFunction same⟩
  | rest goesOn run =>
      have clear := placed.resolve_right id
      have same := (statementsRestore steps).declaration.scope_of_parsed clear run
      exact ⟨.inl (by rw [same]; exact clear), same⟩
  | thenBranch run =>
      have clear := placed.resolve_right id
      have same := (restores_ifHead steps).scope_of_parsed clear run
      exact ⟨.inl (by rw [same]; exact clear), same⟩
  | elseBranch run branchRun follows =>
      have clear := placed.resolve_right id
      have opened := (restores_ifHead steps).scope_of_parsed clear run
      have same := (statementsRestore steps).statement.scope_of_parsed (by rw [opened]; exact clear)
        branchRun
      exact ⟨.inl (by rw [same, opened]; exact clear), same.trans opened⟩
  | whileBody run =>
      have taken := (restoresFrom_whileHead steps state).scope_of_parsed run
      exact ⟨.inl (by rw [taken]; rfl), by rw [taken]; rfl⟩
  | forBody run =>
      have taken := (restoresFrom_forHead steps state).scope_of_parsed run
      exact ⟨.inl (by rw [taken]; rfl), by rw [taken]; rfl⟩
  | @labelled _ opened label run takes =>
      have clear := placed.resolve_right id
      have same := (Restores.expectName .labelName).scope_of_parsed clear run
      refine ⟨?_, by rw [same]; rfl⟩
      cases loops : startsLoop opened.cursor.current.kind with
      | true => exact .inr loops
      | false => exact .inl (by rw [same]; exact clear)

/-- The scope at a place inside is that of the start, changed by the borders between them. -/
theorem Leads.crosses {steps left : Nat} {part inside : Part} {state there : State}
    {borders : List Border} {next : Result inside.Tree → Result part.Tree}
    (leads : Leads steps part state borders left inside there next) (placed : Placed part state) :
    Placed inside there ∧ there.scope = borders.foldr Border.cross state.scope := by
  induction leads with
  | here => exact ⟨placed, rfl⟩
  | further _ call ih =>
      obtain ⟨between, scope⟩ := ih
      obtain ⟨behind, crossed⟩ := call.crosses between
      exact ⟨behind, by rw [crossed, scope, List.foldr_append]⟩

theorem Border.cross_reporting (border : Border) (around : Scope) :
    (border.cross around).reporting = around.reporting := by
  cases border <;> rfl

/-- Inside of a function body nothing is seen of what is around the function. -/
theorem foldr_cross_functionBody (inner outer : List Border) (around : Scope) :
    (inner ++ .functionBody :: outer).foldr Border.cross around =
      inner.foldr Border.cross { Scope.functionBody with reporting := around.reporting } := by
  have reporting : (outer.foldr Border.cross around).reporting = around.reporting := by
    induction outer with
    | nil => rfl
    | cons border outer ih => rw [List.foldr_cons, Border.cross_reporting, ih]
  rw [List.foldr_append, List.foldr_cons, Border.cross, Scope.enterFunction, reporting]

/-! ### The scope is put back -/

/-- Parsing puts the scope back. Take any state, with any tokens, in which no label waits for a
loop.

* However a declaration, a statement or an expression ends, with a result, by giving up or after a
  recovery, the scope is the one from before: the context, both rows of labels, and no label that
  waits.
* Take any part that is parsed inside. What the whole comes to is what the chain that leads there
  makes of this part, run in the state that stands there. It comes to an end if the whole does, and
  leaves the scope as it found it, but for a label that waits for the loop that it is. The scope it
  finds is that of the start, changed by the borders in between. In a function body this is a
  function and no labels, and what was crossed inside of the body.
* A function that is declared at such a place has as its body what the parser of blocks comes to in
  the scope of a function with no labels. When the body is left, the scope is that from before it
  again. -/
theorem scopes_restored {state : State} (clear : state.scope.pendingLoop = none) (steps : Nat) :
    ((declaration steps state).Leaves state.scope ∧ (statement steps state).Leaves state.scope ∧
      (expression steps state).Leaves state.scope) ∧
    (∀ {part inside : Part} {borders : List Border} {left : Nat} {there : State}
        {next : Result inside.Tree → Result part.Tree},
      Leads steps part state borders left inside there next →
        part.parser steps state = next (inside.parser left there) ∧
        (part.parser steps state ≠ .exhausted → inside.parser left there ≠ .exhausted) ∧
        (inside.parser left there).Leaves there.scope.settled ∧
        there.scope = borders.foldr Border.cross state.scope ∧
        ∀ inner outer, borders = inner ++ .functionBody :: outer →
          there.scope =
            inner.foldr Border.cross
              { Scope.functionBody with reporting := state.scope.reporting }) ∧
    ∀ {part : Part} {borders : List Border} {left : Nat} {there opened : State} {name : Name}
        {parameters : List Name} {next : Result Stmt → Result part.Tree},
      Leads steps part state borders (left + 1) .functionDeclaration there next →
      functionHead left there = .parsed (name, parameters) opened →
        opened.scope = borders.foldr Border.cross state.scope ∧
        functionDeclaration (left + 1) there = (withFunctionBody (block left) opened).andThen
          (fun body => pure (.function name parameters body)) ∧
        withFunctionBody (block left) opened =
          (block left { opened with scope :=
            { Scope.functionBody with reporting := state.scope.reporting } }).mapScope
              (fun _ => opened.scope) ∧
        (withFunctionBody (block left) opened).Leaves opened.scope := by
  have placed (part : Part) : Placed part state := .inl clear
  have same : state.scope.settled = state.scope := Scope.settled_eq clear
  refine ⟨?_, ?_, ?_⟩
  · rw [← same]
    exact ⟨(placed .declaration).restoresFrom steps, (placed .statement).restoresFrom steps,
      (expressionsRestore steps).expression state clear⟩
  · intro part inside borders left there next leads
    obtain ⟨behind, scope⟩ := leads.crosses (placed part)
    refine ⟨leads.result, fun ends out => ends ?_, behind.restoresFrom left, scope, ?_⟩
    · rw [leads.result, out, leads.exhausted]
    · rintro inner outer rfl
      rw [scope, foldr_cross_functionBody]
  · intro part borders left there opened name parameters next leads run
    obtain ⟨behind, scope⟩ := leads.crosses (placed part)
    have clearThere : there.scope.pendingLoop = none := behind.resolve_right id
    have before := (restores_functionHead left).scope_of_parsed clearThere run
    have clearBefore : opened.scope.pendingLoop = none := by rw [before, clearThere]
    have entered : opened.scope.enterFunction =
        { Scope.functionBody with reporting := state.scope.reporting } := by
      rw [before, scope]
      exact foldr_cross_functionBody [] borders state.scope
    refine ⟨before.trans scope, ?_, ?_, ?_⟩
    · rw [functionDeclaration_head, bind_of_parsed run]
      rfl
    · rw [withFunctionBody_eq, within_result, entered]
    · have body := (statementsRestore left).block.withFunctionBody opened clearBefore
      rwa [RestoresFrom, Scope.settled_eq clearBefore] at body

/-- At `; fun f() { break; }` in a loop with a label: behind the mistake, from which there is a
recovery, the body of the function is parsed in the scope of one, so the `break` in it is reported,
and after the body the loop and its label are there again. -/
theorem scopes_restored_function :
    let semicolon : Token := .plain .semicolon ";" 1
    let tokens : List Token := [semicolon, .plain .kwFun "fun" 1, .plain .identifier "f" 1,
      .plain .leftParen "(" 1, .plain .rightParen ")" 1, .plain .leftBrace "\x7b" 1,
      .plain .kwBreak "break" 1, semicolon, .plain .rightBrace "\x7d" 1, .endOfInput 1]
    let around : Scope := ⟨.loop, ⟨["a"], ["a"]⟩, none, true⟩
    let state : State := ⟨.ofTokens tokens, around, []⟩
    let inside : State :=
      ⟨(Cursor.ofTokens tokens).moveTo 6, .functionBody, [⟨semicolon, .missing .expression, true⟩]⟩
    (declaration 40 state).Leaves around ∧
      (∃ next, Leads 40 .declarations state [.functionBody] 35 .block inside next ∧
        declarations 40 state = next (block 35 inside) ∧ (block 35 inside).Leaves .functionBody) ∧
      withFunctionBody (block 35) { inside with scope := around } =
        (block 35 inside).mapScope (fun _ => around) ∧
      (withFunctionBody (block 35) { inside with scope := around }).Leaves around := by
  intro semicolon tokens around state inside
  have restored := scopes_restored (show state.scope.pendingLoop = none from rfl) 40
  -- The places are written out, since the chain itself would only name them by the parsing that
  -- leads there.
  have start : Leads 40 .declarations state [] 40 .declarations state fun ended => ended := .here
  have recovered : Leads 40 .declarations state [] 39 .declarations
      ⟨(Cursor.ofTokens tokens).moveTo 1, around, inside.errors⟩ _ :=
    start.further (.rest rfl (show declaration 39 state = .parsed none _ from rfl))
  have declared := (recovered.further (.first rfl)).further .declared
  have function : Leads 40 .declarations state [] 36 .functionDeclaration
      ⟨(Cursor.ofTokens tokens).moveTo 2, around, inside.errors⟩ _ :=
    declared.further (.function rfl rfl)
  have run : functionHead 35 ⟨(Cursor.ofTokens tokens).moveTo 2, around, inside.errors⟩ =
      .parsed (⟨"f", 1⟩, []) { inside with scope := around } := rfl
  have body : Leads 40 .declarations state [.functionBody] 35 .block inside _ :=
    function.further (.body run)
  have led := restored.2.1 body
  have left := restored.2.2 function run
  exact ⟨restored.1.1, ⟨_, body, led.1, led.2.2.1⟩, left.2.2.1, left.2.2.2⟩

end Lox.Parser
