import Lox.Proofs.Parser.Places

/-!
What the parser of statements reads without a report is lawful.

A run without a report is taken apart along the parser. Each part goes forward and drops no fault
(`StatementContracts`), so no part reported one, and the tokens it passed are those of a lawful tree
of which its result is what becomes (`StatementsSound`). Where an `if` could still take an `else`,
the next token is none.
-/

namespace Lox.Parser

open State

variable {α : Type}

/-! ### Parts of statements -/

theorem Contract.run {strict : Bool} {parser : Parser α} {before after : State} {value : α}
    (contract : Contract strict parser) (ready : before.Ready)
    (run : parser before = .parsed value after) :
    after.Ready ∧ before.faults ≤ after.faults ∧ after.scope = before.scope := by
  have keeps := contract.keeps ready run
  exact ⟨keeps.ready ready.ended, keeps.faults, keeps.scope.trans (Scope.settled_eq ready.clear)⟩

/-- An expression and the semicolon behind it. -/
theorem terminated_run {steps : Nat} {part : Missing} {make : Expr → Stmt} {before after : State}
    {stmt : Stmt} (ready : before.Ready)
    (run : (do
      let value ← expression steps
      let _ ← expect .semicolon part
      return make value : Parser Stmt) before = .parsed stmt after)
    (clean : after.faults ≤ before.faults) :
    ∃ (tokens : List Token) (value : Expr), Goes tokens before after ∧
      Written (value.spelling ++ [.fixed .semicolon]) tokens ∧ value.WellLevelled ∧
      stmt = make value := by
  simp only [bind_eq_parsed] at run
  obtain ⟨value, middle, valueRun, ends, last, endRun, run⟩ := run
  cases run
  obtain ⟨readyMiddle, less, -⟩ :=
    (expressionContracts steps).expression.run ready valueRun
  obtain ⟨endKind, goesEnd⟩ := expect_run readyMiddle.ended (by decide) endRun
  have same := goesEnd.faults
  obtain ⟨tokens, goes, tree, -⟩ :=
    (expressionsSound steps).expression before ready value middle valueRun (by omega)
  exact ⟨tokens ++ [ends], value, goes.trans goesEnd,
    tree.written.append (.singleton (Mark.fits_fixed endKind rfl)), tree.wellLevelled, rfl⟩

theorem variableDeclaration_run {steps : Nat} {before after : State} {stmt : Stmt}
    (ready : before.Ready) (run : variableDeclaration steps before = .parsed stmt after)
    (clean : after.faults ≤ before.faults) :
    ∃ (tokens : List Token) (name : Name) (first : Option Expr), Goes tokens before after ∧
      Written (.ofName name :: initializerSpelling first) tokens ∧
      (∀ value ∈ first, value.WellLevelled) ∧ stmt = .define name first := by
  rw [variableDeclaration_eq] at run
  simp only [bind_eq_parsed] at run
  obtain ⟨name, middle, nameRun, follows, behind, eaten, first, closing, firstRun, ends,
      last, endRun,
    run⟩ := run
  cases run
  obtain ⟨named, fits, goesName⟩ := expectName_run ready.ended nameRun
  have readyMiddle := goesName.ready ready
  have sameName := goesName.faults
  rcases eat_run readyMiddle.ended (by decide) eaten with
    ⟨rfl, rfl, -⟩ | ⟨rfl, equals, equalKind, goesEquals⟩
  · cases firstRun
    obtain ⟨endKind, goesEnd⟩ := expect_run readyMiddle.ended (by decide) endRun
    exact ⟨[named, ends], name, none, goesName.cons goesEnd,
      .cons fits (Written.singleton (Mark.fits_fixed endKind rfl)), by simp, rfl⟩
  · have readyBehind := goesEquals.ready readyMiddle
    simp only [firstValue, if_true, map_eq_pure_bind, bind_eq_parsed] at firstRun
    obtain ⟨value, valueEnd, valueRun, firstRun⟩ := firstRun
    cases firstRun
    obtain ⟨readyClosing, less, -⟩ :=
      (expressionContracts steps).expression.run readyBehind valueRun
    obtain ⟨endKind, goesEnd⟩ := expect_run readyClosing.ended (by decide) endRun
    have sameEquals := goesEquals.faults
    have sameEnd := goesEnd.faults
    obtain ⟨tokens, goes, tree, -⟩ :=
      (expressionsSound steps).expression behind readyBehind value closing valueRun (by omega)
    refine ⟨named :: equals :: (tokens ++ [ends]), name, some value,
      goesName.cons (goesEquals.cons (goes.trans goesEnd)), ?_, by
        simpa using tree.wellLevelled, rfl⟩
    exact .cons fits (.cons (Mark.fits_fixed equalKind rfl)
      (tree.written.append (.singleton (Mark.fits_fixed endKind rfl))))

/-- A clause of a `for` that may be left out. -/
theorem optionalClause_run {steps : Nat} {close : TokenKind} {before after : State}
    {value : Option Expr} (ready : before.Ready)
    (run : optionalClause steps close before = .parsed value after)
    (clean : after.faults ≤ before.faults) :
    ∃ tokens : List Token, Goes tokens before after ∧ Written (value.elim [] Expr.spelling) tokens ∧
      ∀ expr ∈ value, expr.WellLevelled := by
  unfold optionalClause at run
  rw [bind_eq_parsed] at run
  obtain ⟨closes, middle, checked, run⟩ := run
  cases checked
  split at run
  · cases run
    exact ⟨[], .refl _, .nil, by simp⟩
  · rw [bind_eq_parsed] at run
    obtain ⟨expr, last, exprRun, run⟩ := run
    cases run
    obtain ⟨tokens, goes, tree, -⟩ :=
      (expressionsSound steps).expression before ready expr after exprRun clean
    exact ⟨tokens, goes, tree.written, by simpa using tree.wellLevelled⟩

theorem firstClause_run {steps : Nat} {before after : State} {first : Option Stmt}
    (ready : before.Ready) (run : firstClause steps before = .parsed first after)
    (clean : after.faults ≤ before.faults) :
    ∃ (tokens : List Token) (clause : Option Clause), Goes tokens before after ∧
      Written (clause.elim [.fixed .semicolon] Clause.spelling) tokens ∧
      (∀ given ∈ clause, given.WellFormed) ∧ first = clause.map Clause.tree := by
  unfold firstClause at run
  rw [bind_eq_parsed] at run
  obtain ⟨ends, middle, eaten, run⟩ := run
  rcases eat_run ready.ended (by decide) eaten with ⟨rfl, rfl, -⟩ | ⟨rfl, semicolon, kind, goesEnd⟩
  · rw [if_neg Bool.false_ne_true, bind_eq_parsed] at run
    obtain ⟨declares, behind, eatenVar, run⟩ := run
    rcases eat_run ready.ended (by decide) eatenVar with ⟨rfl, rfl, -⟩
        | ⟨rfl, keyword, kind, goesVar⟩
    · rw [if_neg Bool.false_ne_true, bind_eq_parsed] at run
      obtain ⟨stmt, last, stmtRun, run⟩ := run
      cases run
      obtain ⟨tokens, value, goes, written, levelled, rfl⟩ := terminated_run ready stmtRun clean
      refine ⟨tokens, some (.expression value), goes, written, ?_, rfl⟩
      rintro given ⟨⟩
      exact levelled
    · rw [if_pos rfl, bind_eq_parsed] at run
      obtain ⟨stmt, last, stmtRun, run⟩ := run
      cases run
      obtain ⟨tokens, name, value, goes, written, levelled, rfl⟩ :=
        variableDeclaration_run (goesVar.ready ready) stmtRun (by rw [goesVar.faults]; exact clean)
      refine ⟨keyword :: tokens, some (.variable name value), goesVar.cons goes,
        .cons (Mark.fits_fixed kind rfl) written, ?_, rfl⟩
      rintro given ⟨⟩
      exact levelled
  · cases run
    exact ⟨[semicolon], none, goesEnd, .singleton (Mark.fits_fixed kind rfl), by simp, rfl⟩

theorem parametersFrom_run {steps count : Nat} {before after : State} {parameters : List Name}
    (ready : before.Ready) (run : parametersFrom steps count before = .parsed parameters after)
    (clean : after.faults ≤ before.faults) :
    ∃ tokens : List Token, Goes tokens before after ∧
      Written (separated (parameters.map fun parameter => [.ofName parameter])) tokens ∧
      parameters ≠ [] ∧ count + parameters.length ≤ argumentLimit := by
  induction steps generalizing count before parameters with
  | zero => cases run
  | succ steps ih =>
      rw [parametersFrom] at run
      simp only [bind_eq_parsed] at run
      obtain ⟨_, checked, checkRun, first, middle, firstRun, more, behind, eaten, run⟩ := run
      obtain ⟨readyChecked, lessCheck, -⟩ :=
        (Contract.checkLimit count _).run ready checkRun
      obtain ⟨named, fits, goesFirst⟩ := expectName_run readyChecked.ended firstRun
      have readyMiddle := goesFirst.ready readyChecked
      have sameFirst := goesFirst.faults
      rcases eat_run readyMiddle.ended (by decide) eaten with
        ⟨rfl, rfl, -⟩ | ⟨rfl, comma, commaKind, goesComma⟩
      · cases run
        obtain ⟨rfl, below⟩ := checkLimit_run checkRun (by omega)
        exact ⟨[named], goesFirst, .singleton fits, List.cons_ne_nil _ _,
          by simp only [List.length_singleton]; omega⟩
      · rw [if_pos rfl, bind_eq_parsed] at run
        obtain ⟨rest, last, restRun, run⟩ := run
        cases run
        have readyBehind := goesComma.ready readyMiddle
        obtain ⟨-, lessRest, -⟩ :=
          (contract_parametersFrom steps (count + 1)).run readyBehind restRun
        have sameComma := goesComma.faults
        obtain ⟨rfl, below⟩ := checkLimit_run checkRun (by omega)
        obtain ⟨tokens, goesRest, written, nonempty, few⟩ := ih readyBehind restRun (by omega)
        refine ⟨named :: comma :: tokens, goesFirst.cons (goesComma.cons goesRest), ?_,
          List.cons_ne_nil _ _, by simp only [List.length_cons]; omega⟩
        cases rest with
        | nil => exact absurd rfl nonempty
        | cons second others => exact .cons fits (.cons (Mark.fits_fixed commaKind rfl) written)

theorem parameterList_run {steps : Nat} {before after : State} {parameters : List Name}
    (ready : before.Ready) (run : parameterList steps before = .parsed parameters after)
    (clean : after.faults ≤ before.faults) :
    ∃ tokens : List Token, Goes tokens before after ∧
      Written (separated (parameters.map fun parameter => [.ofName parameter])) tokens ∧
      parameters.length ≤ argumentLimit := by
  unfold parameterList at run
  rw [bind_eq_parsed] at run
  obtain ⟨closes, middle, checked, run⟩ := run
  cases checked
  split at run
  · cases run
    exact ⟨[], .refl _, .nil, Nat.zero_le _⟩
  · obtain ⟨tokens, goes, written, -, few⟩ := parametersFrom_run ready run clean
    exact ⟨tokens, goes, written, by omega⟩

/-- An expression in parentheses behind a keyword, and what comes after it. -/
theorem parenthesized_run {steps : Nat} {opening closing : Missing} {next : Expr → Parser α}
    {before after : State} {value : α} (ready : before.Ready)
    (run : (do
      let _ ← expect .leftParen opening
      let condition ← expression steps
      let _ ← expect .rightParen closing
      next condition) before = .parsed value after) :
    ∃ (condition : Expr) (middle : State), next condition middle = .parsed value after ∧
      middle.Ready ∧ middle.scope = before.scope ∧ before.faults ≤ middle.faults ∧
      (middle.faults ≤ before.faults → condition.WellLevelled ∧ ∃ tokens : List Token,
        Goes tokens before middle ∧
        Written (.fixed .leftParen :: (condition.spelling ++ [.fixed .rightParen])) tokens) := by
  simp only [bind_eq_parsed] at run
  obtain ⟨opens, opened, openRun, condition, atClose, conditionRun, closes, middle,
      closeRun, run⟩ := run
  obtain ⟨openKind, goesOpen⟩ := expect_run ready.ended (by decide) openRun
  have readyOpened := goesOpen.ready ready
  obtain ⟨readyClose, less, scope⟩ :=
    (expressionContracts steps).expression.run readyOpened conditionRun
  obtain ⟨closeKind, goesClose⟩ := expect_run readyClose.ended (by decide) closeRun
  have sameOpen := goesOpen.faults
  have sameClose := goesClose.faults
  refine ⟨condition, middle, run, goesClose.ready readyClose,
    by rw [goesClose.scope, scope, goesOpen.scope], by omega, fun clean => ?_⟩
  obtain ⟨tokens, goes, tree, -⟩ :=
    (expressionsSound steps).expression opened readyOpened condition atClose conditionRun (by omega)
  exact ⟨tree.wellLevelled, opens :: (tokens ++ [closes]), goesOpen.cons (goes.trans goesClose),
    .cons (Mark.fits_fixed openKind rfl)
      (tree.written.append (.singleton (Mark.fits_fixed closeKind rfl)))⟩

theorem within_run {enter : Scope → Scope} {leave : Scope → Scope → Scope} {parser : Parser α}
    {before after : State} {value : α}
    (run : within enter leave parser before = .parsed value after) :
    ∃ inner, parser (before.under (enter before.scope)) = .parsed value inner ∧
      after = inner.under (leave before.scope inner.scope) := by
  unfold Parser.within at run
  cases result : parser { before with scope := enter before.scope } with
  | exhausted =>
      rw [result] at run
      cases run
  | failed inner =>
      rw [result] at run
      cases run
  | parsed result inner =>
      rw [result] at run
      cases run
      exact ⟨inner, result, rfl⟩

/-! ### Statements -/

/-- A row of tokens is that of a lawful statement at a place. -/
structure PhraseOf (place : Place) (tokens : List Token) (phrase : Phrase) : Prop where
  written : Written phrase.spelling tokens
  formed : phrase.WellFormed
  obeys : phrase.Obeys place

/-- A row of tokens is that of a lawful declaration at a place. -/
structure DeclarationOf (place : Place) (tokens : List Token) (declared : Declaration) : Prop where
  written : Written declared.spelling tokens
  formed : declared.WellFormed
  obeys : declared.Obeys place

/-- A row of tokens is that of a row of lawful declarations at a place. -/
structure RowOf (place : Place) (tokens : List Token) (body : List Declaration) : Prop where
  written : Written (Declaration.spellings body) tokens
  formed : Declaration.AllWellFormed body
  obeys : Declaration.AllObey body place

theorem RowOf.nil (place : Place) : RowOf place [] [] :=
  ⟨.nil, trivial, trivial⟩

theorem RowOf.cons {place : Place} {tokens others : List Token} {first : Declaration}
    {rest : List Declaration} (firstOf : DeclarationOf place tokens first)
    (restOf : RowOf place others rest) : RowOf place (tokens ++ others) (first :: rest) :=
  ⟨firstOf.written.append restOf.written, ⟨firstOf.formed, restOf.formed⟩,
    ⟨firstOf.obeys, restOf.obeys⟩⟩

/-- What was read in a state with a label in front of it, behind a first token if one is given, is a
lawful statement, and no `else` follows to which an `if` in it is open. -/
def ReadPhrase (place : Place) (label : Option Name) (first : Option Token) (before : State)
    (stmt : Stmt) (after : State) : Prop :=
  ∃ (tokens : List Token) (phrase : Phrase), Goes tokens before after ∧
    PhraseOf place (first.toList ++ tokens) phrase ∧
    phrase.BeginsWith (first.getD before.cursor.current).kind ∧ stmt = phrase.tree label ∧
    (phrase.isOpen = true → after.cursor.current.kind ≠ .kwElse)

/-- The first token of a statement has been passed too. -/
theorem ReadPhrase.behind {place : Place} {label : Option Name} {token : Token}
    {before middle after : State} {stmt : Stmt} (goes : Goes [token] before middle)
    (read : ReadPhrase place label (some token) middle stmt after) :
    ReadPhrase place label none before stmt after := by
  obtain ⟨tokens, phrase, goesRest, phraseOf, begins, tree, stops⟩ := read
  refine ⟨token :: tokens, phrase, goes.cons goesRest, phraseOf, ?_, tree, stops⟩
  rwa [Option.getD_none, goes.current]

theorem beginsWith_of_kind {phrase : Phrase} {token : Token} {kind : TokenKind} {before : State}
    (same : token.kind = kind) (begins : phrase.BeginsWith kind) :
    phrase.BeginsWith ((some token).getD before.cursor.current).kind := by
  rwa [Option.getD_some, same]

/-- What the parsers of statements read at a place. Those that come after a token of their own are
given that token. -/
structure StatementsSound (steps : Nat) : Prop where
  declaration : ∀ (place : Place) (before : State), before.Ready → before.scope = place.scope →
    before.cursor.current.kind ≠ .endOfInput → ∀ stmt? after,
    declaration steps before = .parsed stmt? after → after.faults ≤ before.faults →
      ∃ (tokens : List Token) (declared : Declaration), Goes tokens before after ∧
        DeclarationOf place tokens declared ∧ stmt? = some declared.tree
  declared : ∀ (place : Place) (before : State), before.Ready → before.scope = place.scope →
    ∀ stmt after, declared steps before = .parsed stmt after → after.faults ≤ before.faults →
      ∃ (tokens : List Token) (declared : Declaration), Goes tokens before after ∧
        DeclarationOf place tokens declared ∧ stmt = declared.tree
  functionDeclaration : ∀ (place : Place) (before : State), before.Ready →
    before.scope = place.scope → ∀ keyword : Token, keyword.kind = .kwFun → ∀ stmt after,
    functionDeclaration steps before = .parsed stmt after → after.faults ≤ before.faults →
      ∃ (tokens : List Token) (declared : Declaration), Goes tokens before after ∧
        DeclarationOf place (keyword :: tokens) declared ∧ stmt = declared.tree
  /-- A label may wait for the loop that the statement is. -/
  statement : ∀ (place : Place) (label : Option Name) (before : State), before.Ready →
    before.scope = place.scope →
    (startsLoop before.cursor.current.kind = false → label = none) → ∀ stmt after,
    statement steps (before.awaiting label) = .parsed stmt after → after.faults ≤ before.faults →
      ReadPhrase place label none before stmt after
  block : ∀ (place : Place) (before : State), before.Ready → before.scope = place.scope →
    ∀ stmts after, block steps before = .parsed stmts after → after.faults ≤ before.faults →
      ∃ (tokens : List Token) (close : Token) (body : List Declaration),
        Goes (tokens ++ [close]) before after ∧ close.kind = .rightBrace ∧
        RowOf place tokens body ∧ stmts = Declaration.trees body
  declarations : ∀ (place : Place) (before : State), before.Ready → before.scope = place.scope →
    ∀ stmts after, declarations steps before = .parsed stmts after → after.faults ≤ before.faults →
      ∃ (tokens : List Token) (body : List Declaration), Goes tokens before after ∧
        RowOf place tokens body ∧ stmts = Declaration.trees body
  ifStatement : ∀ (place : Place) (before : State), before.Ready → before.scope = place.scope →
    ∀ keyword : Token, keyword.kind = .kwIf → ∀ stmt after,
    ifStatement steps before = .parsed stmt after → after.faults ≤ before.faults →
      ReadPhrase place none (some keyword) before stmt after
  whileStatement : ∀ (place : Place) (label : Option Name) (before : State), before.Ready →
    before.scope = place.scope → ∀ keyword : Token, keyword.kind = .kwWhile → ∀ stmt after,
    whileStatement steps (before.awaiting label) = .parsed stmt after →
    after.faults ≤ before.faults → ReadPhrase place label (some keyword) before stmt after
  forStatement : ∀ (place : Place) (label : Option Name) (before : State), before.Ready →
    before.scope = place.scope → ∀ keyword : Token, keyword.kind = .kwFor → ∀ stmt after,
    forStatement steps (before.awaiting label) = .parsed stmt after →
    after.faults ≤ before.faults → ReadPhrase place label (some keyword) before stmt after
  labelledStatement : ∀ (place : Place) (before : State), before.Ready →
    before.scope = place.scope → ∀ colon : Token, colon.kind = .colon → ∀ stmt after,
    labelledStatement steps before = .parsed stmt after → after.faults ≤ before.faults →
      ReadPhrase place none (some colon) before stmt after

section Forms

variable {place : Place} {steps : Nat} {before after : State} {stmt : Stmt}

/-- A statement at the same place, with no label in front. -/
theorem StatementsSound.here (sound : StatementsSound steps) (ready : before.Ready)
    (scope : before.scope = place.scope) (run : Parser.statement steps before = .parsed stmt after)
    (clean : after.faults ≤ before.faults) : ReadPhrase place none none before stmt after := by
  refine sound.statement place none before ready scope (fun _ => rfl) stmt after ?_ clean
  rwa [State.awaiting_none (by rw [scope, Place.scope_pendingLoop])]

/-- The body of a loop. -/
theorem StatementsSound.loopBody (sound : StatementsSound steps) (ready : before.Ready)
    (scope : before.scope = place.scope)
    (run : withLoop (Parser.statement steps) before = .parsed stmt after)
    (clean : after.faults ≤ before.faults) :
    ReadPhrase (place.enter .loop) none none before stmt after := by
  rw [withLoop_eq] at run
  obtain ⟨inner, inside, rfl⟩ := within_run run
  have entered : { before.scope with context := before.scope.context.add .loop } =
      (place.enter .loop).scope := by rw [scope, Place.scope_enter_loop]
  rw [entered] at inside
  have readyInside : (before.under (place.enter .loop).scope).Ready :=
    ⟨ready.ended, rfl⟩
  obtain ⟨tokens, phrase, goes, phraseOf, begins, tree, stops⟩ :=
    sound.here readyInside (rfl : _ = (place.enter .loop).scope) inside clean
  refine ⟨tokens, phrase, ⟨goes.passes, ?_, goes.errors⟩, phraseOf, begins, tree, stops⟩
  change { inner.scope with context := before.scope.context } = before.scope
  rw [goes.scope, State.under, Place.scope_enter_loop, ← scope]

/-! Each of the forms of statement, after the token it begins with. -/

variable {label : Option Name} {token : Token}

theorem returnStatement_sound (kind : token.kind = .kwReturn) (ready : before.Ready)
    (scope : before.scope = place.scope)
    (run : returnStatement steps token before = .parsed stmt after)
    (clean : after.faults ≤ before.faults) :
    ReadPhrase place none (some token) before stmt after := by
  rw [returnStatement_eq, bind_eq_parsed] at run
  obtain ⟨around, same, scopeRun, run⟩ := run
  cases scopeRun
  rw [bind_eq_parsed] at run
  obtain ⟨_, middle, ruleRun, run⟩ := run
  obtain ⟨readyMiddle, less, -⟩ := (Contract.demand _ _ _).run ready ruleRun
  obtain ⟨tokens, value, goes, written, levelled, rfl⟩ :=
    terminated_run readyMiddle run (by omega)
  obtain ⟨inside, rfl⟩ := demand_run ruleRun (by rw [← goes.faults]; exact clean)
  refine ⟨tokens, .returning token.line value, goes, ⟨?_, levelled, ?_⟩,
    beginsWith_of_kind kind ⟨rfl, rfl⟩, rfl, by rintro ⟨⟩⟩
  · exact .cons (Mark.fits_on kind rfl) written
  · rwa [scope] at inside

theorem breakStatement_sound (kind : token.kind = .kwBreak) (ready : before.Ready)
    (scope : before.scope = place.scope) (run : breakStatement token before = .parsed stmt after)
    (clean : after.faults ≤ before.faults) :
    ReadPhrase place none (some token) before stmt after := by
  rw [breakStatement_jump] at run
  obtain ⟨name, tokens, rfl, goes, written, allowed⟩ := jump_run ready.ended run clean
  refine ⟨tokens, .breakOut token.line name, goes, ⟨?_, trivial, ?_⟩,
    beginsWith_of_kind kind ⟨rfl, rfl⟩, rfl, by rintro ⟨⟩⟩
  · exact .cons (Mark.fits_on kind rfl) written
  · rw [scope] at allowed
    exact (place.allowsBreak_iff name).mp allowed

theorem continueStatement_sound (kind : token.kind = .kwContinue) (ready : before.Ready)
    (scope : before.scope = place.scope) (run : continueStatement token before = .parsed stmt after)
    (clean : after.faults ≤ before.faults) :
    ReadPhrase place none (some token) before stmt after := by
  rw [continueStatement_jump] at run
  obtain ⟨name, tokens, rfl, goes, written, allowed⟩ := jump_run ready.ended run clean
  refine ⟨tokens, .continueOn token.line name, goes, ⟨?_, trivial, ?_⟩,
    beginsWith_of_kind kind ⟨rfl, rfl⟩, rfl, by rintro ⟨⟩⟩
  · exact .cons (Mark.fits_on kind rfl) written
  · rw [scope] at allowed
    exact (place.allowsContinue_iff name).mp allowed

/-- What comes after the token that a statement begins with. -/
theorem statementAfter_sound (ih : StatementsSound steps) (ready : before.Ready)
    (scope : before.scope = place.scope) (begins : statementKinds.contains token.kind)
    (loops : startsLoop token.kind = false → label = none)
    (run : statementAfter steps token (before.awaiting label) = .parsed stmt after)
    (clean : after.faults ≤ before.faults) :
    ReadPhrase place label (some token) before stmt after := by
  have plain (apart : startsLoop token.kind = false) :
      label = none ∧ before.awaiting label = before := by
    obtain rfl := loops apart
    exact ⟨rfl, State.awaiting_none ready.clear⟩
  simp only [statementKinds, List.contains_iff_mem, List.mem_cons, List.not_mem_nil, or_false]
    at begins
  rcases begins with kind | kind | kind | kind | kind | kind | kind | kind | kind <;>
    simp only [statementAfter, kind] at run
  · obtain ⟨rfl, same⟩ := plain (by rw [kind]; rfl)
    rw [same] at run
    obtain ⟨tokens, value, goes, written, levelled, rfl⟩ := terminated_run ready run clean
    exact ⟨tokens, .print value, goes,
      ⟨.cons (Mark.fits_fixed kind rfl) written, levelled, trivial⟩,
      beginsWith_of_kind kind ⟨rfl, rfl⟩, rfl, by rintro ⟨⟩⟩
  · obtain ⟨rfl, same⟩ := plain (by rw [kind]; rfl)
    rw [same, bind_eq_parsed] at run
    obtain ⟨stmts, last, blockRun, run⟩ := run
    cases run
    obtain ⟨tokens, close, body, goes, closeKind, rowOf, rfl⟩ :=
      ih.block place before ready scope stmts after blockRun clean
    refine ⟨tokens ++ [close], .block body, goes, ⟨?_, rowOf.formed, rowOf.obeys⟩,
      beginsWith_of_kind kind ⟨rfl, rfl⟩, rfl, by rintro ⟨⟩⟩
    exact .cons (Mark.fits_fixed kind rfl)
      (rowOf.written.append (.singleton (Mark.fits_fixed closeKind rfl)))
  · obtain ⟨rfl, same⟩ := plain (by rw [kind]; rfl)
    rw [same] at run
    exact ih.ifStatement place before ready scope token kind stmt after run clean
  · exact ih.whileStatement place label before ready scope token kind stmt after run clean
  · exact ih.forStatement place label before ready scope token kind stmt after run clean
  · obtain ⟨rfl, same⟩ := plain (by rw [kind]; rfl)
    rw [same] at run
    exact breakStatement_sound kind ready scope run clean
  · obtain ⟨rfl, same⟩ := plain (by rw [kind]; rfl)
    rw [same] at run
    exact continueStatement_sound kind ready scope run clean
  · obtain ⟨rfl, same⟩ := plain (by rw [kind]; rfl)
    rw [same] at run
    exact returnStatement_sound kind ready scope run clean
  · obtain ⟨rfl, same⟩ := plain (by rw [kind]; rfl)
    rw [same] at run
    exact ih.labelledStatement place before ready scope token kind stmt after run clean

theorem statement_sound (ih : StatementsSound steps) (ready : before.Ready)
    (scope : before.scope = place.scope)
    (loops : startsLoop before.cursor.current.kind = false → label = none)
    (run : Parser.statement (steps + 1) (before.awaiting label) = .parsed stmt after)
    (clean : after.faults ≤ before.faults) : ReadPhrase place label none before stmt after := by
  rw [statement_apply] at run
  split at run
  · rename_i begins
    have goes := goes_advance ready.ended (statementKinds_inside begins)
    exact .behind goes (statementAfter_sound ih (goes.ready ready) scope begins loops run
      (by rw [goes.faults]; exact clean))
  · rename_i plain
    have apart : startsLoop before.cursor.current.kind = false := by
      cases starts : startsLoop before.cursor.current.kind with
      | false => rfl
      | true =>
          rcases startsLoop_iff.mp starts with kind | kind <;>
            exact absurd (by simp [State.awaiting, statementKinds, kind]) plain
    obtain rfl := loops apart
    have other : statementKinds.contains before.cursor.current.kind = false := by
      simpa [State.awaiting] using plain
    rw [State.awaiting_none ready.clear] at run
    obtain ⟨tokens, value, goes, written, levelled, rfl⟩ := terminated_run ready run clean
    exact ⟨tokens, .expression value, goes, ⟨written, levelled, trivial⟩,
      Phrase.expression_beginsWith value other, rfl, by rintro ⟨⟩⟩

theorem ifStatement_sound (ih : StatementsSound steps) (kind : token.kind = .kwIf)
    (ready : before.Ready) (scope : before.scope = place.scope)
    (run : Parser.ifStatement (steps + 1) before = .parsed stmt after)
    (clean : after.faults ≤ before.faults) :
    ReadPhrase place none (some token) before stmt after := by
  rw [Parser.ifStatement] at run
  obtain ⟨condition, middle, run, readyMiddle, sameScope, less, conditionOf⟩ :=
    parenthesized_run ready run
  rw [bind_eq_parsed] at run
  obtain ⟨thenBranch, last, thenRun, run⟩ := run
  rw [bind_eq_parsed] at run
  obtain ⟨hasElse, behind, eaten, run⟩ := run
  have here : middle.scope = place.scope := sameScope.trans scope
  obtain ⟨readyLast, lessThen, thenScope⟩ :=
    (statementContracts steps).statement.run readyMiddle thenRun
  rcases eat_run readyLast.ended (by decide) eaten with
    ⟨rfl, rfl, other⟩ | ⟨rfl, otherwise, elseKind, goesElse⟩
  · cases run
    obtain ⟨tokens, phrase, goes, phraseOf, -, rfl, -⟩ :=
      ih.here readyMiddle here thenRun (by omega)
    obtain ⟨levelled, front, goesFront, writtenFront⟩ := conditionOf (by omega)
    refine ⟨front ++ tokens, .ifThen condition phrase, goesFront.trans goes,
      ⟨?_, ⟨levelled, phraseOf.formed⟩, phraseOf.obeys⟩, beginsWith_of_kind kind ⟨rfl, rfl⟩, rfl,
      fun _ => other⟩
    have written := writtenFront.append phraseOf.written
    simp only [List.cons_append, List.append_assoc, List.nil_append] at written
    exact .cons (Mark.fits_fixed kind rfl) written
  · rw [if_pos rfl, bind_eq_parsed] at run
    obtain ⟨elseBranch, final, elseRun, run⟩ := run
    cases run
    have readyBehind := goesElse.ready readyLast
    obtain ⟨-, lessElse, -⟩ := (statementContracts steps).statement.run readyBehind elseRun
    have sameElse := goesElse.faults
    have there : behind.scope = place.scope := by rw [goesElse.scope, thenScope, here]
    obtain ⟨tokens, phrase, goes, phraseOf, -, rfl, stops⟩ :=
      ih.here readyMiddle here thenRun (by omega)
    obtain ⟨others, second, goesSecond, secondOf, -, rfl, stopsSecond⟩ :=
      ih.here readyBehind there elseRun (by omega)
    obtain ⟨levelled, front, goesFront, writtenFront⟩ := conditionOf (by omega)
    -- The `else` was not taken by an `if` inside, so none was open.
    have closed : phrase.isOpen = false := by
      cases isOpen : phrase.isOpen with
      | false => rfl
      | true => exact absurd (by rw [goesElse.current, elseKind]) (stops isOpen)
    refine ⟨front ++ (tokens ++ otherwise :: others), .ifElse condition phrase second,
      goesFront.trans (goes.trans (goesElse.cons goesSecond)), ⟨?_, ?_, ?_⟩,
      beginsWith_of_kind kind ⟨rfl, rfl⟩, rfl, stopsSecond⟩
    · have written := writtenFront.append
        (phraseOf.written.append (.cons (Mark.fits_fixed elseKind rfl) secondOf.written))
      simp only [List.cons_append, List.append_assoc, List.nil_append] at written
      exact .cons (Mark.fits_fixed kind rfl) written
    · exact ⟨levelled, ⟨phraseOf.formed, closed⟩, secondOf.formed⟩
    · exact ⟨phraseOf.obeys, secondOf.obeys⟩

theorem whileStatement_sound (ih : StatementsSound steps) (kind : token.kind = .kwWhile)
    (ready : before.Ready) (scope : before.scope = place.scope)
    (run : Parser.whileStatement (steps + 1) (before.awaiting label) = .parsed stmt after)
    (clean : after.faults ≤ before.faults) :
    ReadPhrase place label (some token) before stmt after := by
  rw [Parser.whileStatement, bind_eq_parsed] at run
  obtain ⟨taken, start, takeRun, run⟩ := run
  rw [takePendingLoop_awaiting ready.clear] at takeRun
  cases takeRun
  obtain ⟨condition, middle, run, readyMiddle, sameScope, less, conditionOf⟩ :=
    parenthesized_run ready run
  rw [bind_eq_parsed] at run
  obtain ⟨body, last, bodyRun, run⟩ := run
  cases run
  obtain ⟨-, lessBody, -⟩ := (statementContracts steps).statement.withLoop.run readyMiddle bodyRun
  obtain ⟨tokens, phrase, goes, phraseOf, -, rfl, stops⟩ :=
    ih.loopBody readyMiddle (sameScope.trans scope) bodyRun (by omega)
  obtain ⟨levelled, front, goesFront, writtenFront⟩ := conditionOf (by omega)
  refine ⟨front ++ tokens, .whileLoop condition phrase, goesFront.trans goes,
    ⟨?_, ⟨levelled, phraseOf.formed⟩, phraseOf.obeys⟩,
    beginsWith_of_kind kind ⟨rfl, rfl⟩, rfl, stops⟩
  have written := writtenFront.append phraseOf.written
  simp only [List.cons_append, List.append_assoc, List.nil_append] at written
  exact .cons (Mark.fits_fixed kind rfl) written

theorem forStatement_sound (ih : StatementsSound steps) (kind : token.kind = .kwFor)
    (ready : before.Ready) (scope : before.scope = place.scope)
    (run : Parser.forStatement (steps + 1) (before.awaiting label) = .parsed stmt after)
    (clean : after.faults ≤ before.faults) :
    ReadPhrase place label (some token) before stmt after := by
  rw [Parser.forStatement, bind_eq_parsed] at run
  obtain ⟨taken, start, takeRun, run⟩ := run
  rw [takePendingLoop_awaiting ready.clear] at takeRun
  cases takeRun
  simp only [bind_eq_parsed] at run
  obtain ⟨opens, opened, openRun, first, atCondition, firstRun, condition, atSemicolon,
      conditionRun,
    semicolon, atLast, semicolonRun, last, atClose, lastRun, closes, atBody, closeRun, body, final,
    bodyRun, run⟩ := run
  cases run
  obtain ⟨openKind, goesOpen⟩ := expect_run ready.ended (by decide) openRun
  have readyOpened := goesOpen.ready ready
  obtain ⟨readyCondition, lessFirst, sameFirst⟩ :=
    (contract_firstClause steps).run readyOpened firstRun
  obtain ⟨readySemicolon, lessCondition, sameCondition⟩ :=
    (contract_optionalClause steps _).run readyCondition conditionRun
  obtain ⟨semicolonKind, goesSemicolon⟩ :=
    expect_run readySemicolon.ended (by decide) semicolonRun
  have readyLast := goesSemicolon.ready readySemicolon
  obtain ⟨readyClose, lessLast, sameLast⟩ :=
    (contract_optionalClause steps _).run readyLast lastRun
  obtain ⟨closeKind, goesClose⟩ := expect_run readyClose.ended (by decide) closeRun
  have readyBody := goesClose.ready readyClose
  obtain ⟨-, lessBody, -⟩ := (statementContracts steps).statement.withLoop.run readyBody bodyRun
  have here : atBody.scope = place.scope := by
    rw [goesClose.scope, sameLast, goesSemicolon.scope, sameCondition, sameFirst,
      goesOpen.scope, scope]
  have sameOpen := goesOpen.faults
  have sameSemicolon := goesSemicolon.faults
  have sameClose := goesClose.faults
  obtain ⟨firstTokens, clause, goesFirst, writtenFirst, clauseFormed, rfl⟩ :=
    firstClause_run readyOpened firstRun (by omega)
  obtain ⟨conditionTokens, goesCondition, writtenCondition, conditionFormed⟩ :=
    optionalClause_run readyCondition conditionRun (by omega)
  obtain ⟨lastTokens, goesLast, writtenLast, lastFormed⟩ :=
    optionalClause_run readyLast lastRun (by omega)
  obtain ⟨tokens, phrase, goes, phraseOf, -, rfl, stops⟩ :=
    ih.loopBody readyBody here bodyRun (by omega)
  refine ⟨opens :: (firstTokens ++ (conditionTokens ++ semicolon :: (lastTokens ++
    closes :: tokens))), .forLoop clause condition last phrase, ?_, ⟨?_, ?_, phraseOf.obeys⟩,
    beginsWith_of_kind kind ⟨rfl, rfl⟩, rfl, stops⟩
  · exact goesOpen.cons (goesFirst.trans (goesCondition.trans (goesSemicolon.cons
      (goesLast.trans (goesClose.cons goes)))))
  · exact .cons (Mark.fits_fixed kind rfl) (.cons (Mark.fits_fixed openKind rfl)
      (writtenFirst.append (writtenCondition.append (.cons (Mark.fits_fixed semicolonKind rfl)
        (writtenLast.append (.cons (Mark.fits_fixed closeKind rfl) phraseOf.written))))))
  · exact ⟨clauseFormed, conditionFormed, lastFormed, phraseOf.formed⟩

theorem labelledStatement_sound (ih : StatementsSound steps) (kind : token.kind = .colon)
    (ready : before.Ready) (scope : before.scope = place.scope)
    (run : Parser.labelledStatement (steps + 1) before = .parsed stmt after)
    (clean : after.faults ≤ before.faults) :
    ReadPhrase place none (some token) before stmt after := by
  rw [Parser.labelledStatement, bind_eq_parsed] at run
  obtain ⟨name, atTarget, nameRun, run⟩ := run
  rw [bind_eq_parsed] at run
  obtain ⟨target, same, targetRun, run⟩ := run
  cases targetRun
  obtain ⟨named, fits, goesName⟩ := expectName_run ready.ended nameRun
  have readyTarget := goesName.ready ready
  have here : atTarget.scope = place.scope := by rw [goesName.scope, scope]
  split at run
  · rename_i takes
    rw [bind_eq_parsed, withLabel_eq] at run
    obtain ⟨body, last, bodyRun, run⟩ := run
    cases run
    obtain ⟨inner, inside, rfl⟩ := within_run bodyRun
    generalize loops : startsLoop atTarget.cursor.current.kind = isLoop at inside clean
    have entered : atTarget.under { atTarget.scope with
        labels := atTarget.scope.labels.push name.text isLoop
        pendingLoop := if isLoop then some name else atTarget.scope.pendingLoop } =
        (atTarget.under (place.enter (.label name.text isLoop)).scope).awaiting
          (if isLoop then some name else none) := by
      rw [here, Place.scope_enter_label]
      rfl
    rw [entered] at inside
    have readyInside : (atTarget.under (place.enter (.label name.text isLoop)).scope).Ready :=
      ⟨readyTarget.ended, rfl⟩
    obtain ⟨tokens, phrase, goes, phraseOf, ⟨loopOf, mayBe⟩, rfl, stops⟩ := ih.statement
      (place.enter (.label name.text isLoop)) (if isLoop then some name else none) _ readyInside rfl
      (fun plain => by simp [← loops,
        show startsLoop atTarget.cursor.current.kind = false from plain])
      body inner inside (by
        have sameName := goesName.faults
        exact Nat.le_trans clean (Nat.le_of_eq sameName.symm))
    -- The first token of the statement tells whether it is a loop and that it may have the label.
    obtain rfl : phrase.isLoop = isLoop := loopOf.symm.trans loops
    have restored : Goes tokens atTarget (inner.under
        { inner.scope with labels := inner.scope.labels.pop phrase.isLoop }) := by
      refine ⟨goes.passes, ?_, goes.errors⟩
      change { inner.scope with labels := inner.scope.labels.pop phrase.isLoop } = atTarget.scope
      rw [goes.scope, State.under, Place.scope_enter_label, Labels.pop_push, here]
    refine ⟨named :: tokens, .labelled name phrase, goesName.cons restored,
      ⟨?_, ⟨mayBe.symm.trans takes, phraseOf.formed⟩, phraseOf.obeys⟩,
      beginsWith_of_kind kind ⟨rfl, rfl⟩, rfl, stops⟩
    exact .cons (Mark.fits_fixed kind rfl) (.cons fits phraseOf.written)
  · cases run

/-! ### Declarations -/

theorem declarations_sound (ih : StatementsSound steps) {stmts : List Stmt} (ready : before.Ready)
    (scope : before.scope = place.scope)
    (run : Parser.declarations (steps + 1) before = .parsed stmts after)
    (clean : after.faults ≤ before.faults) :
    ∃ (tokens : List Token) (body : List Declaration), Goes tokens before after ∧
      RowOf place tokens body ∧ stmts = Declaration.trees body := by
  rw [Parser.declarations, bind_eq_parsed] at run
  obtain ⟨closes, same, checked, run⟩ := run
  cases checked
  rw [bind_eq_parsed] at run
  obtain ⟨ends, same, ended, run⟩ := run
  cases ended
  split at run
  · cases run
    exact ⟨[], [], .refl _, .nil place, rfl⟩
  · rename_i goesOn
    have inside : before.cursor.current.kind ≠ .endOfInput := by
      intro kind
      simp [Cursor.atEnd, kind] at goesOn
    simp only [bind_eq_parsed] at run
    obtain ⟨first, middle, firstRun, rest, last, restRun, run⟩ := run
    cases run
    have kept := (statementContracts steps).declaration before ready inside
    rw [KeepsFrom, firstRun] at kept
    have keeps : before.Keeps true middle := kept
    have readyMiddle := keeps.ready ready.ended
    have here : middle.scope = place.scope := by
      rw [keeps.scope, Scope.settled_eq ready.clear, scope]
    obtain ⟨-, lessRest, -⟩ := (statementContracts steps).declarations.run readyMiddle restRun
    have less := keeps.faults
    obtain ⟨tokens, declared, goes, declarationOf, rfl⟩ :=
      ih.declaration place before ready scope inside first middle firstRun (by omega)
    obtain ⟨others, body, goesRest, rowOf, rfl⟩ :=
      ih.declarations place middle readyMiddle here rest after restRun (by omega)
    exact ⟨tokens ++ others, declared :: body, goes.trans goesRest, .cons declarationOf rowOf, rfl⟩

theorem block_sound (ih : StatementsSound steps) {stmts : List Stmt} (ready : before.Ready)
    (scope : before.scope = place.scope)
    (run : Parser.block (steps + 1) before = .parsed stmts after)
    (clean : after.faults ≤ before.faults) :
    ∃ (tokens : List Token) (close : Token) (body : List Declaration),
      Goes (tokens ++ [close]) before after ∧ close.kind = .rightBrace ∧
      RowOf place tokens body ∧ stmts = Declaration.trees body := by
  rw [Parser.block] at run
  simp only [bind_eq_parsed] at run
  obtain ⟨body, middle, bodyRun, close, last, closeRun, run⟩ := run
  cases run
  obtain ⟨readyMiddle, less, -⟩ := (statementContracts steps).declarations.run ready bodyRun
  obtain ⟨closeKind, goesClose⟩ := expect_run readyMiddle.ended (by decide) closeRun
  have same := goesClose.faults
  obtain ⟨tokens, declared, goes, rowOf, rfl⟩ :=
    ih.declarations place before ready scope stmts middle bodyRun (by omega)
  exact ⟨tokens, close, declared, goes.trans goesClose, closeKind, rowOf, rfl⟩

theorem functionDeclaration_sound (ih : StatementsSound steps) (kind : token.kind = .kwFun)
    (ready : before.Ready) (scope : before.scope = place.scope)
    (run : Parser.functionDeclaration (steps + 1) before = .parsed stmt after)
    (clean : after.faults ≤ before.faults) :
    ∃ (tokens : List Token) (declared : Declaration), Goes tokens before after ∧
      DeclarationOf place (token :: tokens) declared ∧ stmt = declared.tree := by
  rw [Parser.functionDeclaration] at run
  simp only [bind_eq_parsed] at run
  obtain ⟨name, atOpen, nameRun, opens, opened, openRun, parameters, atClose, parametersRun, closes,
    atBrace, closeRun, brace, atBody, braceRun, body, last, bodyRun, run⟩ := run
  cases run
  obtain ⟨named, fits, goesName⟩ := expectName_run ready.ended nameRun
  have readyOpen := goesName.ready ready
  obtain ⟨openKind, goesOpen⟩ := expect_run readyOpen.ended (by decide) openRun
  have readyOpened := goesOpen.ready readyOpen
  obtain ⟨readyClose, lessParameters, sameScope⟩ :=
    (contract_parameterList steps).run readyOpened parametersRun
  obtain ⟨closeKind, goesClose⟩ := expect_run readyClose.ended (by decide) closeRun
  have readyBrace := goesClose.ready readyClose
  obtain ⟨braceKind, goesBrace⟩ := expect_run readyBrace.ended (by decide) braceRun
  have readyBody := goesBrace.ready readyBrace
  have here : atBody.scope = place.scope := by
    rw [goesBrace.scope, goesClose.scope, sameScope, goesOpen.scope, goesName.scope, scope]
  rw [withFunctionBody_eq] at bodyRun
  obtain ⟨inner, inside, rfl⟩ := within_run bodyRun
  rw [here, Place.scope_enterFunction] at inside
  have readyInside : (atBody.under Place.functionBody.scope).Ready :=
    ⟨readyBody.ended, rfl⟩
  obtain ⟨-, lessBody, -⟩ := (statementContracts steps).block.run readyInside inside
  have sameName := goesName.faults
  have sameOpen := goesOpen.faults
  have sameClose := goesClose.faults
  have sameBrace := goesBrace.faults
  have lessBody' : atBody.faults ≤ inner.faults := lessBody
  have clean' : inner.faults ≤ before.faults := clean
  obtain ⟨inParameters, goesParameters, writtenParameters, few⟩ :=
    parameterList_run readyOpened parametersRun (by omega)
  obtain ⟨tokens, close, row, goesBody, closing, rowOf, rfl⟩ :=
    ih.block .functionBody _ readyInside rfl body inner inside
      (show inner.faults ≤ atBody.faults by omega)
  have restored : Goes (tokens ++ [close]) atBody (inner.under atBody.scope) :=
    ⟨goesBody.passes, rfl, goesBody.errors⟩
  refine ⟨named :: opens :: (inParameters ++ closes :: brace :: (tokens ++ [close])),
    .function name parameters row, ?_, ⟨?_, rowOf.formed, few, rowOf.obeys⟩, rfl⟩
  · exact goesName.cons (goesOpen.cons (goesParameters.trans (goesClose.cons
      (goesBrace.cons restored))))
  · exact .cons (Mark.fits_fixed kind rfl) (.cons fits (.cons (Mark.fits_fixed openKind rfl)
      (writtenParameters.append (.cons (Mark.fits_fixed closeKind rfl)
        (.cons (Mark.fits_fixed braceKind rfl)
          (rowOf.written.append (.singleton (Mark.fits_fixed closing rfl))))))))

theorem declared_sound (ih : StatementsSound steps) (ready : before.Ready)
    (scope : before.scope = place.scope)
    (run : Parser.declared (steps + 1) before = .parsed stmt after)
    (clean : after.faults ≤ before.faults) :
    ∃ (tokens : List Token) (declared : Declaration), Goes tokens before after ∧
      DeclarationOf place tokens declared ∧ stmt = declared.tree := by
  rw [Parser.declared, bind_eq_parsed] at run
  obtain ⟨isVar, middle, eaten, run⟩ := run
  rcases eat_run ready.ended (by decide) eaten with ⟨rfl, rfl, -⟩ | ⟨rfl, keyword, kind, goesVar⟩
  · rw [if_neg Bool.false_ne_true, bind_eq_parsed] at run
    obtain ⟨isFun, behind, eatenFun, run⟩ := run
    rcases eat_run ready.ended (by decide) eatenFun with ⟨rfl, rfl, -⟩
        | ⟨rfl, keyword, kind, goesFun⟩
    · obtain ⟨tokens, phrase, goes, phraseOf, -, rfl, -⟩ := ih.here ready scope run clean
      exact ⟨tokens, .statement phrase, goes,
        ⟨phraseOf.written, phraseOf.formed, phraseOf.obeys⟩, rfl⟩
    · obtain ⟨tokens, declared, goes, declarationOf, rfl⟩ := ih.functionDeclaration place behind
        (goesFun.ready ready) (by rw [goesFun.scope, scope]) keyword kind stmt after run
        (by rw [goesFun.faults]; exact clean)
      exact ⟨keyword :: tokens, declared, goesFun.cons goes, declarationOf, rfl⟩
  · obtain ⟨tokens, name, first, goes, written, levelled, rfl⟩ :=
      variableDeclaration_run (goesVar.ready ready) run (by rw [goesVar.faults]; exact clean)
    exact ⟨keyword :: tokens, .variable name first, goesVar.cons goes,
      ⟨.cons (Mark.fits_fixed kind rfl) written, levelled, trivial⟩, rfl⟩

/-- Without a report there was nothing to recover from. -/
theorem declaration_sound (ih : StatementsSound steps) {stmt? : Option Stmt}
    (ready : before.Ready) (scope : before.scope = place.scope)
    (run : Parser.declaration (steps + 1) before = .parsed stmt? after)
    (clean : after.faults ≤ before.faults) :
    ∃ (tokens : List Token) (declared : Declaration), Goes tokens before after ∧
      DeclarationOf place tokens declared ∧ stmt? = some declared.tree := by
  rw [Parser.declaration, recovering] at run
  cases result : Parser.declared steps before with
  | exhausted =>
      rw [result] at run
      cases run
  | failed last =>
      have kept := (statementContracts steps).declared before ready
      rw [KeepsFrom, result] at kept
      rw [result] at run
      cases run
      exact absurd clean (Nat.not_le_of_lt kept.2)
  | parsed stmt last =>
      rw [result] at run
      cases run
      obtain ⟨tokens, declared, goes, declarationOf, rfl⟩ :=
        ih.declared place before ready scope stmt after result clean
      exact ⟨tokens, declared, goes, declarationOf, rfl⟩

end Forms

theorem statementsSound : ∀ steps, StatementsSound steps
  | 0 => by
      constructor
      case statement => intro _ _ _ _ _ _ _ _ run; cases run
      case whileStatement => intro _ _ _ _ _ _ _ _ _ run; cases run
      case forStatement => intro _ _ _ _ _ _ _ _ _ run; cases run
      case functionDeclaration => intro _ _ _ _ _ _ _ _ run; cases run
      case ifStatement => intro _ _ _ _ _ _ _ _ run; cases run
      case labelledStatement => intro _ _ _ _ _ _ _ _ run; cases run
      case declaration => intro _ _ _ _ _ _ _ run; cases run
      all_goals intro _ _ _ _ _ _ run; cases run
  | steps + 1 => by
      have ih := statementsSound steps
      constructor
      case declaration => exact fun _ _ ready scope _ _ _ => declaration_sound ih ready scope
      case declared => exact fun _ _ ready scope _ _ => declared_sound ih ready scope
      case functionDeclaration =>
        exact fun _ _ ready scope _ kind _ _ => functionDeclaration_sound ih kind ready scope
      case statement =>
        exact fun _ _ _ ready scope loops _ _ => statement_sound ih ready scope loops
      case block => exact fun _ _ ready scope _ _ => block_sound ih ready scope
      case declarations => exact fun _ _ ready scope _ _ => declarations_sound ih ready scope
      case ifStatement =>
        exact fun _ _ ready scope _ kind _ _ => ifStatement_sound ih kind ready scope
      case whileStatement =>
        exact fun _ _ _ ready scope _ kind _ _ => whileStatement_sound ih kind ready scope
      case forStatement =>
        exact fun _ _ _ ready scope _ kind _ _ => forStatement_sound ih kind ready scope
      case labelledStatement =>
        exact fun _ _ ready scope _ kind _ _ => labelledStatement_sound ih kind ready scope

end Lox.Parser
