import Lox.Proofs.Parser.Places

/-!
Every lawful program of the surface language is read.

The tokens of a statement at a place are read as what becomes of the statement, in a state that has
the scope of the place, if no `else` follows to which an `if` in it would be open (`ReadsPhrase`).
There is one lemma for each form of statement, and the theorems for all statements, declarations and
rows of declarations (`phrase_reads`, `declaration_reads`, `declarations_read`) are assembled from
them along the tree.
-/

namespace Lox.Parser

open State

variable {α : Type}

/-! ### Parts of statements -/

/-- An expression and the token behind it. -/
theorem expression_goes {value : Expr} (levelled : value.WellLevelled) {tokens : List Token}
    {token : Token} {before middle after : State} {mark : Mark}
    (spells : Spells value.spelling tokens) (goes : Goes tokens before middle)
    (ends : Goes [token] middle after) (fits : mark.Fits token)
    (stops : mark.kind ∉ continuesExpression) : Reaches expression before value middle := by
  refine (reads_of_wellLevelled value levelled).expression spells goes ?_
  rwa [ends.current, fits.kind]

/-- An expression and the semicolon behind it. -/
theorem terminated_reads {value : Expr} (levelled : value.WellLevelled) (part : Missing)
    (make : Expr → Stmt) {tokens : List Token} {before after : State}
    (spells : Spells (value.spelling ++ [.fixed .semicolon]) tokens)
    (goes : Goes tokens before after) :
    Reaches (fun steps => do
      let value ← expression steps
      let _ ← expect .semicolon part
      return make value) before (make value) after := by
  obtain ⟨inside, last, rfl, spellsValue, spellsEnd⟩ := Spells.append_iff.mp spells
  obtain ⟨ends, none, rfl, fitsEnd, spellsNone⟩ := Spells.cons_iff.mp spellsEnd
  cases spellsNone
  obtain ⟨middle, goesValue, goesEnd⟩ := goes.split
  exact .bind (expression_goes levelled spellsValue goesValue goesEnd fitsEnd (by decide))
    (.bind (.of_eq (expect_goes goesEnd fitsEnd.kind _)) (.pure _ after))

theorem variableDeclaration_reads {name : Name} {first : Option Expr}
    (levelled : ∀ value ∈ first, value.WellLevelled) {tokens : List Token} {before after : State}
    (spells : Spells (.ofName name :: initializerSpelling first) tokens)
    (goes : Goes tokens before after) :
    Reaches variableDeclaration before (.define name first) after := by
  obtain ⟨named, rest, rfl, fits, spellsRest⟩ := Spells.cons_iff.mp spells
  obtain ⟨inside, last, rfl, spellsFirst, spellsEnd⟩ := Spells.append_iff.mp spellsRest
  obtain ⟨ends, none, rfl, fitsEnd, spellsNone⟩ := Spells.cons_iff.mp spellsEnd
  cases spellsNone
  obtain ⟨middle, goesName, goesRest⟩ := goes.splitCons
  obtain ⟨closing, goesFirst, goesEnd⟩ := goesRest.split
  simp only [funext variableDeclaration_eq]
  refine .bind (.of_eq (expectName_goes goesName fits _)) ?_
  have finish : Reaches (fun _ => expect .semicolon .semicolonAfterVariable >>= fun _ =>
      (pure (.define name first) : Parser Stmt)) closing (.define name first) after :=
    .bind (.of_eq (expect_goes goesEnd fitsEnd.kind _)) (.pure _ after)
  cases first with
  | none =>
      cases spellsFirst
      have same : closing = middle := goesFirst.unique (.refl middle)
      subst same
      refine .bind (.of_eq (eat_other (by rw [goesEnd.current, fitsEnd.kind]; decide))) ?_
      exact .bind (.of_eq rfl) finish
  | some value =>
      obtain ⟨equals, others, rfl, fitsEquals, spellsValue⟩ := Spells.cons_iff.mp spellsFirst
      obtain ⟨behind, goesEquals, goesValue⟩ := goesFirst.splitCons
      refine .bind (.of_eq (eat_goes goesEquals fitsEquals.kind)) ?_
      have read := expression_goes (levelled value rfl) spellsValue goesValue goesEnd fitsEnd
        (by decide)
      simp only [firstValue, if_true, map_eq_pure_bind]
      exact .bind (.bind read (.pure _ closing)) finish

/-- A clause of a `for` with the token that ends it. -/
theorem optionalClause_reads {value : Option Expr} (levelled : ∀ expr ∈ value, expr.WellLevelled)
    {close : TokenKind} {tokens : List Token} {token : Token} {before middle after : State}
    (spells : Spells (value.elim [] Expr.spelling) tokens) (goes : Goes tokens before middle)
    (ends : Goes [token] middle after) (fits : (Mark.fixed close).Fits token)
    (stops : close ∉ continuesExpression) (apart : close ∉ startsExpression) :
    Reaches (optionalClause · close) before value middle := by
  cases value with
  | none =>
      cases spells
      have same : middle = before := goes.unique (.refl before)
      subst same
      have closes : check close middle = .parsed true middle := by
        simp [check, Cursor.check, ends.current, fits.kind]
      exact .bind (.of_eq closes) (.pure none middle)
  | some expr =>
      have opens : check close before = .parsed false before := by
        obtain ⟨mark, marks, spelling, starts⟩ := expr.spelling_starts
        have other : mark.kind ≠ close := ne_of_mem_of_not_mem starts apart
        rw [Option.elim_some, spelling] at spells
        simp [check, Cursor.check, goes.kind spells, other]
      refine .bind (.of_eq opens) ?_
      exact .bind (expression_goes (levelled expr rfl) spells goes ends fits stops) (.pure _ middle)

theorem firstClause_reads {clause : Option Clause} (formed : ∀ given ∈ clause, given.WellFormed)
    {tokens : List Token} {before after : State}
    (spells : Spells (clause.elim [.fixed .semicolon] Clause.spelling) tokens)
    (goes : Goes tokens before after) :
    Reaches firstClause before (clause.map Clause.tree) after := by
  cases clause with
  | none =>
      obtain ⟨ends, none, rfl, fitsEnd, spellsNone⟩ := Spells.cons_iff.mp spells
      cases spellsNone
      exact .bind (.of_eq (eat_goes goes fitsEnd.kind)) (.pure none after)
  | some clause =>
      have levelled := formed clause rfl
      cases clause with
      | «variable» name first =>
          obtain ⟨keyword, rest, rfl, fits, spellsRest⟩ := Spells.cons_iff.mp spells
          obtain ⟨middle, goesKeyword, goesRest⟩ := goes.splitCons
          refine .bind (.of_eq (eat_other (by rw [goes.current, fits.kind]; decide))) ?_
          refine .bind (.of_eq (eat_goes goesKeyword fits.kind)) ?_
          exact .bind (variableDeclaration_reads levelled spellsRest goesRest) (.pure _ after)
      | expression value =>
          have starts : before.cursor.current.kind ∈ startsExpression := by
            obtain ⟨mark, marks, spelling, starts⟩ := value.spelling_starts
            rw [Option.elim_some, Clause.spelling, spelling, List.cons_append] at spells
            rwa [goes.kind spells]
          refine .bind (.of_eq (eat_other (ne_of_mem_of_not_mem starts (by decide)))) ?_
          refine .bind (.of_eq (eat_other (ne_of_mem_of_not_mem starts (by decide)))) ?_
          exact .bind (terminated_reads levelled _ _ spells goes) (.pure _ after)

/-- Parameters with commas between them, when `count` parameters have been read. -/
theorem parametersFrom_reads {first : Name} {rest : List Name} {count : Nat}
    (few : count + (first :: rest).length ≤ argumentLimit) {tokens : List Token}
    {before after : State}
    (spells : Spells (separated ((first :: rest).map fun parameter => [.ofName parameter])) tokens)
    (goes : Goes tokens before after) (closes : after.cursor.current.kind = .rightParen) :
    Reaches (parametersFrom · count) before (first :: rest) after := by
  induction rest generalizing first count tokens before with
  | nil =>
      obtain ⟨named, none, rfl, fits, spellsNone⟩ := Spells.cons_iff.mp spells
      cases spellsNone
      rw [List.length_singleton] at few
      refine .step ?_
      simp only [parametersFrom]
      refine .bind (.of_eq (checkLimit_below (by omega))) ?_
      refine .bind (.of_eq (expectName_goes goes fits _)) ?_
      exact .bind (.of_eq (eat_other (by rw [closes]; decide))) (.pure _ after)
  | cons second rest ih =>
      simp only [List.map_cons, separated, List.cons_append, List.nil_append] at spells
      obtain ⟨named, more, rfl, fits, spellsMore⟩ := Spells.cons_iff.mp spells
      obtain ⟨comma, others, rfl, fitsComma, spellsRest⟩ := Spells.cons_iff.mp spellsMore
      obtain ⟨atComma, goesName, goesMore⟩ := goes.splitCons
      obtain ⟨behind, goesComma, goesRest⟩ := goesMore.splitCons
      simp only [List.length_cons] at few ih
      refine .step ?_
      simp only [parametersFrom]
      refine .bind (.of_eq (checkLimit_below (by omega))) ?_
      refine .bind (.of_eq (expectName_goes goesName fits _)) ?_
      refine .bind (.of_eq (eat_goes goesComma fitsComma.kind)) ?_
      exact .bind (ih (by omega) spellsRest goesRest) (.pure _ after)

theorem parameterList_reads {parameters : List Name} (few : parameters.length ≤ argumentLimit)
    {tokens : List Token} {before after : State}
    (spells : Spells (separated (parameters.map fun parameter => [.ofName parameter])) tokens)
    (goes : Goes tokens before after) (closes : after.cursor.current.kind = .rightParen) :
    Reaches parameterList before parameters after := by
  cases parameters with
  | nil =>
      cases spells
      have same : after = before := goes.unique (.refl before)
      subst same
      have found : check .rightParen after = .parsed true after := by
        simp [check, Cursor.check, closes]
      exact .bind (.of_eq found) (.pure _ after)
  | cons first rest =>
      have absent : check .rightParen before = .parsed false before := by
        have spelled : ∃ more, Spells (.ofName first :: more) tokens := by
          cases rest <;>
            simp only [List.map_cons, separated, List.cons_append] at spells <;> exact ⟨_, spells⟩
        obtain ⟨more, spelled⟩ := spelled
        obtain ⟨token, others, rfl, fits, -⟩ := Spells.cons_iff.mp spelled
        simp [check, Cursor.check, goes.current, fits.kind]
      exact .bind (.of_eq absent) (parametersFrom_reads (by omega) spells goes closes)

/-! ### Statements -/

/-- The tokens of a statement at a place are read as what becomes of it with a label in front of
it. -/
def ReadsPhrase (place : Place) (phrase : Phrase) : Prop :=
  ∀ ⦃tokens : List Token⦄ ⦃before after : State⦄ (label : Option Name),
    Spells phrase.spelling tokens → Goes tokens before after → before.scope = place.scope →
    (phrase.isLoop = false → label = none) →
    (phrase.isOpen = true → after.cursor.current.kind ≠ .kwElse) →
      Reaches statement (before.awaiting label) (phrase.tree label) after

/-- The tokens of a declaration at a place are read as what becomes of it. -/
def ReadsDeclaration (place : Place) (declared : Declaration) : Prop :=
  ∀ ⦃tokens : List Token⦄ ⦃before after : State⦄, Spells declared.spelling tokens →
    Goes tokens before after → before.scope = place.scope → after.cursor.current.kind ≠ .kwElse →
      Reaches declaration before (some declared.tree) after

/-- A statement that begins with a token of its own. -/
theorem statement_keyword {token : Token} {before middle after : State} {stmt : Stmt}
    (goes : Goes [token] before middle) (begins : statementKinds.contains token.kind)
    (label : Option Name)
    (rest : Reaches (statementAfter · token) (middle.awaiting label) stmt after) :
    Reaches statement (before.awaiting label) stmt after := by
  obtain ⟨enough, rest⟩ := rest
  refine .step ⟨enough, fun steps le => ?_⟩
  have current : (before.awaiting label).cursor.current = token := goes.current
  have advanced : { before.awaiting label with cursor := (before.awaiting label).cursor.advance } =
      middle.awaiting label := by
    rw [← goes.advance]
    rfl
  change statement (steps + 1) (before.awaiting label) = _
  rw [statement_apply, current, if_pos begins, ← rest steps le, ← advanced]
  rfl

/-- For statements that are no loops no label waits. -/
theorem ReadsPhrase.of_plain {place : Place} {phrase : Phrase} (plain : phrase.isLoop = false)
    (reads : ∀ ⦃tokens : List Token⦄ ⦃before after : State⦄, Spells phrase.spelling tokens →
      Goes tokens before after → before.scope = place.scope →
      (phrase.isOpen = true → after.cursor.current.kind ≠ .kwElse) →
        Reaches statement before (phrase.tree none) after) : ReadsPhrase place phrase := by
  intro tokens before after label spells goes scope unlabelled stops
  rw [unlabelled plain, State.awaiting_none (by rw [scope, Place.scope_pendingLoop])]
  exact reads spells goes scope stops

/-- A statement without a label that begins with a token of its own. -/
theorem statement_plainKeyword {token : Token} {before middle after : State} {stmt : Stmt}
    {place : Place} (scope : before.scope = place.scope) (goes : Goes [token] before middle)
    (begins : statementKinds.contains token.kind)
    (rest : Reaches (statementAfter · token) middle stmt after) :
    Reaches statement before stmt after := by
  have clear : before.scope.pendingLoop = none := by rw [scope, Place.scope_pendingLoop]
  have clear' : middle.scope.pendingLoop = none := by rw [goes.scope, clear]
  rw [← State.awaiting_none clear]
  exact statement_keyword goes begins none (by rwa [State.awaiting_none clear'])

section Forms

variable {place : Place}

theorem readsPhrase_expression {value : Expr} (levelled : value.WellLevelled) :
    ReadsPhrase place (.expression value) := by
  refine .of_plain rfl ?_
  intro tokens before after spells goes scope _
  have plain : statementKinds.contains before.cursor.current.kind = false := by
    obtain ⟨mark, marks, spelling, starts⟩ := value.spelling_starts
    rw [Phrase.spelling, spelling, List.cons_append] at spells
    rw [goes.kind spells]
    exact startsExpression_plain starts
  obtain ⟨enough, read⟩ :=
    terminated_reads levelled .semicolonAfterExpression .expression spells goes
  refine .step ⟨enough, fun steps le => ?_⟩
  change statement (steps + 1) before = _
  rw [statement_apply, plain, if_neg Bool.false_ne_true]
  exact read steps le

theorem readsPhrase_print {value : Expr} (levelled : value.WellLevelled) :
    ReadsPhrase place (.print value) := by
  refine .of_plain rfl ?_
  intro tokens before after spells goes scope _
  obtain ⟨keyword, rest, rfl, fits, spellsRest⟩ := Spells.cons_iff.mp spells
  obtain ⟨middle, goesKeyword, goesRest⟩ := goes.splitCons
  refine statement_plainKeyword scope goesKeyword (by rw [fits.kind]; rfl) ?_
  simp only [statementAfter, fits.kind, Mark.kind_fixed]
  exact terminated_reads levelled _ _ spellsRest goesRest

theorem readsPhrase_returning {line : Nat} {value : Expr} (levelled : value.WellLevelled)
    (inside : place.inFunction = true) : ReadsPhrase place (.returning line value) := by
  refine .of_plain rfl ?_
  intro tokens before after spells goes scope _
  obtain ⟨keyword, rest, rfl, fits, spellsRest⟩ := Spells.cons_iff.mp spells
  obtain ⟨middle, goesKeyword, goesRest⟩ := goes.splitCons
  refine statement_plainKeyword scope goesKeyword (by rw [fits.kind]; rfl) ?_
  have allowed : middle.scope.context.inFunction = true := by
    rw [goesKeyword.scope, scope]; exact inside
  simp only [statementAfter, fits.kind, Mark.kind_on, returnStatement_eq, fits.line]
  refine .bind (.of_eq (rfl : Parser.scope middle = _)) ?_
  simp only [allowed]
  exact .bind (.of_eq rfl) (terminated_reads levelled _ _ spellsRest goesRest)

theorem readsPhrase_breakOut {line : Nat} {label : Option Name}
    (allowed : place.AllowsBreak label) :
    ReadsPhrase place (.breakOut line label) := by
  refine .of_plain rfl ?_
  intro tokens before after spells goes scope _
  obtain ⟨keyword, rest, rfl, fits, spellsRest⟩ := Spells.cons_iff.mp spells
  obtain ⟨middle, goesKeyword, goesRest⟩ := goes.splitCons
  refine statement_plainKeyword scope goesKeyword (by rw [fits.kind]; rfl) ?_
  simp only [statementAfter, fits.kind, Mark.kind_on, breakStatement_jump, fits.line]
  refine .of_eq (jump_reads spellsRest goesRest ?_)
  rw [goesKeyword.scope, scope]
  exact (place.allowsBreak_iff label).mpr allowed

theorem readsPhrase_continueOn {line : Nat} {label : Option Name}
    (allowed : place.AllowsContinue label) : ReadsPhrase place (.continueOn line label) := by
  refine .of_plain rfl ?_
  intro tokens before after spells goes scope _
  obtain ⟨keyword, rest, rfl, fits, spellsRest⟩ := Spells.cons_iff.mp spells
  obtain ⟨middle, goesKeyword, goesRest⟩ := goes.splitCons
  refine statement_plainKeyword scope goesKeyword (by rw [fits.kind]; rfl) ?_
  simp only [statementAfter, fits.kind, Mark.kind_on, continueStatement_jump, fits.line]
  refine .of_eq (jump_reads spellsRest goesRest ?_)
  rw [goesKeyword.scope, scope]
  exact (place.allowsContinue_iff label).mpr allowed

/-- An expression in parentheses behind a keyword. -/
theorem parenthesized_reads {condition : Expr} (levelled : condition.WellLevelled)
    {marks : List Mark} {tokens : List Token} {before after : State} {opening closing : Missing}
    {next : Nat → Expr → Parser α} {value : α}
    (spells :
      Spells (.fixed .leftParen :: (condition.spelling ++ .fixed .rightParen :: marks)) tokens)
    (goes : Goes tokens before after)
    (rest : ∀ ⦃inside : List Token⦄ ⦃middle : State⦄,
      Spells marks inside → Goes inside middle after → middle.scope = before.scope →
        Reaches (next · condition) middle value after) :
    Reaches (fun steps => do
      let _ ← expect .leftParen opening
      let condition ← expression steps
      let _ ← expect .rightParen closing
      next steps condition) before value after := by
  obtain ⟨opens, more, rfl, fitsOpen, spellsMore⟩ := Spells.cons_iff.mp spells
  obtain ⟨first, more, rfl, spellsCondition, spellsMore⟩ := Spells.append_iff.mp spellsMore
  obtain ⟨closes, inside, rfl, fitsClose, spellsRest⟩ := Spells.cons_iff.mp spellsMore
  obtain ⟨opened, goesOpen, goesMore⟩ := goes.splitCons
  obtain ⟨atClose, goesCondition, goesMore⟩ := goesMore.split
  obtain ⟨middle, goesClose, goesRest⟩ := goesMore.splitCons
  refine .bind (.of_eq (expect_goes goesOpen fitsOpen.kind _)) ?_
  refine .bind (expression_goes levelled spellsCondition goesCondition goesClose fitsClose
    (by decide)) ?_
  refine .bind (.of_eq (expect_goes goesClose fitsClose.kind _)) ?_
  exact rest spellsRest goesRest (by rw [goesClose.scope, goesCondition.scope, goesOpen.scope])

/-- A statement at the same place, with no label in front. -/
theorem ReadsPhrase.here {phrase : Phrase} (reads : ReadsPhrase place phrase) {tokens : List Token}
    {before after : State} (spells : Spells phrase.spelling tokens)
    (goes : Goes tokens before after) (scope : before.scope = place.scope)
    (stops : phrase.isOpen = true → after.cursor.current.kind ≠ .kwElse) :
    Reaches statement before (phrase.tree none) after := by
  have read := reads none spells goes scope (fun _ => rfl) stops
  rwa [State.awaiting_none (by rw [scope, Place.scope_pendingLoop])] at read

theorem readsPhrase_ifThen {condition : Expr} {thenBranch : Phrase}
    (levelled : condition.WellLevelled) (reads : ReadsPhrase place thenBranch) :
    ReadsPhrase place (.ifThen condition thenBranch) := by
  refine .of_plain rfl ?_
  intro tokens before after spells goes scope stops
  have noElse := stops rfl
  obtain ⟨keyword, rest, rfl, fits, spellsRest⟩ := Spells.cons_iff.mp spells
  obtain ⟨middle, goesKeyword, goesRest⟩ := goes.splitCons
  refine statement_plainKeyword scope goesKeyword (by rw [fits.kind]; rfl) ?_
  simp only [statementAfter, fits.kind, Mark.kind_fixed]
  refine .step ?_
  simp only [ifStatement]
  refine parenthesized_reads levelled spellsRest goesRest
    fun inside branch spellsThen goesThen same => ?_
  have here : branch.scope = place.scope := by rw [same, goesKeyword.scope, scope]
  refine .bind (reads.here spellsThen goesThen here fun _ => noElse) ?_
  exact .bind (.of_eq (eat_other noElse)) (.pure _ after)

theorem readsPhrase_ifElse {condition : Expr} {thenBranch elseBranch : Phrase}
    (levelled : condition.WellLevelled) (readsThen : ReadsPhrase place thenBranch)
    (closed : thenBranch.isOpen = false) (readsElse : ReadsPhrase place elseBranch) :
    ReadsPhrase place (.ifElse condition thenBranch elseBranch) := by
  refine .of_plain rfl ?_
  intro tokens before after spells goes scope stops
  obtain ⟨keyword, rest, rfl, fits, spellsRest⟩ := Spells.cons_iff.mp spells
  obtain ⟨middle, goesKeyword, goesRest⟩ := goes.splitCons
  refine statement_plainKeyword scope goesKeyword (by rw [fits.kind]; rfl) ?_
  simp only [statementAfter, fits.kind, Mark.kind_fixed]
  refine .step ?_
  simp only [ifStatement]
  refine parenthesized_reads levelled spellsRest goesRest
    fun inside branch spellsInside goesInside same => ?_
  obtain ⟨first, more, rfl, spellsThen, spellsMore⟩ := Spells.append_iff.mp spellsInside
  obtain ⟨other, second, rfl, fitsElse, spellsElse⟩ := Spells.cons_iff.mp spellsMore
  obtain ⟨atElse, goesThen, goesMore⟩ := goesInside.split
  obtain ⟨behind, goesOther, goesElse⟩ := goesMore.splitCons
  have here : branch.scope = place.scope := by rw [same, goesKeyword.scope, scope]
  have there : behind.scope = place.scope := by rw [goesOther.scope, goesThen.scope, here]
  refine .bind (readsThen.here spellsThen goesThen here fun isOpen => ?_) ?_
  · rw [closed] at isOpen
    cases isOpen
  · refine .bind (.of_eq (eat_goes goesOther fitsElse.kind)) ?_
    exact .bind (readsElse.here spellsElse goesElse there stops) (.pure _ after)

/-- The body of a loop. -/
theorem loopBody_reads {body : Phrase} (reads : ReadsPhrase (place.enter .loop) body)
    {tokens : List Token} {before after : State} (spells : Spells body.spelling tokens)
    (goes : Goes tokens before after) (scope : before.scope = place.scope)
    (stops : body.isOpen = true → after.cursor.current.kind ≠ .kwElse) :
    Reaches (fun steps => withLoop (statement steps)) before (body.tree none) after := by
  simp only [withLoop_eq]
  have entered : { before.scope with context := before.scope.context.add .loop } =
      (place.enter .loop).scope := by rw [scope, Place.scope_enter_loop]
  refine .within (place.enter .loop).scope place.scope ?_ ?_ ?_
  · rw [entered]
    exact reads.here spells (goes.under _) rfl stops
  · rw [Place.scope_enter_loop, scope]
  · rw [goes.scope, scope]

theorem readsPhrase_whileLoop {condition : Expr} {body : Phrase} (levelled : condition.WellLevelled)
    (reads : ReadsPhrase (place.enter .loop) body) :
    ReadsPhrase place (.whileLoop condition body) := by
  intro tokens before after label spells goes scope _ stops
  obtain ⟨keyword, rest, rfl, fits, spellsRest⟩ := Spells.cons_iff.mp spells
  obtain ⟨middle, goesKeyword, goesRest⟩ := goes.splitCons
  have here : middle.scope = place.scope := by rw [goesKeyword.scope, scope]
  refine statement_keyword goesKeyword (by rw [fits.kind]; rfl) label ?_
  simp only [statementAfter, fits.kind, Mark.kind_fixed]
  refine .step ?_
  simp only [whileStatement]
  refine .bind (.of_eq (takePendingLoop_awaiting (by rw [here, Place.scope_pendingLoop]))) ?_
  refine parenthesized_reads levelled spellsRest goesRest
    fun inside start spellsBody goesBody same => ?_
  exact .bind (loopBody_reads reads spellsBody goesBody (same.trans here) stops) (.pure _ after)

theorem readsPhrase_forLoop {first : Option Clause} {condition last : Option Expr} {body : Phrase}
    (formed : (Phrase.forLoop first condition last body).WellFormed)
    (reads : ReadsPhrase (place.enter .loop) body) :
    ReadsPhrase place (.forLoop first condition last body) := by
  obtain ⟨firstFormed, conditionFormed, lastFormed, -⟩ := formed
  intro tokens before after label spells goes scope _ stops
  obtain ⟨keyword, more, rfl, fits, spellsMore⟩ := Spells.cons_iff.mp spells
  obtain ⟨opens, more, rfl, fitsOpen, spellsMore⟩ := Spells.cons_iff.mp spellsMore
  obtain ⟨firstTokens, more, rfl, spellsFirst, spellsMore⟩ := Spells.append_iff.mp spellsMore
  obtain ⟨conditionTokens, more, rfl, spellsCondition, spellsMore⟩ :=
    Spells.append_iff.mp spellsMore
  obtain ⟨semicolon, more, rfl, fitsSemicolon, spellsMore⟩ := Spells.cons_iff.mp spellsMore
  obtain ⟨lastTokens, more, rfl, spellsLast, spellsMore⟩ := Spells.append_iff.mp spellsMore
  obtain ⟨closes, bodyTokens, rfl, fitsClose, spellsBody⟩ := Spells.cons_iff.mp spellsMore
  obtain ⟨middle, goesKeyword, goesMore⟩ := goes.splitCons
  obtain ⟨opened, goesOpen, goesMore⟩ := goesMore.splitCons
  obtain ⟨atCondition, goesFirst, goesMore⟩ := goesMore.split
  obtain ⟨atSemicolon, goesCondition, goesMore⟩ := goesMore.split
  obtain ⟨atLast, goesSemicolon, goesMore⟩ := goesMore.splitCons
  obtain ⟨atClose, goesLast, goesMore⟩ := goesMore.split
  obtain ⟨atBody, goesClose, goesBody⟩ := goesMore.splitCons
  have here : middle.scope = place.scope := by rw [goesKeyword.scope, scope]
  have there : atBody.scope = place.scope := by
    rw [goesClose.scope, goesLast.scope, goesSemicolon.scope, goesCondition.scope, goesFirst.scope,
      goesOpen.scope, here]
  refine statement_keyword goesKeyword (by rw [fits.kind]; rfl) label ?_
  simp only [statementAfter, fits.kind, Mark.kind_fixed]
  refine .step ?_
  simp only [forStatement]
  refine .bind (.of_eq (takePendingLoop_awaiting (by rw [here, Place.scope_pendingLoop]))) ?_
  refine .bind (.of_eq (expect_goes goesOpen fitsOpen.kind _)) ?_
  refine .bind (firstClause_reads firstFormed spellsFirst goesFirst) ?_
  refine .bind (optionalClause_reads conditionFormed spellsCondition goesCondition goesSemicolon
    fitsSemicolon (by decide) (by decide)) ?_
  refine .bind (.of_eq (expect_goes goesSemicolon fitsSemicolon.kind _)) ?_
  refine .bind (optionalClause_reads lastFormed spellsLast goesLast goesClose fitsClose (by decide)
    (by decide)) ?_
  refine .bind (.of_eq (expect_goes goesClose fitsClose.kind _)) ?_
  exact .bind (loopBody_reads reads spellsBody goesBody there stops) (.pure _ after)

theorem readsPhrase_labelled {label : Name} {target : Phrase} (may : target.mayBeLabelled = true)
    (reads : ReadsPhrase (place.enter (.label label.text target.isLoop)) target) :
    ReadsPhrase place (.labelled label target) := by
  refine .of_plain rfl ?_
  intro tokens before after spells goes scope stops
  obtain ⟨keyword, more, rfl, fits, spellsMore⟩ := Spells.cons_iff.mp spells
  obtain ⟨named, rest, rfl, fitsName, spellsTarget⟩ := Spells.cons_iff.mp spellsMore
  obtain ⟨middle, goesKeyword, goesMore⟩ := goes.splitCons
  obtain ⟨atTarget, goesName, goesTarget⟩ := goesMore.splitCons
  have here : atTarget.scope = place.scope := by rw [goesName.scope, goesKeyword.scope, scope]
  obtain ⟨mark, marks, spelling, -, loops, takes⟩ := target.spelling_starts
  have kind : atTarget.cursor.current.kind = mark.kind := goesTarget.kind (spelling ▸ spellsTarget)
  refine statement_plainKeyword scope goesKeyword (by rw [fits.kind]; rfl) ?_
  simp only [statementAfter, fits.kind, Mark.kind_fixed]
  refine .step ?_
  simp only [labelledStatement]
  refine .bind (.of_eq (expectName_goes goesName fitsName _)) ?_
  refine .bind (.of_eq (rfl : current atTarget = _)) ?_
  simp only [kind, loops, takes, may, if_true, withLabel_eq]
  refine .bind (.within (place.enter (.label label.text target.isLoop)).scope place.scope ?_ ?_ ?_)
    (.pure _ after)
  · have entered : atTarget.under { atTarget.scope with
        labels := atTarget.scope.labels.push label.text target.isLoop
        pendingLoop := if target.isLoop then some label else atTarget.scope.pendingLoop } =
        (atTarget.under (place.enter (.label label.text target.isLoop)).scope).awaiting
          (if target.isLoop then some label else none) := by
      rw [here, Place.scope_enter_label]
      rfl
    rw [entered]
    exact reads _ spellsTarget (goesTarget.under _) rfl (fun plain => by simp [plain]) stops
  · rw [Place.scope_enter_label, Labels.pop_push]
  · rw [goesTarget.scope, here]

end Forms

/-! ### Rows of declarations -/

section Rows

variable {place : Place}

theorem Reaches.recovering {parser : Nat → Parser α} {before after : State} {value : α}
    (reaches : Reaches parser before value after) :
    Reaches (fun steps => recovering (parser steps)) before (some value) after := by
  obtain ⟨enough, reaches⟩ := reaches
  refine ⟨enough, fun steps le => ?_⟩
  change Parser.recovering (parser steps) before = _
  rw [Parser.recovering, reaches steps le]

/-- A loop that reads declarations until a token with which none begins. -/
structure ReadsRows (loop : Nat → Parser (List Stmt)) (close : TokenKind) : Prop where
  stops : ∀ state : State, state.cursor.current.kind = close → Reaches loop state [] state
  goesOn : ∀ state : State, state.cursor.current.kind ∈ startsDeclaration → ∀ rest after,
    Reaches (fun steps => do
      let first ← declaration steps
      return first.toList ++ (← loop steps)) state rest after → Reaches loop state rest after

theorem readsRows_declarations : ReadsRows declarations .rightBrace where
  stops state closes := by
    refine .step ?_
    simp only [declarations]
    refine .bind (.of_eq (rfl : check .rightBrace state = _)) ?_
    refine .bind (.of_eq (rfl : atEnd state = _)) ?_
    simp only [Cursor.check, closes, beq_self_eq_true, Bool.true_or, if_true]
    exact .pure [] state
  goesOn state starts rest after row := by
    have notClose : (state.cursor.current.kind == .rightBrace) = false :=
      beq_eq_false_iff_ne.mpr (ne_of_mem_of_not_mem starts (by decide))
    have notEnd : (state.cursor.current.kind == .endOfInput) = false :=
      beq_eq_false_iff_ne.mpr (ne_of_mem_of_not_mem starts (by decide))
    refine .step ?_
    simp only [declarations]
    refine .bind (.of_eq (rfl : check .rightBrace state = _)) ?_
    refine .bind (.of_eq (rfl : atEnd state = _)) ?_
    simp only [Cursor.check, Cursor.atEnd, notClose, notEnd, Bool.or_false,
      Bool.false_eq_true, if_false]
    exact row

theorem readsRows_program : ReadsRows program .endOfInput where
  stops state closes := by
    refine .step ?_
    simp only [program]
    refine .bind (.of_eq (rfl : atEnd state = _)) ?_
    simp only [Cursor.atEnd, closes, beq_self_eq_true, if_true]
    exact .pure [] state
  goesOn state starts rest after row := by
    have notEnd : state.cursor.atEnd = false :=
      beq_eq_false_iff_ne.mpr (ne_of_mem_of_not_mem starts (by decide))
    refine .step ?_
    simp only [program]
    refine .bind (.of_eq (rfl : atEnd state = _)) ?_
    simp only [notEnd, Bool.false_eq_true, if_false]
    exact row

/-- A row of declarations is read as what becomes of them, none left out. -/
theorem row_reads {loop : Nat → Parser (List Stmt)} {close : TokenKind}
    (rows : ReadsRows loop close) (noElse : close ≠ .kwElse) {body : List Declaration}
    (all : ∀ declared ∈ body, ReadsDeclaration place declared) {tokens : List Token}
    {before after : State} (spells : Spells (Declaration.spellings body) tokens)
    (goes : Goes tokens before after) (scope : before.scope = place.scope)
    (closes : after.cursor.current.kind = close) :
    Reaches loop before (Declaration.trees body) after := by
  induction body generalizing tokens before with
  | nil =>
      cases spells
      have same : after = before := goes.unique (.refl before)
      subst same
      exact rows.stops after closes
  | cons first rest ih =>
      obtain ⟨left, right, rfl, spellsFirst, spellsRest⟩ := Spells.append_iff.mp spells
      obtain ⟨middle, goesFirst, goesRest⟩ := goes.split
      have starts : before.cursor.current.kind ∈ startsDeclaration := by
        obtain ⟨mark, marks, spelling, starts⟩ := first.spelling_starts
        rwa [goesFirst.kind (spelling ▸ spellsFirst)]
      -- The next token begins another declaration or closes the row, so it is no `else`.
      have stops : middle.cursor.current.kind ≠ .kwElse := by
        cases rest with
        | nil =>
            cases spellsRest
            have same : after = middle := goesRest.unique (.refl middle)
            rwa [← same, closes]
        | cons second others =>
            obtain ⟨mark, marks, spelling, starts⟩ := second.spelling_starts
            have spelled := spellsRest
            rw [Declaration.spellings, spelling] at spelled
            rw [goesRest.kind spelled]
            exact ne_of_mem_of_not_mem starts (by decide)
      have here : middle.scope = place.scope := by rw [goesFirst.scope, scope]
      refine rows.goesOn before starts _ after ?_
      refine .bind (all first List.mem_cons_self spellsFirst goesFirst scope stops) ?_
      exact .bind (ih (fun declared member => all declared (List.mem_cons_of_mem _ member))
        spellsRest goesRest here) (.pure _ after)

/-- A row of declarations and the brace behind it. -/
theorem block_reads {body : List Declaration}
    (all : ∀ declared ∈ body, ReadsDeclaration place declared) {tokens : List Token}
    {before after : State}
    (spells : Spells (Declaration.spellings body ++ [.fixed .rightBrace]) tokens)
    (goes : Goes tokens before after) (scope : before.scope = place.scope) :
    Reaches block before (Declaration.trees body) after := by
  obtain ⟨inside, last, rfl, spellsBody, spellsEnd⟩ := Spells.append_iff.mp spells
  obtain ⟨closes, none, rfl, fitsClose, spellsNone⟩ := Spells.cons_iff.mp spellsEnd
  cases spellsNone
  obtain ⟨middle, goesBody, goesClose⟩ := goes.split
  have closing : middle.cursor.current.kind = .rightBrace := by
    rw [goesClose.current, fitsClose.kind, Mark.kind_fixed]
  refine .step ?_
  simp only [block]
  refine .bind
    (row_reads readsRows_declarations (by decide) all spellsBody goesBody scope closing) ?_
  exact .bind (.of_eq (expect_goes goesClose fitsClose.kind _)) (.pure _ after)

theorem readsPhrase_block {body : List Declaration}
    (all : ∀ declared ∈ body, ReadsDeclaration place declared) :
    ReadsPhrase place (.block body) := by
  refine .of_plain rfl ?_
  intro tokens before after spells goes scope _
  obtain ⟨opens, rest, rfl, fits, spellsRest⟩ := Spells.cons_iff.mp spells
  obtain ⟨middle, goesOpen, goesRest⟩ := goes.splitCons
  refine statement_plainKeyword scope goesOpen (by rw [fits.kind]; rfl) ?_
  simp only [statementAfter, fits.kind, Mark.kind_fixed]
  exact .bind (block_reads all spellsRest goesRest (by rw [goesOpen.scope, scope])) (.pure _ after)

/-- A declaration is read if its parser, which recovers from mistakes, finds none. -/
theorem ReadsDeclaration.of_declared {declared : Declaration}
    (reads : ∀ ⦃tokens : List Token⦄ ⦃before after : State⦄, Spells declared.spelling tokens →
      Goes tokens before after → before.scope = place.scope → after.cursor.current.kind ≠ .kwElse →
        Reaches Parser.declared before declared.tree after) : ReadsDeclaration place declared := by
  intro tokens before after spells goes scope stops
  refine .step ?_
  simp only [declaration]
  exact .recovering (reads spells goes scope stops)

theorem readsDeclaration_variable {name : Name} {first : Option Expr}
    (levelled : ∀ value ∈ first, value.WellLevelled) :
    ReadsDeclaration place (.variable name first) := by
  refine .of_declared ?_
  intro tokens before after spells goes _ _
  obtain ⟨keyword, rest, rfl, fits, spellsRest⟩ := Spells.cons_iff.mp spells
  obtain ⟨middle, goesKeyword, goesRest⟩ := goes.splitCons
  refine .step ?_
  simp only [declared]
  refine .bind (.of_eq (eat_goes goesKeyword fits.kind)) ?_
  exact variableDeclaration_reads levelled spellsRest goesRest

theorem readsDeclaration_function {name : Name} {parameters : List Name} {body : List Declaration}
    (few : parameters.length ≤ argumentLimit)
    (all : ∀ declared ∈ body, ReadsDeclaration .functionBody declared) :
    ReadsDeclaration place (.function name parameters body) := by
  refine .of_declared ?_
  intro tokens before after spells goes scope _
  obtain ⟨keyword, more, rfl, fits, spellsMore⟩ := Spells.cons_iff.mp spells
  obtain ⟨named, more, rfl, fitsName, spellsMore⟩ := Spells.cons_iff.mp spellsMore
  obtain ⟨opens, more, rfl, fitsOpen, spellsMore⟩ := Spells.cons_iff.mp spellsMore
  obtain ⟨inside, more, rfl, spellsParameters, spellsMore⟩ := Spells.append_iff.mp spellsMore
  obtain ⟨closes, more, rfl, fitsClose, spellsMore⟩ := Spells.cons_iff.mp spellsMore
  obtain ⟨brace, rest, rfl, fitsBrace, spellsBody⟩ := Spells.cons_iff.mp spellsMore
  obtain ⟨atName, goesKeyword, goesMore⟩ := goes.splitCons
  obtain ⟨atOpen, goesName, goesMore⟩ := goesMore.splitCons
  obtain ⟨atParameters, goesOpen, goesMore⟩ := goesMore.splitCons
  obtain ⟨atClose, goesParameters, goesMore⟩ := goesMore.split
  obtain ⟨atBrace, goesClose, goesMore⟩ := goesMore.splitCons
  obtain ⟨atBody, goesBrace, goesBody⟩ := goesMore.splitCons
  have closing : atClose.cursor.current.kind = .rightParen := by
    rw [goesClose.current, fitsClose.kind, Mark.kind_fixed]
  refine .step ?_
  simp only [declared]
  refine .bind (.of_eq (eat_other (by rw [goes.current, fits.kind]; decide))) ?_
  refine .bind (.of_eq (eat_goes goesKeyword fits.kind)) ?_
  refine .step ?_
  simp only [functionDeclaration]
  refine .bind (.of_eq (expectName_goes goesName fitsName _)) ?_
  refine .bind (.of_eq (expect_goes goesOpen fitsOpen.kind _)) ?_
  refine .bind (parameterList_reads few spellsParameters goesParameters closing) ?_
  refine .bind (.of_eq (expect_goes goesClose fitsClose.kind _)) ?_
  refine .bind (.of_eq (expect_goes goesBrace fitsBrace.kind _)) ?_
  have here : atBody.scope = place.scope := by
    rw [goesBrace.scope, goesClose.scope, goesParameters.scope, goesOpen.scope, goesName.scope,
      goesKeyword.scope, scope]
  have entered : atBody.scope.enterFunction = Place.functionBody.scope := by
    rw [here, Place.scope_enterFunction]
  simp only [withFunctionBody_eq]
  refine .bind (.within atBody.scope.enterFunction atBody.scope ?_ rfl goesBody.scope)
    (.pure _ after)
  exact block_reads all spellsBody (goesBody.under _) entered

theorem readsDeclaration_statement {phrase : Phrase} (reads : ReadsPhrase place phrase) :
    ReadsDeclaration place (.statement phrase) := by
  refine .of_declared ?_
  intro tokens before after spells goes scope stops
  have starts : before.cursor.current.kind ∈ startsPhrase := by
    obtain ⟨mark, marks, spelling, starts, -⟩ := phrase.spelling_starts
    rw [Declaration.spelling, spelling] at spells
    rwa [goes.kind spells]
  refine .step ?_
  simp only [declared]
  refine .bind (.of_eq (eat_other (ne_of_mem_of_not_mem starts (by decide)))) ?_
  refine .bind (.of_eq (eat_other (ne_of_mem_of_not_mem starts (by decide)))) ?_
  exact reads.here spells goes scope fun _ => stops

end Rows

/-! ### Programs -/

mutual

/-- The tokens of a lawful statement are read as what becomes of it. -/
theorem phrase_reads : ∀ (phrase : Phrase) (place : Place), phrase.WellFormed → phrase.Obeys place →
    ReadsPhrase place phrase
  | .expression _, _, formed, _ => readsPhrase_expression formed
  | .print _, _, formed, _ => readsPhrase_print formed
  | .block body, place, formed, obeys =>
      readsPhrase_block (declarations_read body place formed obeys)
  | .ifThen _ thenBranch, place, formed, obeys =>
      readsPhrase_ifThen formed.1 (phrase_reads thenBranch place formed.2 obeys)
  | .ifElse _ thenBranch elseBranch, place, formed, obeys =>
      readsPhrase_ifElse formed.1 (phrase_reads thenBranch place formed.2.1.1 obeys.1) formed.2.1.2
        (phrase_reads elseBranch place formed.2.2 obeys.2)
  | .whileLoop _ body, place, formed, obeys =>
      readsPhrase_whileLoop formed.1 (phrase_reads body (place.enter .loop) formed.2 obeys)
  | .forLoop _ _ _ body, place, formed, obeys =>
      readsPhrase_forLoop formed (phrase_reads body (place.enter .loop) formed.2.2.2 obeys)
  | .breakOut _ _, _, _, obeys => readsPhrase_breakOut obeys
  | .continueOn _ _, _, _, obeys => readsPhrase_continueOn obeys
  | .returning _ _, _, formed, obeys => readsPhrase_returning formed obeys
  | .labelled label target, place, formed, obeys =>
      readsPhrase_labelled formed.1
        (phrase_reads target (place.enter (.label label.text target.isLoop)) formed.2 obeys)

/-- The tokens of a lawful declaration are read as what becomes of it. -/
theorem declaration_reads : ∀ (declared : Declaration) (place : Place), declared.WellFormed →
    declared.Obeys place → ReadsDeclaration place declared
  | .variable _ _, _, formed, _ => readsDeclaration_variable formed
  | .function _ _ body, _, formed, obeys =>
      readsDeclaration_function obeys.1 (declarations_read body .functionBody formed obeys.2)
  | .statement phrase, place, formed, obeys =>
      readsDeclaration_statement (phrase_reads phrase place formed obeys)

/-- The tokens of each of a row of lawful declarations are read as what becomes of it. -/
theorem declarations_read : ∀ (body : List Declaration) (place : Place),
    Declaration.AllWellFormed body → Declaration.AllObey body place →
      ∀ declared ∈ body, ReadsDeclaration place declared
  | [], _, _, _ => by simp
  | first :: rest, place, formed, obeys => by
      have firstReads := declaration_reads first place formed.1 obeys.1
      have restReads := declarations_read rest place formed.2 obeys.2
      exact List.forall_mem_cons.mpr ⟨firstReads, restReads⟩

end

end Lox.Parser
