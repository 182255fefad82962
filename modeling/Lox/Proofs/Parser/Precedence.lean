import Lox.Proofs.Parser.Reading

/-!
The parser of expressions reads its precedence grammar, and nothing else.

One direction goes over trees: the tokens of a tree that the ladder allows, followed by a token with
which no expression goes on, are read as that tree (`Expr.reads`). A row of operators is read from
the left by a loop that is given what has been read so far, so the statement for a level speaks of
the loop: after the tokens of a tree, the parser of the level is where its loop is with that tree
(`LeadsTo`).

The other direction goes over runs: what is read without a report is a tree that the ladder allows,
the tokens passed are its tokens, and the next token does not go on with it (`expressionsSound`).
-/

namespace Lox

/-! ### The ladder -/

theorem Level.rank_bounds (level : Level) : 1 ≤ level.rank ∧ level.rank ≤ 6 := by
  cases level <;> decide

theorem Level.rank_inj {level other : Level} (same : level.rank = other.rank) : level = other := by
  cases level <;> cases other <;> first | rfl | cases same

theorem Level.rank_of_tighter {level tighter : Level} (next : level.tighter? = some tighter) :
    tighter.rank = level.rank + 1 := by
  cases level <;> cases next <;> rfl

theorem Level.rank_of_tightest {level : Level} (last : level.tighter? = none) : level.rank = 6 := by
  cases level <;> first | rfl | cases last

/-- A token that does not go on with an operand of a level: it is no operator of a tighter level and
opens no list of arguments. -/
def Level.Stops (level : Level) (kind : TokenKind) : Prop :=
  kind ≠ .leftParen ∧ ∀ tighter : Level, level.rank < tighter.rank → tighter.operator? kind = none

theorem Level.stops_tighter {level tighter : Level} {kind : TokenKind}
    (next : level.tighter? = some tighter) :
    level.Stops kind ↔ tighter.Stops kind ∧ tighter.operator? kind = none := by
  have rank := rank_of_tighter next
  constructor
  · rintro ⟨opens, none⟩
    exact ⟨⟨opens, fun other less => none other (by omega)⟩, none tighter (by omega)⟩
  · rintro ⟨⟨opens, none⟩, same⟩
    refine ⟨opens, fun other less => ?_⟩
    by_cases equal : other.rank = tighter.rank
    · exact rank_inj equal ▸ same
    · exact none other (by omega)

theorem Level.stops_tightest {level : Level} {kind : TokenKind} (last : level.tighter? = none) :
    level.Stops kind ↔ kind ≠ .leftParen := by
  have rank := rank_of_tightest last
  constructor
  · exact And.left
  · intro opens
    refine ⟨opens, fun other less => ?_⟩
    have := other.rank_bounds
    omega

theorem InfixOp.kind_inj {op other : InfixOp} (same : op.kind = other.kind) : op = other := by
  rcases op with op | op <;> rcases other with other | other <;> cases op <;> cases other <;>
    first | rfl | cases same

/-- An operator does not go on with the operands of its own level. -/
theorem InfixOp.stops (op : InfixOp) : op.level.Stops op.kind := by
  constructor
  · rcases op with op | op <;> cases op <;> rintro ⟨⟩
  · intro tighter less
    cases found : tighter.operator? op.kind with
    | none => rfl
    | some other =>
        obtain ⟨level, kind⟩ := Level.operator?_eq_some.mp found
        rw [← level, InfixOp.kind_inj kind] at less
        exact absurd less (Nat.lt_irrefl _)

theorem InfixOp.kind_continues (op : InfixOp) : op.kind ∈ continuesExpression := by
  rcases op with op | op <;> cases op <;> decide

theorem not_mem_continuesExpression {kind : TokenKind} : kind ∉ continuesExpression ↔
    kind ≠ .equal ∧ Level.or.Stops kind ∧ Level.or.operator? kind = none := by
  constructor
  · intro stops
    have none (level : Level) : level.operator? kind = none := by
      cases found : level.operator? kind with
      | none => rfl
      | some op => exact absurd ((Level.operator?_eq_some.mp found).2 ▸ op.kind_continues) stops
    refine ⟨?_, ⟨?_, fun tighter _ => none tighter⟩, none .or⟩
    · rintro rfl
      exact stops (by decide)
    · rintro rfl
      exact stops (by decide)
  · rintro ⟨equal, ⟨opens, none⟩, noOr⟩ continues
    have noOther (level : Level) (less : 1 < level.rank) := none level less
    simp only [continuesExpression, List.mem_cons, List.not_mem_nil, or_false] at continues
    rcases continues with rfl | rfl | rfl | rfl | rfl | rfl | rfl | rfl | rfl | rfl | rfl | rfl |
      rfl | rfl
    · exact equal rfl
    · exact opens rfl
    · cases noOr
    · cases noOther .and (by decide)
    · cases noOther .equality (by decide)
    · cases noOther .equality (by decide)
    · cases noOther .comparison (by decide)
    · cases noOther .comparison (by decide)
    · cases noOther .comparison (by decide)
    · cases noOther .comparison (by decide)
    · cases noOther .sum (by decide)
    · cases noOther .sum (by decide)
    · cases noOther .product (by decide)
    · cases noOther .product (by decide)

/-- What is at least a call does not begin with a prefix operator. -/
theorem Expr.spelling_starts_call {expr : Expr} (wellLevelled : expr.WellLevelled)
    (tight : 8 ≤ expr.rank) :
    ∃ mark rest, expr.spelling = mark :: rest ∧ prefixOp? mark.kind = none := by
  induction expr with
  | literal value =>
      refine ⟨_, _, rfl, ?_⟩
      rcases value with _ | ⟨_ | _⟩ | _ | _ <;> rfl
  | named name => exact ⟨_, _, rfl, rfl⟩
  | group inner _ => exact ⟨_, _, rfl, rfl⟩
  | unary op line operand _ => simp [Expr.rank] at tight
  | operation op line left right _ _ =>
      have := op.level.rank_bounds
      rw [Expr.rank_combine] at tight
      omega
  | assign name value _ => simp [Expr.rank] at tight
  | call callee arguments closeLine first _ =>
      obtain ⟨mark, rest, spelling, starts⟩ := first wellLevelled.1.2 wellLevelled.1.1
      exact ⟨mark, _, by rw [Expr.spelling, spelling, List.cons_append], starts⟩

namespace Parser

open State

variable {α : Type}

/-! ### Trees are read -/

/-- The tokens of some marks are read as a value, if the next token is one that stops there. -/
def ReadsAs (parser : Nat → Parser α) (stops : TokenKind → Prop) (marks : List Mark) (value : α) :
    Prop :=
  ∀ ⦃tokens : List Token⦄ ⦃before after : State⦄, Spells marks tokens → Goes tokens before after →
    stops after.cursor.current.kind → Reaches parser before value after

/-- After the tokens of some marks the first parser is where the second one starts, if the next
token is one that stops there. -/
def LeadsTo (parser rest : Nat → Parser α) (stops : TokenKind → Prop) (marks : List Mark) : Prop :=
  ∀ ⦃tokens : List Token⦄ ⦃before middle : State⦄, Spells marks tokens → Goes tokens before middle →
    stops middle.cursor.current.kind → ∀ ⦃value : α⦄ ⦃after : State⦄,
      Reaches rest middle value after → Reaches parser before value after

/-- What every parser on the ladder makes of the tokens of a tree. -/
structure Reads (expr : Expr) : Prop where
  expression : ReadsAs Parser.expression (· ∉ continuesExpression) expr.spelling expr
  operation : ∀ level : Level, level.rank ≤ expr.rank →
    LeadsTo (operation · level) (operationFrom · level expr) level.Stops expr.spelling
  unary : 7 ≤ expr.rank → ReadsAs Parser.unary (· ≠ .leftParen) expr.spelling expr
  call : 8 ≤ expr.rank → LeadsTo Parser.call (callFrom · expr) (fun _ => True) expr.spelling

theorem operationFrom_stops {level : Level} {expr : Expr} {state : State}
    (stops : level.operator? state.cursor.current.kind = none) :
    Reaches (operationFrom · level expr) state expr state := by
  refine .step ?_
  simp only [operationFrom]
  exact .bind (.of_eq (eatInfix?_of_none stops)) (.pure expr state)

theorem callFrom_stops {expr : Expr} {state : State}
    (stops : state.cursor.current.kind ≠ .leftParen) :
    Reaches (callFrom · expr) state expr state := by
  refine .step ?_
  simp only [callFrom]
  exact .bind (.of_eq (eat?_other stops)) (.pure expr state)

section Climb

variable {expr : Expr} {level : Level} {marks : List Mark}

theorem operation_of_operand (operand : ReadsAs (operand · level) level.Stops marks expr) :
    LeadsTo (operation · level) (operationFrom · level expr) level.Stops marks := by
  intro tokens before middle spells goes stops value after rest
  refine .step ?_
  simp only [Parser.operation]
  exact .bind (operand spells goes stops) rest

theorem operand_of_unary (last : level.tighter? = none)
    (unary : ReadsAs Parser.unary (· ≠ .leftParen) marks expr) :
    ReadsAs (operand · level) level.Stops marks expr := by
  intro tokens before after spells goes stops
  refine .step ?_
  simp only [Parser.operand, last]
  exact unary spells goes ((Level.stops_tightest last).mp stops)

theorem operand_of_operation {tighter : Level} (next : level.tighter? = some tighter)
    (above : LeadsTo (operation · tighter) (operationFrom · tighter expr) tighter.Stops marks) :
    ReadsAs (operand · level) level.Stops marks expr := by
  intro tokens before after spells goes stops
  obtain ⟨stopsTighter, none⟩ := (Level.stops_tighter next).mp stops
  refine .step ?_
  simp only [Parser.operand, next]
  exact above spells goes stopsTighter (operationFrom_stops none)

/-- What is read on one level is read on all looser ones. -/
theorem operation_of_tighter {base : Level} (level : Level) (looser : level.rank ≤ base.rank)
    (tight : LeadsTo (operation · base) (operationFrom · base expr) base.Stops marks) :
    LeadsTo (operation · level) (operationFrom · level expr) level.Stops marks := by
  by_cases same : level.rank = base.rank
  · rwa [Level.rank_inj same]
  · cases next : level.tighter? with
    | none =>
        have := Level.rank_of_tightest next
        have := base.rank_bounds
        omega
    | some tighter =>
        have rank := Level.rank_of_tighter next
        have above := operation_of_tighter tighter (by omega) tight
        exact operation_of_operand (operand_of_operation next above)
  termination_by base.rank - level.rank

theorem operand_of_reads (reads : Reads expr) (tight : level.rank < expr.rank) :
    ReadsAs (operand · level) level.Stops expr.spelling expr := by
  cases next : level.tighter? with
  | none =>
      have := Level.rank_of_tightest next
      exact operand_of_unary next (reads.unary (by omega))
  | some tighter =>
      have := Level.rank_of_tighter next
      exact operand_of_operation next (reads.operation tighter (by omega))

theorem expression_of_operation
    (loosest : LeadsTo (operation · .or) (operationFrom · .or expr) Level.or.Stops marks) :
    ReadsAs Parser.expression (· ∉ continuesExpression) marks expr := by
  intro tokens before after spells goes stops
  obtain ⟨equal, stopsOr, none⟩ := not_mem_continuesExpression.mp stops
  refine .step ?_
  simp only [Parser.expression]
  exact .bind (loosest spells goes stopsOr (operationFrom_stops none))
    (.bind (.of_eq (eat?_other equal)) (.pure expr after))

/-- A tree of one of the levels is read on all looser ones. -/
theorem Reads.of_operation {base : Level} (rank : expr.rank = base.rank)
    (tight : LeadsTo (Parser.operation · base)
      (operationFrom · base expr) base.Stops expr.spelling) :
    Reads expr := by
  have bounds := base.rank_bounds
  refine ⟨?_, ?_, fun _ => ?_, fun _ => ?_⟩
  · exact expression_of_operation (operation_of_tighter .or bounds.1 tight)
  · intro level looser
    exact operation_of_tighter level (by omega) tight
  · omega
  · omega

/-- A tree that is tighter than all levels is read on all of them. -/
theorem Reads.of_unary
    (unary : ReadsAs Parser.unary (· ≠ .leftParen) expr.spelling expr)
    (call : 8 ≤ expr.rank → LeadsTo Parser.call (callFrom · expr) (fun _ => True) expr.spelling) :
    Reads expr := by
  have product : LeadsTo (Parser.operation · .product) (operationFrom · .product expr)
      Level.product.Stops expr.spelling :=
    operation_of_operand (operand_of_unary (by rfl) unary)
  refine ⟨?_, ?_, fun _ => unary, call⟩
  · exact expression_of_operation (operation_of_tighter .or (by decide) product)
  · intro level _
    exact operation_of_tighter level (show level.rank ≤ Level.product.rank from level.rank_bounds.2)
      product

theorem Reads.of_call (wellLevelled : expr.WellLevelled) (tight : 8 ≤ expr.rank)
    (call : LeadsTo Parser.call (callFrom · expr) (fun _ => True) expr.spelling) : Reads expr := by
  refine .of_unary ?_ fun _ => call
  intro tokens before after spells goes stops
  obtain ⟨mark, rest, spelling, starts⟩ := Expr.spelling_starts_call wellLevelled tight
  have absent : prefixOp? before.cursor.current.kind = none := by
    rw [goes.kind (spelling ▸ spells), starts]
  refine .step ?_
  simp only [Parser.unary]
  exact .bind (.of_eq (eatPrefix?_of_none absent)) (call spells goes trivial (callFrom_stops stops))

theorem Reads.of_primary (wellLevelled : expr.WellLevelled) (tight : 8 ≤ expr.rank)
    (primary : ReadsAs Parser.primary (fun _ => True) expr.spelling expr) : Reads expr := by
  refine .of_call wellLevelled tight ?_
  intro tokens before middle spells goes _ value after rest
  refine .step ?_
  simp only [Parser.call]
  exact .bind (primary spells goes trivial) rest

end Climb

/-- A token that is an expression by itself. -/
theorem primary_atom {mark : Mark} {expr : Expr}
    (atom : ∀ token : Token, mark.Fits token → atom? token = some expr) :
    ReadsAs primary (fun _ => True) [mark] expr := by
  intro tokens before after spells goes _
  obtain ⟨token, rest, rfl, fits, none⟩ := Spells.cons_iff.mp spells
  cases none
  refine .step ?_
  simp only [primary]
  refine .bind (.of_eq (rfl : current before = _)) ?_
  simp only [goes.current, atom token fits]
  exact .bind (.of_eq (advance_goes goes)) (.pure expr after)

theorem reads_literal (value : Literal) : Reads (.literal value) := by
  refine .of_primary trivial (by simp [Expr.rank]) (primary_atom fun token fits => ?_)
  obtain ⟨symbol, -⟩ := fits
  have kind : token.kind = value.symbol.kind := by rw [← token.symbol_kind, symbol]
  unfold Token.symbol at symbol
  rcases value with _ | ⟨_ | _⟩ | _ | _
  · simp_all [Literal.symbol, Symbol.kind, atom?]
  · simp_all [Literal.symbol, Symbol.kind, atom?]
  · simp_all [Literal.symbol, Symbol.kind, atom?]
  · simp only [Literal.symbol, Symbol.kind] at kind symbol
    split at symbol <;> simp_all [atom?, literalValue]
  · simp only [Literal.symbol, Symbol.kind] at kind symbol
    split at symbol <;> simp_all [atom?, literalValue]

theorem reads_variable (name : Name) : Reads (.variable name) := by
  refine .of_primary trivial (by simp [Expr.rank]) (primary_atom fun token fits => ?_)
  obtain ⟨kind, rfl⟩ := Mark.fits_ofName.mp fits
  simp [atom?, kind]

theorem reads_group {inner : Expr} (wellLevelled : inner.WellLevelled) (reads : Reads inner) :
    Reads (.group inner) := by
  refine .of_primary wellLevelled (by simp [Expr.rank]) ?_
  intro tokens before after spells goes _
  simp only [Expr.spelling] at spells
  obtain ⟨opens, rest, rfl, fitsOpen, spellsRest⟩ := Spells.cons_iff.mp spells
  obtain ⟨inside, last, rfl, spellsInner, spellsClose⟩ := Spells.append_iff.mp spellsRest
  obtain ⟨closes, none, rfl, fitsClose, spellsNone⟩ := Spells.cons_iff.mp spellsClose
  cases spellsNone
  obtain ⟨opened, goesOpen, goesRest⟩ := goes.splitCons
  obtain ⟨closing, goesInner, goesClose⟩ := goesRest.split
  have noAtom : atom? opens = none := by
    unfold atom?
    rw [fitsOpen.kind]
    rfl
  refine .step ?_
  simp only [primary]
  refine .bind (.of_eq (rfl : current before = _)) ?_
  simp only [goes.current, noAtom]
  refine .bind (.of_eq (eat_goes goesOpen fitsOpen.kind)) ?_
  have stops : closing.cursor.current.kind ∉ continuesExpression := by
    rw [goesClose.current, fitsClose.kind]
    decide
  exact .bind (reads.expression spellsInner goesInner stops)
    (.bind (.of_eq (expect_goes goesClose fitsClose.kind _)) (.pure _ after))

theorem reads_unary {op : UnaryOp} {line : Nat} {operand : Expr} (tight : 7 ≤ operand.rank)
    (reads : Reads operand) : Reads (.unary op line operand) := by
  refine .of_unary ?_ (by simp [Expr.rank])
  intro tokens before after spells goes stops
  obtain ⟨token, rest, rfl, fits, spellsRest⟩ := Spells.cons_iff.mp spells
  obtain ⟨middle, goesFirst, goesRest⟩ := goes.splitCons
  have found : prefixOp? before.cursor.current.kind = some op := by
    rw [goes.current, fits.kind, prefixOp?_eq_some, Mark.kind_on]
  refine .step ?_
  simp only [unary]
  refine .bind (.of_eq (eatPrefix?_of_some found)) ?_
  rw [goesFirst.advance, goes.current, fits.line]
  exact .bind (reads.unary tight spellsRest goesRest stops) (.pure _ after)

theorem reads_operation {op : InfixOp} {line : Nat} {left right : Expr}
    (leftTight : op.level.rank ≤ left.rank) (readsLeft : Reads left)
    (rightTight : op.level.rank < right.rank) (readsRight : Reads right) :
    Reads (op.combine line left right) := by
  refine .of_operation (Expr.rank_combine op line left right) ?_
  intro tokens before middle spells goes stops value after rest
  rw [Expr.spelling_combine] at spells
  obtain ⟨first, more, rfl, spellsLeft, spellsMore⟩ := Spells.append_iff.mp spells
  obtain ⟨token, second, rfl, fits, spellsRight⟩ := Spells.cons_iff.mp spellsMore
  obtain ⟨atOperator, goesLeft, goesMore⟩ := goes.split
  obtain ⟨atRight, goesOperator, goesRight⟩ := goesMore.splitCons
  have kind : atOperator.cursor.current.kind = op.kind := by
    rw [goesOperator.current, fits.kind, InfixOp.kind_mark]
  have found : op.level.operator? atOperator.cursor.current.kind = some op :=
    Level.operator?_eq_some.mpr ⟨rfl, kind.symm⟩
  -- The loop of the left operand finds the operator, reads the right operand, and goes on.
  refine readsLeft.operation op.level leftTight spellsLeft goesLeft (kind ▸ op.stops) (.step ?_)
  simp only [operationFrom]
  refine .bind (.of_eq (eatInfix?_of_some found)) ?_
  rw [goesOperator.advance, goesOperator.current]
  simp only [InfixOp.combine_line fits]
  exact .bind (operand_of_reads readsRight rightTight spellsRight goesRight stops) rest

theorem reads_assign {name : Name} {value : Expr} (reads : Reads value) :
    Reads (.assign name value) := by
  refine ⟨?_, ?_, by simp [Expr.rank], by simp [Expr.rank]⟩
  · intro tokens before after spells goes stops
    obtain ⟨token, more, rfl, fits, spellsMore⟩ := Spells.cons_iff.mp spells
    obtain ⟨equals, rest, rfl, fitsEquals, spellsValue⟩ := Spells.cons_iff.mp spellsMore
    obtain ⟨atEquals, goesName, goesMore⟩ := goes.splitCons
    obtain ⟨atValue, goesEquals, goesValue⟩ := goesMore.splitCons
    have kind : atEquals.cursor.current.kind = .equal := by
      rw [goesEquals.current, fitsEquals.kind, Mark.kind_fixed]
    have none : Level.or.operator? atEquals.cursor.current.kind = none := by
      rw [kind]
      rfl
    have stopsOr : Level.or.Stops atEquals.cursor.current.kind := by
      rw [kind]
      exact ⟨by simp, fun tighter _ => by cases tighter <;> rfl⟩
    refine .step ?_
    simp only [expression]
    refine .bind
      ((reads_variable name).operation .or (by simp [Level.rank, Expr.rank]) (.singleton fits)
      goesName stopsOr (operationFrom_stops none)) ?_
    exact .bind (.of_eq (eat?_goes goesEquals fitsEquals.kind))
      (.bind (reads.expression spellsValue goesValue stops) (.pure _ after))
  · intro level loose
    have := level.rank_bounds
    simp only [Expr.rank] at loose
    omega

/-- Arguments with commas between them, when `count` arguments have been read. -/
theorem argumentsFrom_reads {first : Expr} {rest : List Expr}
    (all : ∀ argument ∈ first :: rest, Reads argument) {count : Nat}
    (few : count + (first :: rest).length ≤ argumentLimit) :
    ReadsAs (argumentsFrom · count) (· = .rightParen)
      (separated ((first :: rest).map Expr.spelling)) (first :: rest) := by
  induction rest generalizing first count with
  | nil =>
      intro tokens before after spells goes closes
      have stops : after.cursor.current.kind ∉ continuesExpression := by
        rw [closes]
        decide
      rw [List.length_singleton] at few
      refine .step ?_
      simp only [argumentsFrom]
      refine .bind (.of_eq (checkLimit_below (by omega))) ?_
      refine .bind ((all first List.mem_cons_self).expression spells goes stops) ?_
      refine .bind (.of_eq (eat_other (by rw [closes]; decide))) ?_
      exact .pure _ after
  | cons second rest ih =>
      intro tokens before after spells goes closes
      simp only [List.map_cons, separated] at spells
      obtain ⟨left, more, rfl, spellsFirst, spellsMore⟩ := Spells.append_iff.mp spells
      obtain ⟨comma, right, rfl, fitsComma, spellsRest⟩ := Spells.cons_iff.mp spellsMore
      obtain ⟨atComma, goesFirst, goesMore⟩ := goes.split
      obtain ⟨behind, goesComma, goesRest⟩ := goesMore.splitCons
      have stops : atComma.cursor.current.kind ∉ continuesExpression := by
        rw [goesComma.current, fitsComma.kind]
        decide
      simp only [List.length_cons] at few ih
      refine .step ?_
      simp only [argumentsFrom]
      refine .bind (.of_eq (checkLimit_below (by omega))) ?_
      refine .bind ((all first List.mem_cons_self).expression spellsFirst goesFirst stops) ?_
      refine .bind (.of_eq (eat_goes goesComma fitsComma.kind)) ?_
      have reads := @ih second (fun argument given => all argument (List.mem_cons_of_mem _ given))
        (count + 1) (by omega)
      exact .bind (reads spellsRest goesRest closes) (.pure _ after)

theorem argumentList_reads {arguments : List Expr} (all : ∀ argument ∈ arguments, Reads argument)
    (few : arguments.length ≤ argumentLimit) :
    ReadsAs argumentList (· = .rightParen) (separated (arguments.map Expr.spelling)) arguments := by
  intro tokens before after spells goes closes
  cases arguments with
  | nil =>
      cases spells
      have same : after = before := goes.unique (.refl before)
      subst same
      refine .step ?_
      simp only [argumentList]
      refine .bind (.of_eq (rfl : check .rightParen after = _)) ?_
      simp only [Cursor.check, closes, beq_self_eq_true, if_true]
      exact .pure _ after
  | cons first rest =>
      have begins : before.cursor.current.kind ≠ .rightParen := by
        obtain ⟨mark, marks, spelling, starts⟩ := first.spelling_starts
        have spelled : ∃ more, Spells (mark :: more) tokens := by
          cases rest <;>
            simp only [List.map_cons, separated, spelling, List.cons_append] at spells <;>
            exact ⟨_, spells⟩
        obtain ⟨more, spelled⟩ := spelled
        rw [goes.kind spelled]
        exact ne_of_mem_of_not_mem starts (by decide)
      refine .step ?_
      simp only [argumentList]
      refine .bind (.of_eq (rfl : check .rightParen before = _)) ?_
      have absent : before.cursor.check .rightParen = false := by simpa [Cursor.check] using begins
      simp only [absent, Bool.false_eq_true, if_false]
      exact argumentsFrom_reads all (by omega) spells goes closes

theorem reads_call {callee : Expr} {arguments : List Expr} {closeLine : Nat}
    (wellLevelled : (Expr.call callee arguments closeLine).WellLevelled)
    (readsCallee : Reads callee) (all : ∀ argument ∈ arguments, Reads argument) :
    Reads (.call callee arguments closeLine) := by
  refine .of_call wellLevelled (by simp [Expr.rank]) ?_
  obtain ⟨⟨tight, -⟩, few, -⟩ := wellLevelled
  intro tokens before middle spells goes _ value after rest
  simp only [Expr.spelling, Expr.spellings_eq] at spells
  obtain ⟨first, more, rfl, spellsCallee, spellsMore⟩ := Spells.append_iff.mp spells
  obtain ⟨opens, more, rfl, fitsOpen, spellsMore⟩ := Spells.cons_iff.mp spellsMore
  obtain ⟨inside, last, rfl, spellsAll, spellsClose⟩ := Spells.append_iff.mp spellsMore
  obtain ⟨closes, none, rfl, fitsClose, spellsNone⟩ := Spells.cons_iff.mp spellsClose
  cases spellsNone
  obtain ⟨atOpen, goesCallee, goesMore⟩ := goes.split
  obtain ⟨opened, goesOpen, goesMore⟩ := goesMore.splitCons
  obtain ⟨atClose, goesAll, goesClose⟩ := goesMore.split
  have closing : atClose.cursor.current.kind = .rightParen := by
    rw [goesClose.current, fitsClose.kind, Mark.kind_on]
  refine readsCallee.call tight spellsCallee goesCallee trivial (.step ?_)
  simp only [callFrom]
  refine .bind (.of_eq (eat?_goes goesOpen fitsOpen.kind)) ?_
  refine .bind (argumentList_reads all few spellsAll goesAll closing) ?_
  refine .bind (.of_eq (expect_goes goesClose fitsClose.kind _)) ?_
  rw [fitsClose.line]
  exact rest

/-- The tokens of every tree that the ladder allows are read as that tree. -/
theorem reads_of_wellLevelled (expr : Expr) : expr.WellLevelled → Reads expr := by
  induction expr with
  | literal value => exact fun _ => reads_literal value
  | named name => exact fun _ => reads_variable name
  | group inner ih => exact fun wellLevelled => reads_group wellLevelled (ih wellLevelled)
  | unary op line operand ih =>
      rintro ⟨tight, wellLevelled⟩
      exact reads_unary tight (ih wellLevelled)
  | operation op line left right first second =>
      intro wellLevelled
      obtain ⟨⟨leftTight, leftLevelled⟩, rightTight, rightLevelled⟩ :=
        (Expr.wellLevelled_combine op line left right).mp wellLevelled
      exact reads_operation leftTight (first leftLevelled) rightTight (second rightLevelled)
  | assign name value ih => exact fun wellLevelled => reads_assign (ih wellLevelled)
  | call callee arguments closeLine first all =>
      intro wellLevelled
      have each := (Expr.allWellLevelled_iff arguments).mp wellLevelled.2.2
      exact reads_call wellLevelled (first wellLevelled.1.2) fun argument given =>
        all argument given (each argument given)

/-! ### What is read is a tree -/

/-- A row of tokens is that of a tree which the ladder allows and which is at least at some place on
it. -/
structure TreeOf (rank : Nat) (tokens : List Token) (expr : Expr) : Prop where
  written : Written expr.spelling tokens
  wellLevelled : expr.WellLevelled
  tight : rank ≤ expr.rank

theorem TreeOf.loosen {rank looser : Nat} {tokens : List Token} {expr : Expr}
    (tree : TreeOf rank tokens expr) (le : looser ≤ rank) : TreeOf looser tokens expr :=
  ⟨tree.written, tree.wellLevelled, Nat.le_trans le tree.tight⟩

/-- From one state: a result without a report is that of a row of tokens which is passed and of
which, together with the result and the kind of the next token, something holds. -/
def YieldsFrom (before : State) (parser : Parser α) (holds : List Token → α → TokenKind → Prop) :
    Prop :=
  ∀ value after, parser before = .parsed value after → after.faults ≤ before.faults →
    ∃ tokens, Goes tokens before after ∧ holds tokens value after.cursor.current.kind

/-- The same from every place from which a parser may start. -/
def Yields (parser : Parser α) (holds : List Token → α → TokenKind → Prop) : Prop :=
  ∀ before : State, before.Ready → YieldsFrom before parser holds

theorem YieldsFrom.exhausted (before : State) {holds : List Token → α → TokenKind → Prop} :
    YieldsFrom before Parser.exhausted holds := by
  intro _ _ run
  cases run

/-- What the parsers of expressions read. The loops are given a tree and the tokens it was read
from. -/
structure ExpressionsSound (steps : Nat) : Prop where
  expression : Yields (expression steps) fun tokens expr next =>
    TreeOf 0 tokens expr ∧ next ∉ continuesExpression
  operation : ∀ level, Yields (operation steps level) fun tokens expr next =>
    TreeOf level.rank tokens expr ∧ level.Stops next ∧ level.operator? next = none
  operationFrom : ∀ (level : Level) left first, TreeOf level.rank first left → ∀ before : State,
    before.Ready → level.Stops before.cursor.current.kind →
      YieldsFrom before (operationFrom steps level left) fun tokens expr next =>
        TreeOf level.rank (first ++ tokens) expr ∧ level.Stops next ∧ level.operator? next = none
  operand : ∀ level, Yields (operand steps level) fun tokens expr next =>
    TreeOf (level.rank + 1) tokens expr ∧ level.Stops next
  unary : Yields (unary steps) fun tokens expr next => TreeOf 7 tokens expr ∧ next ≠ .leftParen
  call : Yields (call steps) fun tokens expr next => TreeOf 8 tokens expr ∧ next ≠ .leftParen
  callFrom : ∀ callee first, TreeOf 8 first callee →
    Yields (callFrom steps callee) fun tokens expr next =>
      TreeOf 8 (first ++ tokens) expr ∧ next ≠ .leftParen
  argumentList : Yields (argumentList steps) fun tokens arguments _ =>
    Written (separated (arguments.map Expr.spelling)) tokens ∧
      arguments.length ≤ argumentLimit ∧ ∀ argument ∈ arguments, argument.WellLevelled
  argumentsFrom : ∀ count, Yields (argumentsFrom steps count) fun tokens arguments _ =>
    Written (separated (arguments.map Expr.spelling)) tokens ∧ arguments ≠ [] ∧
      count + arguments.length ≤ argumentLimit ∧ ∀ argument ∈ arguments, argument.WellLevelled
  primary : Yields (primary steps) fun tokens expr _ => TreeOf 8 tokens expr

theorem atom?_tree {token : Token} {expr : Expr} (found : atom? token = some expr) :
    TreeOf 8 [token] expr := by
  unfold atom? at found
  split at found
  · rename_i kind
    cases found
    exact ⟨.singleton (Mark.fits_fixed kind rfl), trivial, by simp [Expr.rank]⟩
  · rename_i kind
    cases found
    exact ⟨.singleton (Mark.fits_fixed kind rfl), trivial, by simp [Expr.rank]⟩
  · rename_i kind
    cases found
    exact ⟨.singleton (Mark.fits_fixed kind rfl), trivial, by simp [Expr.rank]⟩
  · rename_i kind
    cases found
    refine ⟨fun carries => .singleton ⟨?_, by simp⟩, trivial, by simp [Expr.rank]⟩
    obtain ⟨value, literal⟩ := (carries token List.mem_cons_self).1 kind
    simp [Token.symbol, kind, literal, literalValue, Literal.symbol]
  · rename_i kind
    cases found
    refine ⟨fun carries => .singleton ⟨?_, by simp⟩, trivial, by simp [Expr.rank]⟩
    obtain ⟨value, literal⟩ := (carries token List.mem_cons_self).2 kind
    simp [Token.symbol, kind, literal, literalValue, Literal.symbol]
  · rename_i kind
    cases found
    exact ⟨.singleton (Mark.fits_ofName.mpr ⟨kind, rfl⟩), trivial, by simp [Expr.rank]⟩
  · cases found

theorem expression_yields {steps : Nat} (ih : ExpressionsSound steps) :
    Yields (expression (steps + 1)) fun tokens expr next =>
      TreeOf 0 tokens expr ∧ next ∉ continuesExpression := by
  have contracts := expressionContracts steps
  intro before ready expr after run clean
  rw [Parser.expression, bind_eq_parsed] at run
  obtain ⟨target, middle, targetRun, run⟩ := run
  have keepsTarget := (contracts.operation .or).keeps ready targetRun
  have sound := ih.operation .or before ready target middle targetRun
  rw [bind_eq_parsed] at run
  obtain ⟨equals?, behind, eaten, run⟩ := run
  rcases eat?_run (keepsTarget.ready ready.ended).ended (by decide) eaten with
    ⟨rfl, rfl, other⟩ | ⟨equals, rfl, same, goesEquals⟩
  · cases run
    obtain ⟨tokens, goes, tree, stops, none⟩ := sound clean
    exact ⟨tokens, goes, tree.loosen (Nat.zero_le _),
      not_mem_continuesExpression.mpr ⟨other, stops, none⟩⟩
  · rw [bind_eq_parsed] at run
    obtain ⟨value, last, valueRun, run⟩ := run
    have readyBehind := goesEquals.ready (keepsTarget.ready ready.ended)
    have keepsValue := contracts.expression.keeps readyBehind valueRun
    have less := keepsTarget.faults
    have same' := goesEquals.faults
    have more := keepsValue.faults
    split at run
    · cases run
      obtain ⟨first, goesTarget, treeTarget, -, -⟩ := sound (by omega)
      obtain ⟨second, goesValue, treeValue, stops⟩ :=
        ih.expression behind readyBehind value after valueRun (by omega)
      refine ⟨first ++ equals :: second, goesTarget.trans (goesEquals.cons goesValue),
        ⟨?_, treeValue.wellLevelled, Nat.zero_le _⟩, stops⟩
      exact treeTarget.written.append (.cons (Mark.fits_fixed same rfl) treeValue.written)
    · cases run
      simp only [State.faults, List.length_cons] at clean less same' more
      omega

theorem operation_yields {steps : Nat} (ih : ExpressionsSound steps) (level : Level) :
    Yields (operation (steps + 1) level) fun tokens expr next =>
      TreeOf level.rank tokens expr ∧ level.Stops next ∧ level.operator? next = none := by
  have contracts := expressionContracts steps
  intro before ready expr after run clean
  rw [Parser.operation, bind_eq_parsed] at run
  obtain ⟨first, middle, firstRun, run⟩ := run
  have keepsFirst := (contracts.operand level).keeps ready firstRun
  have readyMiddle := keepsFirst.ready ready.ended
  have keepsRest := (contracts.operationFrom level first).keeps readyMiddle run
  have less := keepsFirst.faults
  have more := keepsRest.faults
  obtain ⟨tokens, goesFirst, treeFirst, stopsFirst⟩ :=
    ih.operand level before ready first middle firstRun (by omega)
  obtain ⟨others, goesRest, tree⟩ := ih.operationFrom level first tokens
    (treeFirst.loosen (by omega)) middle readyMiddle stopsFirst expr after run (by omega)
  exact ⟨tokens ++ others, goesFirst.trans goesRest, tree⟩

theorem operationFrom_yields {steps : Nat} (ih : ExpressionsSound steps) (level : Level)
    (left : Expr) (first : List Token) (treeLeft : TreeOf level.rank first left) (before : State)
    (ready : before.Ready) (stops : level.Stops before.cursor.current.kind) :
    YieldsFrom before (operationFrom (steps + 1) level left) fun tokens expr next =>
      TreeOf level.rank (first ++ tokens) expr ∧ level.Stops next ∧
        level.operator? next = none := by
  have contracts := expressionContracts steps
  intro expr after run clean
  rw [Parser.operationFrom, bind_eq_parsed] at run
  obtain ⟨found, middle, eaten, run⟩ := run
  cases operator : level.operator? before.cursor.current.kind with
  | none =>
      rw [eatInfix?_of_none operator] at eaten
      cases eaten
      cases run
      exact ⟨[], .refl _, by rwa [List.append_nil], stops, operator⟩
  | some op =>
      rw [eatInfix?_of_some operator] at eaten
      cases eaten
      obtain ⟨rfl, kind⟩ := Level.operator?_eq_some.mp operator
      have goesOperator := goes_advance ready.ended (Level.operator?_inside operator)
      have readyRight := goesOperator.ready ready
      rw [bind_eq_parsed] at run
      obtain ⟨right, last, rightRun, run⟩ := run
      have keepsRight := (contracts.operand op.level).keeps readyRight rightRun
      have readyLast := keepsRight.ready readyRight.ended
      have keepsRest := (contracts.operationFrom op.level _).keeps readyLast run
      have same := goesOperator.faults
      have less := keepsRight.faults
      have more := keepsRest.faults
      obtain ⟨second, goesRight, treeRight, stopsRight⟩ :=
        ih.operand op.level _ readyRight right last rightRun (by omega)
      -- What has been read so far is now the operator with both its operands.
      have treeBoth : TreeOf op.level.rank (first ++ before.cursor.current :: second)
          (op.combine before.cursor.current.line left right) := by
        refine ⟨?_, ?_, ?_⟩
        · rw [Expr.spelling_combine]
          exact treeLeft.written.append
            (.cons (InfixOp.fits_mark kind.symm) treeRight.written)
        · rw [Expr.wellLevelled_combine]
          exact ⟨⟨treeLeft.tight, treeLeft.wellLevelled⟩, treeRight.tight,
            treeRight.wellLevelled⟩
        · exact Nat.le_of_eq (Expr.rank_combine _ _ _ _).symm
      obtain ⟨third, goesRest, tree, ends⟩ := ih.operationFrom op.level _ _ treeBoth last
        readyLast stopsRight expr after run (by omega)
      refine ⟨before.cursor.current :: second ++ third,
        (goesOperator.cons goesRight).trans goesRest, ?_, ends⟩
      rwa [← List.append_assoc]

theorem operand_yields {steps : Nat} (ih : ExpressionsSound steps) (level : Level) :
    Yields (operand (steps + 1) level) fun tokens expr next =>
      TreeOf (level.rank + 1) tokens expr ∧ level.Stops next := by
  intro before ready expr after run clean
  rw [Parser.operand] at run
  cases next : level.tighter? with
  | none =>
      have rank := Level.rank_of_tightest next
      simp only [next] at run
      obtain ⟨tokens, goes, tree, opens⟩ := ih.unary before ready expr after run clean
      exact ⟨tokens, goes, tree.loosen (by omega), (Level.stops_tightest next).mpr opens⟩
  | some tighter =>
      have rank := Level.rank_of_tighter next
      simp only [next] at run
      obtain ⟨tokens, goes, tree, stops⟩ :=
        ih.operation tighter before ready expr after run clean
      exact ⟨tokens, goes, tree.loosen (by omega), (Level.stops_tighter next).mpr stops⟩

theorem unary_yields {steps : Nat} (ih : ExpressionsSound steps) :
    Yields (unary (steps + 1)) fun tokens expr next =>
      TreeOf 7 tokens expr ∧ next ≠ .leftParen := by
  intro before ready expr after run clean
  rw [Parser.unary, bind_eq_parsed] at run
  obtain ⟨found, middle, eaten, run⟩ := run
  cases operator : prefixOp? before.cursor.current.kind with
  | none =>
      rw [eatPrefix?_of_none operator] at eaten
      cases eaten
      obtain ⟨tokens, goes, tree, opens⟩ := ih.call before ready expr after run clean
      exact ⟨tokens, goes, tree.loosen (by decide), opens⟩
  | some op =>
      rw [eatPrefix?_of_some operator] at eaten
      cases eaten
      have kind := prefixOp?_eq_some.mp operator
      have goesOperator := goes_advance ready.ended (prefixOp?_inside operator)
      rw [bind_eq_parsed] at run
      obtain ⟨operand, last, operandRun, run⟩ := run
      cases run
      have same := goesOperator.faults
      obtain ⟨tokens, goes, tree, opens⟩ :=
        ih.unary _ (goesOperator.ready ready) operand after operandRun (by omega)
      refine ⟨_, goesOperator.cons goes, ⟨?_, ⟨tree.tight, tree.wellLevelled⟩, ?_⟩, opens⟩
      · exact .cons (Mark.fits_on kind.symm op.hasFixedText) tree.written
      · simp [Expr.rank]

theorem call_yields {steps : Nat} (ih : ExpressionsSound steps) :
    Yields (call (steps + 1)) fun tokens expr next => TreeOf 8 tokens expr ∧ next ≠ .leftParen := by
  have contracts := expressionContracts steps
  intro before ready expr after run clean
  rw [Parser.call, bind_eq_parsed] at run
  obtain ⟨callee, middle, calleeRun, run⟩ := run
  have keepsCallee := contracts.primary.keeps ready calleeRun
  have readyMiddle := keepsCallee.ready ready.ended
  have keepsRest := (contracts.callFrom callee).keeps readyMiddle run
  have less := keepsCallee.faults
  have more := keepsRest.faults
  obtain ⟨tokens, goesCallee, treeCallee⟩ :=
    ih.primary before ready callee middle calleeRun (by omega)
  obtain ⟨others, goesRest, tree⟩ :=
    ih.callFrom callee tokens treeCallee middle readyMiddle expr after run (by omega)
  exact ⟨tokens ++ others, goesCallee.trans goesRest, tree⟩

theorem callFrom_yields {steps : Nat} (ih : ExpressionsSound steps) (callee : Expr)
    (first : List Token) (treeCallee : TreeOf 8 first callee) :
    Yields (callFrom (steps + 1) callee) fun tokens expr next =>
      TreeOf 8 (first ++ tokens) expr ∧ next ≠ .leftParen := by
  have contracts := expressionContracts steps
  intro before ready expr after run clean
  rw [Parser.callFrom, bind_eq_parsed] at run
  obtain ⟨opens?, opened, eaten, run⟩ := run
  rcases eat?_run ready.ended (by decide) eaten with
    ⟨rfl, rfl, other⟩ | ⟨opens, rfl, openKind, goesOpen⟩
  · cases run
    exact ⟨[], .refl _, by rwa [List.append_nil], other⟩
  · have readyOpened := goesOpen.ready ready
    rw [bind_eq_parsed] at run
    obtain ⟨arguments, closing, argumentsRun, run⟩ := run
    rw [bind_eq_parsed] at run
    obtain ⟨closes, closed, closeRun, run⟩ := run
    have keepsArguments := contracts.argumentList.keeps readyOpened argumentsRun
    have readyClosing := keepsArguments.ready readyOpened.ended
    obtain ⟨closeKind, goesClose⟩ := expect_run readyClosing.ended (by decide) closeRun
    have readyClosed := goesClose.ready readyClosing
    have keepsRest := (contracts.callFrom _).keeps readyClosed run
    have sameOpen := goesOpen.faults
    have less := keepsArguments.faults
    have sameClose := goesClose.faults
    have more := keepsRest.faults
    obtain ⟨inside, goesArguments, writtenArguments, few, all⟩ :=
      ih.argumentList opened readyOpened arguments closing argumentsRun (by omega)
    have treeCall : TreeOf 8 (first ++ opens :: (inside ++ [closes]))
        (.call callee arguments closes.line) := by
      refine ⟨?_, ?_, by simp [Expr.rank]⟩
      · rw [Expr.spelling, Expr.spellings_eq]
        exact treeCallee.written.append (.cons (Mark.fits_fixed openKind rfl)
          (writtenArguments.append (.singleton (Mark.fits_on closeKind rfl))))
      · exact ⟨⟨treeCallee.tight, treeCallee.wellLevelled⟩, few,
          (Expr.allWellLevelled_iff arguments).mpr all⟩
    obtain ⟨others, goesRest, tree, ends⟩ :=
      ih.callFrom _ _ treeCall closed readyClosed expr after run (by omega)
    refine ⟨opens :: (inside ++ [closes]) ++ others,
      (goesOpen.cons (goesArguments.trans goesClose)).trans goesRest, ?_, ends⟩
    rwa [← List.append_assoc]

theorem argumentList_yields {steps : Nat} (ih : ExpressionsSound steps) :
    Yields (argumentList (steps + 1)) fun tokens arguments _ =>
      Written (separated (arguments.map Expr.spelling)) tokens ∧
        arguments.length ≤ argumentLimit ∧ ∀ argument ∈ arguments, argument.WellLevelled := by
  intro before ready arguments after run clean
  rw [Parser.argumentList, bind_eq_parsed] at run
  obtain ⟨closes, middle, checked, run⟩ := run
  cases checked
  split at run
  · cases run
    exact ⟨[], .refl _, .nil, Nat.zero_le _, by simp⟩
  · obtain ⟨tokens, goes, written, -, few, all⟩ :=
      ih.argumentsFrom 0 before ready arguments after run clean
    exact ⟨tokens, goes, written, by omega, all⟩

theorem argumentsFrom_yields {steps : Nat} (ih : ExpressionsSound steps) (count : Nat) :
    Yields (argumentsFrom (steps + 1) count) fun tokens arguments _ =>
      Written (separated (arguments.map Expr.spelling)) tokens ∧ arguments ≠ [] ∧
        count + arguments.length ≤ argumentLimit ∧
          ∀ argument ∈ arguments, argument.WellLevelled := by
  have contracts := expressionContracts steps
  intro before ready arguments after run clean
  rw [Parser.argumentsFrom, bind_eq_parsed] at run
  obtain ⟨_, checked, checkRun, run⟩ := run
  rw [bind_eq_parsed] at run
  obtain ⟨first, middle, firstRun, run⟩ := run
  rw [bind_eq_parsed] at run
  obtain ⟨more?, behind, eaten, run⟩ := run
  have keepsCheck := (Contract.checkLimit count _).keeps ready checkRun
  have readyChecked := keepsCheck.ready ready.ended
  have keepsFirst := contracts.expression.keeps readyChecked firstRun
  have readyMiddle := keepsFirst.ready readyChecked.ended
  have lessCheck := keepsCheck.faults
  have less := keepsFirst.faults
  rcases eat_run readyMiddle.ended (by decide) eaten with
    ⟨rfl, rfl, -⟩ | ⟨rfl, comma, commaKind, goesComma⟩
  · cases run
    obtain ⟨rfl, below⟩ := checkLimit_run checkRun (by omega)
    obtain ⟨tokens, goes, tree, -⟩ :=
      ih.expression _ readyChecked first after firstRun (by omega)
    exact ⟨tokens, goes, tree.written, List.cons_ne_nil _ _,
      by simp only [List.length_singleton]; omega, by simpa using tree.wellLevelled⟩
  · have readyBehind := goesComma.ready readyMiddle
    rw [if_pos rfl, bind_eq_parsed] at run
    obtain ⟨rest, last, restRun, run⟩ := run
    cases run
    have keepsRest := (contracts.argumentsFrom (count + 1)).keeps readyBehind restRun
    have sameComma := goesComma.faults
    have more := keepsRest.faults
    obtain ⟨rfl, below⟩ := checkLimit_run checkRun (by omega)
    obtain ⟨tokens, goesFirst, tree, -⟩ :=
      ih.expression _ readyChecked first middle firstRun (by omega)
    obtain ⟨others, goesRest, writtenRest, nonempty, few, all⟩ :=
      ih.argumentsFrom (count + 1) behind readyBehind rest after restRun (by omega)
    refine ⟨tokens ++ comma :: others, goesFirst.trans (goesComma.cons goesRest), ?_,
      List.cons_ne_nil _ _, by simp only [List.length_cons]; omega,
      List.forall_mem_cons.mpr ⟨tree.wellLevelled, all⟩⟩
    cases rest with
    | nil => exact absurd rfl nonempty
    | cons second rest =>
        exact tree.written.append (.cons (Mark.fits_fixed commaKind rfl) writtenRest)

theorem primary_yields {steps : Nat} (ih : ExpressionsSound steps) :
    Yields (primary (steps + 1)) fun tokens expr _ => TreeOf 8 tokens expr := by
  have contracts := expressionContracts steps
  intro before ready expr after run clean
  rw [Parser.primary, bind_eq_parsed] at run
  obtain ⟨token, middle, currentRun, run⟩ := run
  cases currentRun
  cases found : atom? before.cursor.current with
  | some atom =>
      simp only [found] at run
      rw [bind_eq_parsed] at run
      obtain ⟨token, last, advanced, run⟩ := run
      cases advanced
      cases run
      exact ⟨_, goes_advance ready.ended (atom?_inside found),
        atom?_tree found⟩
  | none =>
      simp only [found] at run
      rw [bind_eq_parsed] at run
      obtain ⟨opens, opened, eaten, run⟩ := run
      rcases eat_run ready.ended (by decide) eaten with
        ⟨rfl, rfl, -⟩ | ⟨rfl, opens, openKind, goesOpen⟩
      · cases run
      · have readyOpened := goesOpen.ready ready
        rw [if_pos rfl, bind_eq_parsed] at run
        obtain ⟨inner, closing, innerRun, run⟩ := run
        rw [bind_eq_parsed] at run
        obtain ⟨closes, closed, closeRun, run⟩ := run
        cases run
        have keepsInner := contracts.expression.keeps readyOpened innerRun
        obtain ⟨closeKind, goesClose⟩ :=
          expect_run (keepsInner.ready readyOpened.ended).ended (by decide) closeRun
        have sameOpen := goesOpen.faults
        have sameClose := goesClose.faults
        obtain ⟨tokens, goes, tree, -⟩ :=
          ih.expression opened readyOpened inner closing innerRun (by omega)
        refine ⟨opens :: (tokens ++ [closes]), goesOpen.cons (goes.trans goesClose), ?_,
          tree.wellLevelled, by simp [Expr.rank]⟩
        exact .cons (Mark.fits_fixed openKind rfl)
          (tree.written.append (.singleton (Mark.fits_fixed closeKind rfl)))

theorem expressionsSound : ∀ steps, ExpressionsSound steps
  | 0 => by constructor <;> intros <;> first | exact .exhausted _ | exact fun _ _ => .exhausted _
  | steps + 1 => by
      have ih := expressionsSound steps
      exact ⟨expression_yields ih, operation_yields ih, operationFrom_yields ih, operand_yields ih,
        unary_yields ih, call_yields ih, callFrom_yields ih, argumentList_yields ih,
        argumentsFrom_yields ih, primary_yields ih⟩

/-! ### The parser and the grammar -/

/-- A tree that the ladder allows is read from its tokens, whatever lines they are on, if the next
token is none with which an expression goes on. -/
theorem expression_complete {expr : Expr} (wellLevelled : expr.WellLevelled)
    {tokens rest : List Token} {next : Token} {before : State} {steps : Nat}
    (symbols : tokens.map Token.symbol = expr.flatten)
    (remaining : before.cursor.remaining = tokens ++ next :: rest) (ready : before.Ready)
    (stops : next.kind ∉ continuesExpression)
    (enough : 20 * before.cursor.ahead.length + 16 ≤ steps) :
    ∃ result after, expression steps before = .parsed result after ∧
      result.unlined = expr.unlined ∧ Goes tokens before after := by
  obtain ⟨result, same, spells⟩ := expr.relines tokens symbols
  have levelled : result.WellLevelled := by
    rwa [← Expr.wellLevelled_unlined, same, Expr.wellLevelled_unlined]
  have inside := spells.kinds (· ≠ .endOfInput) result.spelling_inside
  have goes := goes_of_remaining remaining inside
  have reached := (reads_of_wellLevelled result levelled).expression spells goes stops
  have ends := (expressionsEnd steps).expression _ enough before ready (Nat.le_refl _)
  exact ⟨result, _,
    reached.result (fun steps => (expressionsExtend steps).expression) ends, same, goes⟩

/-- What is read without a report is a tree that the ladder allows, and the tokens passed are those
of the tree. -/
theorem expression_sound {before after : State} {expr : Expr} {steps : Nat} (ready : before.Ready)
    (run : expression steps before = .parsed expr after) (clean : after.errors = before.errors) :
    ∃ tokens, Goes tokens before after ∧ TreeOf 0 tokens expr ∧
      after.cursor.current.kind ∉ continuesExpression :=
  (expressionsSound steps).expression before ready expr after run
    (Nat.le_of_eq (congrArg List.length clean))

/-- **The expression parser accepts exactly its precedence grammar.** A tree that the ladder allows
is read from its tokens up to lines, passing those tokens and nothing else, and without a report, if
the next token is none with which an expression goes on. Every result without a report is such a
tree, the tokens passed are those of the tree, and the next token does not go on with it. -/
theorem expression_reads_exactly :
    (∀ (expr : Expr) (tokens rest : List Token) (next : Token) (before : State) (steps : Nat),
      expr.WellLevelled → tokens.map Token.symbol = expr.flatten →
      before.cursor.remaining = tokens ++ next :: rest → before.Ready →
      next.kind ∉ continuesExpression → 20 * before.cursor.ahead.length + 16 ≤ steps →
        ∃ result after, expression steps before = .parsed result after ∧
          result.unlined = expr.unlined ∧
          after.cursor.passed = tokens.reverse ++ before.cursor.passed ∧
          after.cursor.remaining = next :: rest ∧ after.errors = before.errors) ∧
    (∀ (before after : State) (expr : Expr) (steps : Nat), before.Ready →
      (∀ token ∈ before.cursor.remaining, token.Carries) →
      expression steps before = .parsed expr after → after.errors = before.errors →
        expr.WellLevelled ∧ after.cursor.current.kind ∉ continuesExpression ∧
          ∃ tokens, tokens.map Token.symbol = expr.flatten ∧
            before.cursor.remaining = tokens ++ after.cursor.remaining ∧
            after.cursor.passed = tokens.reverse ++ before.cursor.passed) := by
  constructor
  · intro expr tokens rest next before steps wellLevelled symbols remaining ready stops enough
    obtain ⟨result, after, run, same, goes⟩ :=
      expression_complete wellLevelled symbols remaining ready stops enough
    refine ⟨result, after, run, same, goes.passes.passed, ?_, goes.errors⟩
    exact List.append_cancel_left (goes.passes.remaining.symm.trans remaining)
  · intro before after expr steps ready carries run clean
    obtain ⟨tokens, goes, tree, stops⟩ := expression_sound ready run clean
    have spells := tree.written fun token member =>
      carries token (goes.passes.remaining ▸ List.mem_append_left _ member)
    exact ⟨tree.wellLevelled, stops, tokens, spells.symbols, goes.passes.remaining,
      goes.passes.passed⟩

/-- Both directions at `x = a - b - c`, which groups to the left. -/
theorem expression_reads_differences :
    let name (text : String) : Token := .plain .identifier text 1
    let minus : Token := .plain .minus "-" 1
    let tokens := [name "x", .plain .equal "=" 1, name "a", minus, name "b", minus, name "c"]
    let tree : Expr := .assign ⟨"x", 1⟩ (.binary .subtract 1
      (.binary .subtract 1 (.variable ⟨"a", 1⟩) (.variable ⟨"b", 1⟩)) (.variable ⟨"c", 1⟩))
    let before : State := .start (tokens ++ [.plain .semicolon ";" 1, .endOfInput 1])
    ∃ result after, expression 200 before = .parsed result after ∧ result.unlined = tree.unlined ∧
      result.WellLevelled ∧ after.cursor.remaining = [.plain .semicolon ";" 1, .endOfInput 1] := by
  intro name minus tokens tree before
  have ready : before.Ready := ⟨⟨.endOfInput 1, by simp [before, tokens, State.start,
    Cursor.ofTokens, Cursor.remaining], rfl⟩, rfl⟩
  have carries : ∀ token ∈ before.cursor.remaining, token.Carries := by
    intro token member
    simp only [before, tokens, State.start, Cursor.ofTokens, Cursor.remaining, List.cons_append,
      List.nil_append, List.mem_cons, List.not_mem_nil, or_false] at member
    rcases member with rfl | rfl | rfl | rfl | rfl | rfl | rfl | rfl | rfl <;>
      exact ⟨by rintro ⟨⟩, by rintro ⟨⟩⟩
  have levelled : tree.WellLevelled :=
    ⟨⟨by decide, ⟨by decide, trivial⟩, by decide, trivial⟩, by decide, trivial⟩
  obtain ⟨result, after, run, same, -, remaining, clean⟩ := expression_reads_exactly.1 tree tokens
    [.endOfInput 1] (.plain .semicolon ";" 1) before 200 levelled rfl rfl ready (by decide)
    (by decide)
  obtain ⟨wellLevelled, -, -⟩ :=
    expression_reads_exactly.2 before after result 200 ready carries run clean
  exact ⟨result, after, run, same, wellLevelled, remaining⟩

end Parser

end Lox
