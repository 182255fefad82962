import Lox.Proofs.Parser.Language
import Lox.Proofs.Parser.Likeness

/-!
The attempt to read the whole input as one expression.

At the prompt the parser first tries to read an expression, with its faults kept back. The attempt
finds what the same attempt would find in the open (`wholeExpression_eq`): comparing the two runs,
all that differs is the mark that the faults bear. Whatever it finds, the state it leaves is the
state at the first token again once it is rewound, so if it is of no use the declarations are read
as if it had not been made.

An input that is one expression is no program: an expression does not begin like a declaration of
another sort, and as a statement it would lack its semicolon (`bare_not_program`).
-/

namespace Lox

/-! ### Going back -/

theorem Cursor.Passes.moveTo_start {tokens : List Token} {before after : Cursor}
    (passes : Passes tokens before after) (start : before.passed = []) :
    after.moveTo 0 = before := by
  obtain ⟨passed, current, ahead⟩ := before
  obtain rfl : passed = [] := start
  have all : after.passed.reverse ++ after.remaining = current :: ahead := by
    rw [passes.passed, List.append_nil, List.reverse_reverse, ← passes.remaining]
    rfl
  simp [Cursor.moveTo, all]

namespace Parser

open State

variable {tokens : List Token}

/-! ### Marks -/

/-- The same tokens on both sides, and the reporting of each. -/
def reportingAs (reporting reporting' : Bool) : Comparison := ⟨Eq, reporting, reporting'⟩

theorem start_states (cursor : Cursor) (scope : Scope) (reporting reporting' : Bool) :
    (reportingAs reporting reporting').States ⟨cursor, { scope with reporting := reporting }, []⟩
      ⟨cursor, { scope with reporting := reporting' }, []⟩ where
  cursor :=
    ⟨Token.allAlike_refl (fun _ => rfl) _, ⟨rfl, rfl, rfl, rfl⟩,
      Token.allAlike_refl (fun _ => rfl) _⟩
  scope := ⟨rfl, rfl, rel_refl (Name.alike_refl fun _ => rfl) _, rfl, rfl⟩
  errors := .nil

/-- The faults of a state all bear one mark. -/
def State.Marked (reporting : Bool) (state : State) : Prop :=
  ∀ error ∈ state.errors, error.reported = reporting

theorem marked_of_states {comparison : Comparison} {state other : State}
    (states : comparison.States state other) : other.Marked comparison.reporting' := by
  intro error member
  obtain ⟨index, inside, rfl⟩ := List.getElem_of_mem member
  exact ((List.forall₂_iff_get.mp states.errors).2 index
    (states.errors.length_eq ▸ inside) inside).reported'

theorem State.Marked.reported {state : State} (marked : state.Marked true) :
    state.reported.length = state.errors.length := by
  rw [State.reported, List.length_reverse, List.filter_eq_self.mpr marked]

theorem State.Marked.keptBack {state : State} (marked : state.Marked false) :
    state.reported = [] := by
  have none : state.errors.filter (·.reported) = [] :=
    List.filter_eq_nil_iff.mpr fun error member => by simp [marked error member]
  rw [State.reported, none, List.reverse_nil]

/-- As many faults are counted as are reported, where reporting is on from the start. -/
theorem programFrom_counts (steps : Nat) {state : State} (reporting : state.scope.reporting = true)
    (clear : state.errors = []) :
    (programFrom steps state).errors.length = (programFrom steps state).errorCount := by
  obtain ⟨cursor, scope, errors⟩ := state
  obtain rfl : errors = [] := clear
  have same : { scope with reporting := true } = scope := by rw [← reporting]
  have results :=
    program_alike (reportingAs true true) steps _ _ (start_states cursor scope true true)
  rw [same] at results
  unfold programFrom
  revert results
  generalize program steps ⟨cursor, scope, []⟩ = result
  intro results
  cases result with
  | parsed stmts after =>
      cases results with
      | parsed _ states => exact (marked_of_states states).reported
  | failed after =>
      cases results with
      | failed states => exact (marked_of_states states).reported
  | exhausted => rfl

/-! ### The attempt -/

/-- A row of tokens is one expression and nothing else, without a fault. -/
def BareExpression (tokens : List Token) (expr : Expr) : Prop :=
  ∃ steps after, expression steps (.start tokens) = .parsed expr after ∧ after.errors = [] ∧
    after.cursor.atEnd

/-- The state on the first token in which faults are kept back. -/
def quietStart (tokens : List Token) : State :=
  { State.start tokens with scope := { Scope.program with reporting := false } }

theorem start_ahead (tokens : List Token) :
    (State.start tokens).cursor.ahead.length ≤ tokens.length := by
  cases tokens with
  | nil => exact Nat.zero_le _
  | cons first rest => exact Nat.le_succ _

theorem expression_ends (ended : ∃ token ∈ tokens, token.kind = .endOfInput) {steps : Nat}
    (enough : 20 * tokens.length + 16 ≤ steps) : expression steps (.start tokens) ≠ .exhausted :=
  (expressionsEnd steps).expression tokens.length enough _ (start_ready ended) (start_ahead tokens)

/-- The tokens are a bare expression if the expression at their front, read with enough steps, is
one. -/
theorem bareExpression_iff (ended : ∃ token ∈ tokens, token.kind = .endOfInput) {steps : Nat}
    (enough : 20 * tokens.length + 16 ≤ steps) (expr : Expr) :
    BareExpression tokens expr ↔ ∃ after, expression steps (.start tokens) = .parsed expr after ∧
      after.errors = [] ∧ after.cursor.atEnd := by
  constructor
  · rintro ⟨some, after, run, clean, atEnd⟩
    have extended (count : Nat) := (expressionsExtend count).expression
    have same :=
      Extends.of_le extended (Nat.le_max_right some steps) _ (expression_ends ended enough)
    have agrees :=
      Extends.of_le extended (Nat.le_max_left some steps) (.start tokens) (by simp [run])
    exact ⟨after, by rw [← same, agrees, run], clean, atEnd⟩
  · rintro ⟨after, run, clean, atEnd⟩
    exact ⟨steps, after, run, clean, atEnd⟩

/-- What the attempt keeps: going back from where it ends leads to the start. -/
theorem quiet_rewound {strict : Bool} {after : State}
    (keeps : (quietStart tokens).Keeps strict after) :
    ({ after with scope := { after.scope with reporting := true } } : State).rewound =
      .start tokens := by
  obtain ⟨⟨passed, passes, -⟩, scope, -⟩ := keeps
  have start : (quietStart tokens).cursor.passed = [] := by
    cases tokens <;> rfl
  rw [State.rewound, State.start]
  congr 1
  · exact passes.moveTo_start start
  · simp only [scope]
    rfl

/-- The attempt finds the expression that the tokens are, if they are one, and otherwise nothing. In
either case it reports nothing, and rewinding leads back to the start. -/
theorem wholeExpression_eq (ended : ∃ token ∈ tokens, token.kind = .endOfInput) :
    ∃ found after, wholeExpression (stepBound tokens) (.start tokens) = .parsed found after ∧
      (∀ expr, found = some expr ↔ BareExpression tokens expr) ∧ after.reported = [] ∧
      after.rewound = .start tokens := by
  have enough : 20 * tokens.length + 16 ≤ stepBound tokens := by
    rw [stepBound]
    omega
  have bare (expr : Expr) := bareExpression_iff ended enough expr
  have keeps := (expressionContracts (stepBound tokens)).expression (quietStart tokens)
    ⟨(start_ready ended).ended, rfl⟩
  have results := (expressionsAlike (reportingAs true false) (stepBound tokens)).expression _ _
    (start_states (Cursor.ofTokens tokens) .program true false)
  change (reportingAs true false).Results _ (expression (stepBound tokens) (.start tokens))
    (expression (stepBound tokens) (quietStart tokens)) at results
  have attempt : keepingBack (expression (stepBound tokens)) (.start tokens) =
      (expression (stepBound tokens) (quietStart tokens)).mapScope
        fun scope => { scope with reporting := true } := rfl
  rw [wholeExpression, attempt]
  unfold KeepsFrom at keeps
  cases openly : expression (stepBound tokens) (.start tokens) with
  | exhausted => exact absurd openly (expression_ends ended enough)
  | failed last =>
      rw [openly] at results
      obtain ⟨after, quietly, states⟩ := results.of_failed
      rw [quietly] at keeps ⊢
      refine ⟨_, _, rfl, fun expr => ?_, (marked_of_states states).keptBack, quiet_rewound keeps.1⟩
      rw [bare, openly]
      simp
  | parsed expr last =>
      rw [openly] at results
      obtain ⟨other, after, quietly, exprs, states⟩ := results.of_parsed
      obtain rfl := exprs.eq
      rw [quietly] at keeps ⊢
      refine ⟨_, _, rfl, fun given => ?_, (marked_of_states states).keptBack, quiet_rewound keeps⟩
      have clean : after.errors = [] ↔ last.errors = [] := by
        rw [← List.length_eq_zero_iff, ← List.length_eq_zero_iff, states.errors.length_eq]
      rw [bare, openly]
      simp [clean, states.cursor.atEnd, and_comm, and_assoc]

/-- A bare expression is printed; there is nothing to count or to report. -/
theorem parse_bare (ended : ∃ token ∈ tokens, token.kind = .endOfInput) {expr : Expr}
    (bare : BareExpression tokens expr) : parse tokens true = ⟨[.print expr], 0, []⟩ := by
  obtain ⟨found, after, run, finds, unreported, -⟩ := wholeExpression_eq ended
  rw [(finds expr).mpr bare] at run
  simp [parse, run, unreported]

/-- What is no bare expression is parsed as if the attempt had not been made. -/
theorem parse_not_bare (ended : ∃ token ∈ tokens, token.kind = .endOfInput)
    (plain : ∀ expr, ¬ BareExpression tokens expr) : parse tokens true = parse tokens false := by
  obtain ⟨found, after, run, finds, unreported, rewound⟩ := wholeExpression_eq ended
  cases found with
  | some expr => exact absurd ((finds expr).mp rfl) (plain expr)
  | none =>
      simp only [parse, run, unreported, rewound, if_true, List.nil_append]
      rfl

/-! ### Expressions are no programs -/

/-- A parser that has a result only where an expression begins. -/
def StartsRight (parser : Parser Expr) : Prop :=
  ∀ before value after, parser before = .parsed value after →
    before.cursor.current.kind ∈ startsExpression

theorem StartsRight.bind {parser : Parser Expr} (starts : StartsRight parser)
    (next : Expr → Parser Expr) : StartsRight (parser >>= next) := by
  intro before value after run
  obtain ⟨first, middle, run, -⟩ := bind_eq_parsed.mp run
  exact starts before first middle run

/-- The parsers on the way down to a primary expression have a result only where an expression
begins. -/
structure ExpressionsStart (steps : Nat) : Prop where
  expression : StartsRight (expression steps)
  operation : ∀ level, StartsRight (operation steps level)
  operand : ∀ level, StartsRight (operand steps level)
  unary : StartsRight (unary steps)
  call : StartsRight (call steps)
  primary : StartsRight (primary steps)

theorem atom?_starts {token : Token} {expr : Expr} (found : atom? token = some expr) :
    token.kind ∈ startsExpression := by
  unfold atom? at found
  split at found <;> simp_all [startsExpression]

theorem prefixOp?_starts {kind : TokenKind} {op : UnaryOp} (found : prefixOp? kind = some op) :
    kind ∈ startsExpression := by
  unfold prefixOp? at found
  split at found <;> simp_all [startsExpression]

theorem expressionsStart : ∀ steps, ExpressionsStart steps
  | 0 => by constructor <;> intros <;> rintro _ _ _ ⟨⟩
  | steps + 1 => by
      have ih := expressionsStart steps
      constructor
      case expression =>
        rw [Parser.expression]
        exact (ih.operation .or).bind _
      case operation =>
        intro level
        rw [Parser.operation]
        exact (ih.operand level).bind _
      case operand =>
        intro level
        rw [Parser.operand]
        cases level.tighter? with
        | none => exact ih.unary
        | some tighter => exact ih.operation tighter
      case unary =>
        intro before value after run
        rw [Parser.unary, bind_apply, andThen] at run
        cases found : prefixOp? before.cursor.current.kind with
        | some op => exact prefixOp?_starts found
        | none =>
            rw [eatPrefix?_of_none found] at run
            exact ih.call before value after run
      case call =>
        rw [Parser.call]
        exact ih.primary.bind _
      case primary =>
        intro before value after run
        rw [Parser.primary, bind_apply, andThen] at run
        simp only [current] at run
        cases found : atom? before.cursor.current with
        | some expr => exact atom?_starts found
        | none =>
            by_cases opens : before.cursor.current.kind = .leftParen
            · rw [opens]
              decide
            · simp only [found, bind_apply, andThen, eat_other opens] at run
              cases run

/-- An expression as a statement lacks its semicolon at the end of the input. -/
theorem declaration_of_bare {steps : Nat} {before last : State} {expr : Expr}
    (run : expression steps before = .parsed expr last) (atEnd : last.cursor.atEnd) :
    ∃ after, declaration (steps + 3) before = .parsed none after ∧ last.faults < after.faults := by
  have starts := (expressionsStart steps).expression before expr last run
  have other (kind : TokenKind) (apart : kind ∉ startsExpression) :
      before.cursor.current.kind ≠ kind :=
    fun same => apart (same ▸ starts)
  have plain : statementKinds.contains before.cursor.current.kind = false := by
    revert starts
    cases before.cursor.current.kind <;> decide
  have ends : last.cursor.current.kind ≠ .semicolon := by
    have kind : last.cursor.current.kind = .endOfInput := by simpa [Cursor.atEnd] using atEnd
    rw [kind]
    decide
  have failed : expressionStatement steps before = .failed { last with errors :=
      ⟨last.cursor.current, .missing .semicolonAfterExpression, last.scope.reporting⟩ ::
        last.errors } := by
    simp only [expressionStatement, bind_apply, andThen, run, expect, eat?_other ends]
    rfl
  have declares : declared (steps + 2) before = expressionStatement steps before := by
    rw [declared, bind_apply, andThen, eat_other (other .kwVar (by decide))]
    change (eat .kwFun >>= _) before = _
    rw [bind_apply, andThen, eat_other (other .kwFun (by decide))]
    exact (statement_apply steps before).trans (if_neg (by rw [plain]; exact Bool.false_ne_true))
  refine ⟨_, by rw [declaration, recovering, declares, failed], ?_⟩
  exact Nat.lt_succ_self _

/-- A bare expression is no program. -/
theorem bare_not_program (ended : ∃ token ∈ tokens, token.kind = .endOfInput) {expr : Expr}
    (bare : BareExpression tokens expr) : (parse tokens false).errorCount ≠ 0 := by
  have room : stepBound tokens = 20 * tokens.length + 16 + 4 := by
    rw [stepBound]
    omega
  obtain ⟨last, run, -, atEnd⟩ := (bareExpression_iff ended (Nat.le_refl _) expr).mp bare
  obtain ⟨middle, declares, less⟩ := declaration_of_bare run atEnd
  have ready := start_ready ended
  have starts := (expressionsStart _).expression _ _ _ run
  have inside : (State.start tokens).cursor.current.kind ≠ .endOfInput :=
    fun same => absurd (same ▸ starts) (by decide)
  obtain ⟨stmts, after, whole, parsed⟩ := program_parsed ended
  have here : parse tokens false = parseProgram tokens := rfl
  rw [room] at whole
  rcases program_run whole with ⟨atOnce, -⟩ | ⟨-, first, between, rest, firstRun, restRun, -⟩
  · exact absurd atOnce inside
  · rw [declares] at firstRun
    cases firstRun
    have more :=
      program_faults ((declaration_keeps ready inside declares).ready ready.ended) restRun
    rw [here, parsed]
    change after.faults ≠ 0
    omega

/-- However an attempt ends, its faults have not been reported, and from then on faults are. -/
theorem wholeExpression_unreported {steps : Nat} {before after : State} {found : Option Expr}
    (clear : before.errors = []) (run : wholeExpression steps before = .parsed found after) :
    after.reported = [] ∧ after.scope.reporting = true := by
  obtain ⟨cursor, scope, errors⟩ := before
  obtain rfl : errors = [] := clear
  have results := (expressionsAlike (reportingAs false false) steps).expression _ _
    (start_states cursor scope false false)
  rw [wholeExpression, keepingBack] at run
  revert results run
  generalize expression steps ⟨cursor, { scope with reporting := false }, []⟩ = result
  intro run results
  cases result with
  | parsed expr last =>
      cases run
      cases results with
      | parsed _ states => exact ⟨(marked_of_states states).keptBack, rfl⟩
  | failed last =>
      cases run
      cases results with
      | failed states => exact ⟨(marked_of_states states).keptBack, rfl⟩
  | exhausted => cases run

/-- The number of faults that parsing counts is the number of diagnostics that it gives. -/
theorem parse_counts (tokens : List Token) (expressionOnly : Bool) :
    (parse tokens expressionOnly).diagnostics.length =
    (parse tokens expressionOnly).errorCount := by
  have declarations : (parseProgram tokens).errors.length = (parseProgram tokens).errorCount :=
    programFrom_counts _ rfl rfl
  rw [Parsed.diagnostics, List.length_map, parse]
  split
  · split
    · rename_i expr after run
      rw [(wholeExpression_unreported rfl run).1]
      rfl
    · rename_i after run
      obtain ⟨unreported, reporting⟩ := wholeExpression_unreported rfl run
      rw [unreported]
      exact programFrom_counts _ reporting rfl
    · exact declarations
  · exact declarations

/-- **An attempt that fails leaves no trace.** Tokens that are a bare expression become the
statement that prints it. All others are parsed as if the attempt had not been made: the same
statements, the same number of faults, and the same diagnostics in the same order, one for each
fault. No tokens are both a bare expression and a program without a fault, so such a program is the
same in both modes. -/
theorem expressionOnly_traceless (ended : ∃ token ∈ tokens, token.kind = .endOfInput) :
    (∀ expr, BareExpression tokens expr →
      parse tokens true = ⟨[.print expr], 0, []⟩ ∧ (parse tokens false).errorCount ≠ 0) ∧
    ((∀ expr, ¬ BareExpression tokens expr) →
      parse tokens true = parse tokens false ∧
        (parse tokens true).diagnostics.length = (parse tokens true).errorCount) ∧
    ((parse tokens false).errorCount = 0 → parse tokens true = parse tokens false) := by
  refine ⟨fun expr bare => ⟨parse_bare ended bare, bare_not_program ended bare⟩, ?_, ?_⟩
  · exact fun plain => ⟨parse_not_bare ended plain, parse_counts tokens true⟩
  · intro clean
    exact parse_not_bare ended fun expr bare => bare_not_program ended bare clean

/-- All three cases: `a + b` is bare, `nil = a` is read to the end with a fault that does not end
the attempt, and `a;` is a program. -/
theorem expressionOnly_traceless_inputs :
    let name (text : String) : Token := .plain .identifier text 1
    let sum := [name "a", .plain .plus "+" 1, name "b", .endOfInput 1]
    let assignment := [.plain .kwNil "nil" 1, .plain .equal "=" 1, name "a", .endOfInput 1]
    let program := [name "a", .plain .semicolon ";" 1, .endOfInput 1]
    parse sum true = ⟨[.print (.binary .add 1 (.variable ⟨"a", 1⟩) (.variable ⟨"b", 1⟩))], 0, []⟩ ∧
      (parse sum false).errorCount ≠ 0 ∧ parse assignment true = parse assignment false ∧
      (parse assignment true).errorCount ≠ 0 ∧ parse program true = parse program false := by
  intro name sum assignment program
  have ended (front : List Token) : ∃ token ∈ front ++ [.endOfInput 1], token.kind = .endOfInput :=
    ⟨_, List.mem_append_right _ List.mem_cons_self, rfl⟩
  have bare : BareExpression sum (.binary .add 1 (.variable ⟨"a", 1⟩) (.variable ⟨"b", 1⟩)) :=
    ⟨40, _, rfl, rfl, rfl⟩
  have plain (expr : Expr) : ¬ BareExpression assignment expr := by
    intro given
    obtain ⟨after, run, clean, -⟩ :=
      (bareExpression_iff (ended (assignment.take 3)) (Nat.le_refl _) expr).mp given
    cases run
    cases clean
  obtain ⟨printed, faulty⟩ := (expressionOnly_traceless (ended (sum.take 3))).1 _ bare
  have same : parse assignment true = parse assignment false :=
    ((expressionOnly_traceless (ended (assignment.take 3))).2.1 plain).1
  have alike := (expressionOnly_traceless (ended (program.take 2))).2.2 rfl
  exact ⟨printed, faulty, same, by rw [same]; decide, alike⟩

end Parser

end Lox
