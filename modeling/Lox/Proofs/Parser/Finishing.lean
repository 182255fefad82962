import Lox.Proofs.Parser.Charging

/-!
The end of parsing.

However a row of tokens looks, the parser comes to the end of it: each declaration goes on from
where it begins, the cursor never leaves the tokens, and no more faults are found than there are
tokens (`parsing_bounded`). `Cursor.Reached` says where a cursor can be moved at all, which is where
the parsers of the grammar stand at any time, since they only pass tokens, recover, and go back to
the start (`LocalFrom.reached`).
-/

namespace Lox.Cursor

variable {tokens front : List Token}

/-- The places to which a cursor can be moved from the first of some tokens: it passes tokens,
recovers, and goes back to the start. -/
inductive Reached (tokens : List Token) : Cursor → Prop
  | start : Reached tokens (.ofTokens tokens)
  | advance {cursor : Cursor} (reached : Reached tokens cursor) : Reached tokens cursor.advance
  | synchronize {cursor : Cursor} (reached : Reached tokens cursor) :
      Reached tokens cursor.synchronize
  | rewind {cursor : Cursor} (reached : Reached tokens cursor) : Reached tokens (cursor.moveTo 0)

/-- A cursor stands on one of the tokens, with no end of input before it. -/
structure Inside (tokens : List Token) (cursor : Cursor) : Prop where
  position_lt : cursor.position < tokens.length
  current : tokens[cursor.position]? = some cursor.current
  previous : tokens[cursor.position - 1]? = some cursor.previous
  before_end : ∀ token ∈ tokens.take cursor.position, token.kind ≠ .endOfInput

theorem ofTokens_ended (ended : ∃ token ∈ tokens, token.kind = .endOfInput) :
    (ofTokens tokens).Ended :=
  (Parser.start_ready ended).ended

theorem ofTokens_passed (tokens : List Token) : (ofTokens tokens).passed = [] := by
  cases tokens <;> rfl

theorem Reached.passes (ended : ∃ token ∈ tokens, token.kind = .endOfInput) {cursor : Cursor}
    (reached : Reached tokens cursor) : ∃ front, Passes front (ofTokens tokens) cursor := by
  induction reached with
  | start => exact ⟨[], .refl _⟩
  | @advance cursor _ ih =>
      obtain ⟨front, passes⟩ := ih
      by_cases atEnd : cursor.current.kind = .endOfInput
      · rw [Cursor.advance, if_pos (by simpa [Cursor.atEnd] using atEnd)]
        exact ⟨front, passes⟩
      · exact ⟨_, passes.trans (passes_advance (passes.ended (ofTokens_ended ended)) atEnd)⟩
  | synchronize _ ih =>
      obtain ⟨front, passes⟩ := ih
      obtain ⟨skipped, more, -⟩ := passes_synchronize (passes.ended (ofTokens_ended ended))
      exact ⟨_, passes.trans more⟩
  | rewind _ ih =>
      obtain ⟨front, passes⟩ := ih
      rw [passes.moveTo_start (ofTokens_passed tokens)]
      exact ⟨[], .refl _⟩

/-- Tokens are passed one by one. -/
theorem Reached.of_passes {before after : Cursor} (reached : Reached tokens before)
    (ended : before.Ended) (passes : Passes front before after) : Reached tokens after := by
  induction front generalizing before with
  | nil =>
      rw [passes.eq_of_nil]
      exact reached
  | cons first front ih =>
      have current : before.current = first := (List.cons.inj passes.remaining).1
      have inside : before.current.kind ≠ .endOfInput :=
        current ▸ passes.inside first List.mem_cons_self
      have one := passes_advance ended inside
      refine ih reached.advance (one.ended ended) ⟨?_, ?_, ?_⟩
      · rw [passes.passed, one.passed, current]
        simp
      · have same := one.remaining.symm.trans passes.remaining
        exact (List.cons.inj same).2
      · exact fun token member => passes.inside token (List.mem_cons_of_mem _ member)

theorem Reached.inside (ended : ∃ token ∈ tokens, token.kind = .endOfInput) {cursor : Cursor}
    (reached : Reached tokens cursor) : Inside tokens cursor := by
  obtain ⟨front, passes⟩ := reached.passes ended
  have whole : tokens = front ++ cursor.current :: cursor.ahead :=
    (Parser.remaining_start ended).symm.trans passes.remaining
  have passed : cursor.passed = front.reverse := by
    rw [passes.passed, ofTokens_passed, List.append_nil]
  have position : cursor.position = front.length := by
    rw [Cursor.position, passed, List.length_reverse]
  refine ⟨?_, ?_, ?_, ?_⟩
  · rw [position, whole]
    simp
  · rw [position, whole]
    simp
  · rw [position, whole, Cursor.previous, passed]
    rcases List.eq_nil_or_concat front with rfl | ⟨others, last, rfl⟩
    · rfl
    · simp
  · rw [position, whole, List.take_left]
    exact passes.inside

end Lox.Cursor

namespace Lox.Parser

variable {α : Type} {tokens : List Token}

/-- The parsers of the grammar only move where a cursor can be moved. -/
theorem LocalFrom.reached {allowed : TokenKind → Bool} {glance : Glance} {strict : Bool}
    {state : State} {parser : Parser α} (here : LocalFrom allowed glance strict state parser)
    (ended : state.cursor.Ended) (reached : state.cursor.Reached tokens) :
    (parser state).Meets (fun _ after => after.cursor.Reached tokens) fun after =>
      after.cursor.Reached tokens := by
  cases run : parser state with
  | exhausted => trivial
  | parsed value after =>
      obtain ⟨passed, faults, repeats, -⟩ := here.of_parsed run
      exact reached.of_passes ended repeats.passes
  | failed after =>
      obtain ⟨passed, faults, repeats⟩ := here.of_failed run
      exact reached.of_passes ended repeats.passes

/-- A declaration that begins before the end of the input goes on from there, whatever becomes of
it. -/
theorem declaration_moves {steps : Nat} {state after : State} {stmt : Option Stmt}
    (ended : state.cursor.Ended) (inside : state.cursor.current.kind ≠ .endOfInput)
    (run : declaration steps state = .parsed stmt after) :
    ∃ passed, Cursor.Passes passed state.cursor after.cursor ∧ passed ≠ [] := by
  cases steps with
  | zero => cases run
  | succ steps =>
      have here := (statementsLocal steps).declared state ended
      rw [declaration, recovering] at run
      cases inner : declared steps state with
      | exhausted => simp [inner] at run
      | parsed value last =>
          rw [inner] at run
          cases run
          obtain ⟨passed, faults, repeats, moves⟩ := here.of_parsed inner
          exact ⟨passed, repeats.passes, moves rfl⟩
      | failed last =>
          rw [inner] at run
          cases run
          obtain ⟨passed, faults, repeats⟩ := here.of_failed inner
          obtain ⟨skipped, passes, moves⟩ := Cursor.passes_synchronize (repeats.passes.ended ended)
          refine ⟨passed ++ skipped, repeats.passes.trans passes, fun nothing => ?_⟩
          obtain ⟨rfl, rfl⟩ := List.append_eq_nil_iff.mp nothing
          exact moves (repeats.passes.eq_of_nil ▸ inside) rfl

/-- How many tokens there are up to the first end of the input, which is counted too. -/
def tokensToEnd (tokens : List Token) : Nat :=
  (tokens.takeWhile (·.kind != .endOfInput)).length + 1

/-- What has been found by the end of the input has been paid for by the tokens before it and the
end itself. -/
theorem program_errorCount_le (ended : ∃ token ∈ tokens, token.kind = .endOfInput) :
    (parse tokens false).errorCount ≤ tokensToEnd tokens := by
  obtain ⟨stmts, after, run, -⟩ := program_parsed ended
  rw [parse_of_run ended run]
  have ready := start_ready ended
  have settles := program_settles (stepBound tokens) _ ready.ended
  rw [SettlesFrom, run] at settles
  obtain ⟨front, faults, repeats, -⟩ := (program_local _ _ ready.ended).of_parsed run
  have atEnd := (declares_of_program run).2
  have length : tokensToEnd tokens = front.length + 1 := by
    have whole := (remaining_start ended).symm.trans repeats.passes.remaining
    rw [tokensToEnd, whole, Cursor.remaining,
      List.takeWhile_append_of_pos (by simpa using repeats.passes.inside)]
    simp [atEnd]
  have passed := repeats.passes.length
  have paid := Nat.le_trans (Nat.le_trans after.toll_le_due settles.2) (State.due_le_toll _)
  simp only [State.toll] at paid
  have none : (State.start tokens).errors.length = 0 := rfl
  change after.errors.length ≤ tokensToEnd tokens
  omega

/-- The attempt at the prompt finds nothing of its own. -/
theorem errorCount_le (ended : ∃ token ∈ tokens, token.kind = .endOfInput) (expressionOnly : Bool) :
    (parse tokens expressionOnly).errorCount ≤ tokensToEnd tokens := by
  cases expressionOnly with
  | false => exact program_errorCount_le ended
  | true =>
      by_cases bare : ∃ expr, BareExpression tokens expr
      · obtain ⟨expr, bare⟩ := bare
        rw [parse_bare ended bare]
        exact Nat.zero_le _
      · rw [parse_not_bare ended fun expr given => bare ⟨expr, given⟩]
        exact program_errorCount_le ended

/-! ### The end of parsing -/

/-- From a state the parser comes to a result, and to the same one however many steps it is given
beyond a bound. -/
def Finishes (parser : Nat → Parser α) (state : State) (bound : Nat) (value : α) (after : State) :
    Prop :=
  ∀ steps, bound ≤ steps → parser steps state = .parsed value after

theorem finishes_of_extends {parser : Nat → Parser α}
    (more : ∀ steps, Extends (parser steps) (parser (steps + 1))) {state after : State}
    {bound : Nat} {value : α} (run : parser bound state = .parsed value after) :
    Finishes parser state bound value after := by
  intro steps le
  rw [Extends.of_le more le state (by simp [run]), run]

theorem keepingBack_eq (parser : Parser α) :
    keepingBack parser = within (fun around => { around with reporting := false })
      (fun _ scope => { scope with reporting := true }) parser := rfl

theorem program_reached {steps : Nat} {state after : State} {stmts : List Stmt}
    (ended : state.cursor.Ended) (reached : state.cursor.Reached tokens)
    (run : program steps state = .parsed stmts after) :
    after.cursor.Reached tokens := by
  have here := (program_local steps state ended).reached ended reached
  rwa [run] at here

theorem wholeExpression_reached {steps : Nat} {state after : State} {found : Option Expr}
    (ended : state.cursor.Ended) (reached : state.cursor.Reached tokens)
    (run : wholeExpression steps state = .parsed found after) : after.cursor.Reached tokens := by
  have inner : Local noSemicolon .whole false (keepingBack (expression steps)) := by
    rw [keepingBack_eq]
    exact (expressionsLocal steps).expression.within _ _
  have here := (inner state ended).reached ended reached
  rw [wholeExpression] at run
  cases attempt : keepingBack (expression steps) state with
  | exhausted => simp [attempt] at run
  | parsed expr last =>
      rw [attempt] at run here
      cases run
      exact here
  | failed last =>
      rw [attempt] at run here
      cases run
      exact here

theorem extends_wholeExpression (steps : Nat) :
    Extends (wholeExpression steps) (wholeExpression (steps + 1)) := by
  have inner : Extends (keepingBack (expression steps)) (keepingBack (expression (steps + 1))) := by
    rw [keepingBack_eq, keepingBack_eq]
    exact .within _ _ (expressionsExtend steps).expression
  intro state ends
  have same := inner state (by
    intro starved
    apply ends
    rw [wholeExpression, starved])
  rw [wholeExpression, wholeExpression, same]

/-- Where a declaration begins no label waits for a loop, and then it comes to an end. -/
theorem declaration_finishes {state : State} (ready : state.Ready)
    (length : state.cursor.ahead.length ≤ tokens.length) :
    ∃ stmt after, Finishes declaration state (stepBound tokens) stmt after := by
  have enough : 20 * tokens.length + 19 ≤ stepBound tokens := by
    rw [stepBound]
    omega
  have ends :=
    (statementsEnd (stepBound tokens)).declaration tokens.length enough state ready length
  cases run : declaration (stepBound tokens) state with
  | exhausted => exact absurd run ends
  | failed last => exact absurd run (declaration_recovers _ _ _)
  | parsed stmt after =>
      exact ⟨stmt, after,
        finishes_of_extends (fun count => (statementsExtend count).declaration) run⟩

/-- **The parser always finishes, makes progress and cannot flood the user.** For every row of
tokens with an end of input:
* both ways of parsing come to an end on one of the tokens, whatever number of steps is allowed
  beyond the usual one, and the attempt at the prompt goes back to where the declarations begin;
* a declaration that begins before the end of the input, in any scope and after any faults, does not
  give up, leaves the cursor strictly further, and comes to an end unless a label still waits for a
  loop;
* wherever the cursor can be moved, it stands on a token, the token passed last is the one before
  it, and no end of input has been passed;
* there are no more faults than tokens up to the first end of the input, it included. -/
theorem parsing_bounded (ended : ∃ token ∈ tokens, token.kind = .endOfInput) :
    (∃ stmts after, Finishes program (.start tokens) (stepBound tokens) stmts after ∧
      after.cursor.Reached tokens) ∧
    (∃ found after, Finishes wholeExpression (.start tokens) (stepBound tokens) found after ∧
      after.cursor.Reached tokens ∧ after.rewound = .start tokens) ∧
    (∀ state : State, state.cursor.Reached tokens → state.cursor.current.kind ≠ .endOfInput →
      (∀ steps stmt after, declaration steps state = .parsed stmt after →
        after.cursor.Reached tokens ∧ state.cursor.position < after.cursor.position) ∧
      (∀ steps after, declaration steps state ≠ .failed after) ∧
      (state.scope.pendingLoop = none →
        ∃ stmt after, Finishes declaration state (stepBound tokens) stmt after)) ∧
    (∀ cursor : Cursor, cursor.Reached tokens → cursor.Inside tokens) ∧
    ∀ expressionOnly, (parse tokens expressionOnly).errorCount ≤ tokensToEnd tokens := by
  have start := (start_ready ended).ended
  refine ⟨?_, ?_, fun state reached inside =>
    ⟨?_, fun steps after => declaration_recovers steps state after, ?_⟩,
    fun cursor reached => reached.inside ended, errorCount_le ended⟩
  · obtain ⟨stmts, after, run, -⟩ := program_parsed ended
    exact ⟨stmts, after, finishes_of_extends extends_program run, program_reached start .start run⟩
  · obtain ⟨found, after, run, -, -, rewound⟩ := wholeExpression_eq ended
    exact ⟨found, after, finishes_of_extends extends_wholeExpression run,
      wholeExpression_reached start .start run,
      rewound⟩
  · intro steps stmt after run
    obtain ⟨front, passes⟩ := reached.passes ended
    have here := passes.ended (Cursor.ofTokens_ended ended)
    obtain ⟨passed, moved, some⟩ := declaration_moves here inside run
    refine ⟨reached.of_passes here moved, ?_⟩
    have length := List.length_pos_iff.mpr some
    rw [Cursor.position, Cursor.position, moved.passed, List.length_append, List.length_reverse]
    omega
  · intro clear
    obtain ⟨front, passes⟩ := reached.passes ended
    refine declaration_finishes ⟨passes.ended (Cursor.ofTokens_ended ended), clear⟩ ?_
    have length := passes.length
    have start : (Cursor.ofTokens tokens).ahead.length ≤ tokens.length := start_ahead tokens
    omega

/-- As many faults as there can be: two blocks that are never closed, and a `return` out of place
and without a value. -/
theorem parsing_bounded_open :
    let tokens : List Token :=
      [.plain .leftBrace "\x7b" 1, .plain .leftBrace "\x7b" 1, .plain .kwReturn "return" 1,
      .endOfInput 1]
    (∀ expressionOnly, (parse tokens expressionOnly).errorCount ≤ tokensToEnd tokens) ∧
      tokensToEnd tokens = 4 ∧
      (parse tokens false).errors.map (·.fault) =
        [.returnOutside, .missing .expression, .missing .braceAfterBlock,
          .missing .braceAfterBlock] := by
  intro tokens
  refine ⟨(parsing_bounded ⟨.endOfInput 1, by simp [tokens], rfl⟩).2.2.2.2, ?_, ?_⟩ <;>
    decide +kernel

end Lox.Parser
