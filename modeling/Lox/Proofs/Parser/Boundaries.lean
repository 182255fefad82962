import Lox.Proofs.Parser.Attempt
import Lox.Proofs.Parser.Locality

/-!
Where one statement ends and the next begins.

At a statement boundary the parser stands as it does at the beginning of a program: nothing of what
it has read is in its scope any more, and it has looked no further, but for an `else`. So a program
is parsed like its parts, one after the other. `parse_append` says so of a front without faults. A
front with faults may lose its boundary; that it does not as long as it is one simple statement,
closed by the first semicolon, is `parse_simple`: wherever in such a statement the parser gives up,
it goes on just behind that semicolon.
-/

namespace Lox

/-- What parsing makes of one row of tokens, followed by what it makes of another. -/
instance : Append Parsed where
  append first second :=
    ⟨first.statements ++ second.statements, first.errorCount + second.errorCount,
      first.errors ++ second.errors⟩

theorem Parsed.append_eq (first second : Parsed) : first ++ second =
    ⟨first.statements ++ second.statements, first.errorCount + second.errorCount,
      first.errors ++ second.errors⟩ :=
  rfl

namespace Parser

open State

variable {tokens front body rest : List Token}

/-! ### Rows of declarations -/

/-- Declarations are read from one state to another, each of them in front of the end of the
input. -/
inductive Declares : State → List Stmt → State → Prop
  | nil (state : State) : Declares state [] state
  | cons {steps : Nat} {before middle after : State} {first : Option Stmt} {stmts : List Stmt}
      (inside : before.cursor.current.kind ≠ .endOfInput)
      (run : declaration steps before = .parsed first middle)
      (others : Declares middle stmts after) :
      Declares before (first.toList ++ stmts) after

theorem declares_of_program {steps : Nat} {before after : State} {stmts : List Stmt}
    (run : program steps before = .parsed stmts after) :
    Declares before stmts after ∧ after.cursor.current.kind = .endOfInput := by
  induction steps generalizing before stmts with
  | zero => cases run
  | succ steps ih =>
      rcases program_run run with ⟨atEnd, rfl, rfl⟩
          | ⟨inside, first, middle, others, firstRun, othersRun, rfl⟩
      · exact ⟨.nil _, atEnd⟩
      · obtain ⟨declares, atEnd⟩ := ih othersRun
        exact ⟨.cons inside firstRun declares, atEnd⟩

theorem Declares.program {steps : Nat} {before middle after : State} {stmts others : List Stmt}
    (declares : Declares before stmts middle) (run : program steps middle = .parsed others after) :
    ∃ steps, Parser.program steps before = .parsed (stmts ++ others) after := by
  induction declares with
  | nil => exact ⟨steps, run⟩
  | @cons some before middle last first stmts inside firstRun _ ih =>
      obtain ⟨more, othersRun⟩ := ih run
      have first := Extends.of_le (fun count => (statementsExtend count).declaration)
        (Nat.le_max_left some more) before (by simp [firstRun])
      have second :=
        Extends.of_le extends_program (Nat.le_max_right some more) middle (by simp [othersRun])
      refine ⟨max some more + 1, ?_⟩
      rw [Parser.program]
      change (if before.cursor.atEnd then _ else _ : Parser (List Stmt)) before = _
      rw [if_neg (by simpa [Cursor.atEnd] using inside)]
      simp only [bind_apply, andThen, first, firstRun, second, othersRun, List.append_assoc]
      rfl

theorem Declares.faults {before after : State} {stmts : List Stmt}
    (declares : Declares before stmts after) (ready : before.Ready) :
    before.errors.length ≤ after.errors.length := by
  induction declares with
  | nil => exact Nat.le_refl _
  | cons inside run _ ih =>
      have keeps := declaration_keeps ready inside run
      exact Nat.le_trans keeps.faults (ih (keeps.ready ready.ended))

/-! ### Parsing in parts -/

theorem remaining_start (ended : ∃ token ∈ tokens, token.kind = .endOfInput) :
    (State.start tokens).cursor.remaining = tokens := by
  cases tokens with
  | nil => obtain ⟨token, member, -⟩ := ended; cases member
  | cons first others => rfl

/-- What a run to the end of the input finds, whatever number of steps it took. -/
theorem parse_of_run {steps : Nat} {after : State} {stmts : List Stmt}
    (ended : ∃ token ∈ tokens, token.kind = .endOfInput)
    (run : program steps (.start tokens) = .parsed stmts after) :
    parse tokens false = ⟨stmts, after.errors.length, after.reported⟩ := by
  obtain ⟨found, last, bounded, parsed⟩ := program_parsed ended
  have left :=
    Extends.of_le extends_program (Nat.le_max_left steps (stepBound tokens)) (.start tokens)
      (by simp [run])
  have right :=
    Extends.of_le extends_program (Nat.le_max_right steps (stepBound tokens)) (.start tokens)
      (by simp [bounded])
  rw [left, run, bounded] at right
  cases right
  exact parsed

/-- At the outermost level the parser goes on with the rest of the input as if there were nothing
else. -/
theorem program_resumes (ended : ∃ token ∈ rest, token.kind = .endOfInput) {state : State}
    (scope : state.scope = .program) (remaining : state.cursor.remaining = rest) :
    ∃ steps last, program steps state = .parsed (parse rest false).statements last ∧
      last.errors.length = state.errors.length + (parse rest false).errorCount ∧
      last.reported = state.reported ++ (parse rest false).errors := by
  obtain ⟨stmts, after, run, -⟩ := program_parsed ended
  rw [parse_of_run ended run]
  obtain ⟨tokens, faults, repeats, -⟩ := (program_local _ _ (start_ready ended).ended).of_parsed run
  have front := repeats.passes.remaining
  rw [remaining_start ended] at front
  refine ⟨_, _, repeats.elsewhere state _ _ scope (remaining.trans front) rfl, ?_, ?_⟩
  · have errors : after.errors = faults := repeats.errors.trans (List.append_nil faults)
    simp [State.beyond, errors, Nat.add_comm]
  · have errors : after.errors = faults := repeats.errors.trans (List.append_nil faults)
    simp [State.beyond, State.reported, errors]

/-- Declarations up to a place at the outermost level, followed by the rest of the input. -/
theorem Declares.parse {middle : State} {stmts : List Stmt}
    (declares : Declares (.start tokens) stmts middle)
    (ended : ∃ token ∈ tokens, token.kind = .endOfInput)
    (endedRest : ∃ token ∈ rest, token.kind = .endOfInput) (scope : middle.scope = .program)
    (remaining : middle.cursor.remaining = rest) :
    parse tokens false = ⟨stmts, middle.errors.length, middle.reported⟩ ++ parse rest false := by
  obtain ⟨steps, last, run, count, reported⟩ := program_resumes endedRest scope remaining
  obtain ⟨more, whole⟩ := declares.program run
  rw [parse_of_run ended whole, count, reported]
  rfl

theorem parse_end {last : Token} (kind : last.kind = .endOfInput) :
    parse [last] false = ⟨[], 0, []⟩ := by
  have run : program 1 (.start [last]) = .parsed [] (.start [last]) := by
    rw [program]
    change (if (State.start [last]).cursor.atEnd then _ else _ : Parser (List Stmt)) _ = _
    rw [if_pos (by simpa [State.start, Cursor.ofTokens, Cursor.atEnd] using kind)]
    rfl
  exact parse_of_run ⟨last, List.mem_cons_self, kind⟩ run

/-! ### A front without faults -/

/-- The first token of a kind splits a row in one way only. -/
theorem split_unique {kind : TokenKind} {front front' rest rest' : List Token}
    {token token' : Token} (before : ∀ token ∈ front, token.kind ≠ kind) (here : token.kind = kind)
    (before' : ∀ token ∈ front', token.kind ≠ kind) (here' : token'.kind = kind)
    (same : front ++ token :: rest = front' ++ token' :: rest') :
    front = front' ∧ token = token' ∧ rest = rest' := by
  have fronts := congrArg (List.takeWhile fun token => token.kind != kind) same
  rw [List.takeWhile_append_of_pos (by simpa using before),
    List.takeWhile_append_of_pos (by simpa using before')] at fronts
  obtain rfl : front = front' := by simpa [here, here'] using fronts
  have others := List.append_cancel_left same
  exact ⟨rfl, (List.cons.inj others).1, (List.cons.inj others).2⟩

/-- A declaration without a fault is read in the same way wherever its tokens stand, except in front
of an `else`. -/
theorem declaration_elsewhere {steps : Nat} {before after : State} {stmt : Option Stmt}
    (ready : before.Ready) (run : declaration steps before = .parsed stmt after)
    (clean : after.errors.length ≤ before.errors.length) :
    ∃ tokens, Repeats anyKind .orElse (declaration steps) (.parsed stmt) before after tokens [] ∧
      tokens ≠ [] := by
  cases steps with
  | zero => cases run
  | succ steps =>
      rw [declaration, recovering] at run
      cases inner : declared steps before with
      | exhausted => simp [inner] at run
      | failed last =>
          rw [inner] at run
          cases run
          have contract := (statementContracts steps).declared before ready
          rw [KeepsFrom, inner] at contract
          exact absurd contract.2 (Nat.not_lt.mpr clean)
      | parsed value last =>
          rw [inner] at run
          cases run
          obtain ⟨tokens, faults, repeats, moves⟩ :=
            ((statementsLocal steps).declared before ready.ended).of_parsed inner
          obtain rfl : faults = [] := by
            have count := congrArg List.length repeats.errors
            rw [List.length_append] at count
            exact List.length_eq_zero_iff.mp (by omega)
          refine ⟨tokens, ⟨repeats.passes, repeats.allowed, repeats.errors, ?_⟩, moves rfl⟩
          intro other next rest scopes front seen
          rw [declaration, recovering, repeats.elsewhere other next rest scopes front seen]

/-- And so is a row of declarations. -/
theorem Declares.elsewhere {before after : State} {stmts : List Stmt}
    (declares : Declares before stmts after) (ready : before.Ready)
    (clean : after.errors.length ≤ before.errors.length) :
    ∃ tokens, Cursor.Passes tokens before.cursor after.cursor ∧ after.scope = before.scope ∧
      ∀ (other : State) next rest, other.scope = before.scope →
        other.cursor.remaining = tokens ++ next :: rest →
          Glance.orElse.Same after.cursor.current next →
        Declares other stmts (other.beyond tokens next rest after.scope []) := by
  induction declares with
  | nil state =>
      refine ⟨[], .refl _, rfl, ?_⟩
      rintro ⟨⟨passed, current, ahead⟩, scope, errors⟩ next rest rfl ⟨⟩ -
      exact .nil _
  | @cons steps before middle after first stmts inside run others ih =>
      have keeps := declaration_keeps ready inside run
      have readyMiddle := keeps.ready ready.ended
      have more := others.faults readyMiddle
      obtain ⟨tokens, repeats, moves⟩ := declaration_elsewhere ready run (Nat.le_trans more clean)
      obtain ⟨tokens', passes, scope, elsewhere⟩ := ih readyMiddle (Nat.le_trans clean keeps.faults)
      have settled : middle.scope = before.scope := by
        rw [keeps.scope, Scope.settled_eq ready.clear]
      refine ⟨tokens ++ tokens', repeats.passes.trans passes, scope.trans settled, ?_⟩
      intro other next rest scopes front seen
      obtain ⟨token, ahead, split, looks, -⟩ := passes.next_same .orElse next rest fun nothing => by
        subst nothing
        exact passes.eq_of_nil ▸ seen
      rw [List.append_assoc, split] at front
      have rest :=
        elsewhere (other.beyond tokens token ahead middle.scope []) next rest rfl split.symm seen
      rw [State.beyond_beyond] at rest
      refine .cons ?_ (repeats.elsewhere other token ahead scopes front looks) rest
      cases tokens with
      | nil => exact absurd rfl moves
      | cons first tokens =>
          have current : other.cursor.current = first := (List.cons.inj front).1
          exact current ▸ repeats.passes.inside first List.mem_cons_self

/-- **Parsing is compositional at statement boundaries.** If some tokens are a program without a
fault, and others do not begin with an `else`, then both together are the statements of the program
followed by what the others are by themselves: their statements, as many faults as they have, and
the same reports in the same order. -/
theorem parse_append (inside : ∀ token ∈ front, token.kind ≠ .endOfInput) {last : Token}
    (kind : last.kind = .endOfInput) (clean : (parse (front ++ [last]) false).errorCount = 0)
    (ended : ∃ token ∈ rest, token.kind = .endOfInput)
    (noElse : ∀ token ∈ rest.head?, token.kind ≠ .kwElse) :
    parse (front ++ rest) false =
      ⟨(parse (front ++ [last]) false).statements ++ (parse rest false).statements,
        (parse rest false).errorCount, (parse rest false).errors⟩ := by
  have endedFront : ∃ token ∈ front ++ [last], token.kind = .endOfInput := ⟨last, by simp, kind⟩
  have endedWhole : ∃ token ∈ front ++ rest, token.kind = .endOfInput := by
    obtain ⟨token, member, kind⟩ := ended
    exact ⟨token, List.mem_append_right front member, kind⟩
  obtain ⟨stmts, after, run, -⟩ := program_parsed endedFront
  rw [parse_of_run endedFront run] at clean ⊢
  obtain ⟨declares, atEnd⟩ := declares_of_program run
  obtain ⟨tokens, passes, scope, elsewhere⟩ :=
    declares.elsewhere (start_ready endedFront) (Nat.le_of_eq clean)
  have split := passes.remaining
  rw [remaining_start endedFront] at split
  obtain ⟨rfl, -, -⟩ := split_unique inside kind passes.inside atEnd split
  cases rest with
  | nil => obtain ⟨token, member, -⟩ := ended; cases member
  | cons next rest =>
      have declares :=
        elsewhere (.start (front ++ next :: rest)) next rest rfl (remaining_start endedWhole)
        fun kind => absurd kind (noElse next rfl)
      rw [declares.parse endedWhole ended scope rfl, Parsed.append_eq]
      simp [State.beyond, State.reported, State.start]

/-- An `if` without an `else`, and a statement behind it that lacks its semicolon. -/
theorem parse_append_conditional :
    let name (text : String) : Token := .plain .identifier text 1
    let front :=
      [.plain .kwIf "if" 1, .plain .leftParen "(" 1, name "a", .plain .rightParen ")" 1, name "b",
      .plain .semicolon ";" 1]
    let rest := [name "c", .endOfInput 1]
    parse (front ++ rest) false =
        ⟨(parse (front ++ [.endOfInput 1]) false).statements ++ (parse rest false).statements,
          (parse rest false).errorCount, (parse rest false).errors⟩ ∧
      (parse (front ++ rest) false).statements.length = 1 ∧
      (parse (front ++ rest) false).errors.map (·.fault) =
      [.missing .semicolonAfterExpression] := by
  intro name front rest
  have clean : (parse (front ++ [.endOfInput 1]) false).errorCount = 0 := by decide +kernel
  refine ⟨parse_append (by decide) rfl clean ⟨.endOfInput 1, by simp [rest], rfl⟩
    (by decide), ?_, ?_⟩ <;>
    decide +kernel

/-! ### A simple statement -/

/-- The kinds of token that begin or end some other statement than a simple one, and the
semicolon. -/
def boundaryKinds : List TokenKind :=
  [.semicolon, .leftBrace, .rightBrace, .endOfInput, .kwClass, .kwFun, .kwVar, .kwFor, .kwIf,
    .kwWhile, .kwPrint,
    .kwReturn]

theorem statementStart_boundary {kind : TokenKind}
    (starts : TokenSet.statementStart.contains kind) :
    kind ∈ boundaryKinds := by
  revert starts
  cases kind <;> decide

/-- The cursor stands in a simple statement, with some of its tokens and its semicolon ahead. -/
structure Within (cursor : Cursor) (body : List Token) (close : Token) (rest : List Token) :
    Prop where
  ahead : cursor.remaining = body ++ close :: rest
  simple : ∀ token ∈ body, token.kind ∉ boundaryKinds
  closes : close.kind = .semicolon

namespace Within

variable {cursor after : Cursor} {close next : Token}

theorem current_ne (within : Within cursor body close rest) {kind : TokenKind}
    (listed : kind ∈ boundaryKinds) (other : kind ≠ .semicolon) : cursor.current.kind ≠ kind := by
  obtain ⟨ahead, simple, closes⟩ := within
  cases body with
  | nil =>
      rw [(List.cons.inj ahead).1, closes]
      exact other.symm
  | cons first body =>
      rw [(List.cons.inj ahead).1]
      exact fun same => simple first List.mem_cons_self (same ▸ listed)

/-- As long as no semicolon is passed, the statement goes on. -/
theorem pass (within : Within cursor body close rest) (passes : Cursor.Passes tokens cursor after)
    (noClose : ∀ token ∈ tokens, noSemicolon token.kind) :
    ∃ others, body = tokens ++ others ∧ Within after others close rest := by
  have split := within.ahead.symm.trans passes.remaining
  rcases List.append_eq_append_iff.mp split with ⟨others, front, behind⟩ | ⟨others, front, behind⟩
  · cases others with
    | nil => exact ⟨[], by simpa using front.symm, behind.symm, by simp, within.closes⟩
    | cons first others =>
        have same : close = first := (List.cons.inj behind).1
        have passed := noClose close (by simp [front, same])
        simp [noSemicolon, within.closes] at passed
  · exact ⟨others, front, behind, fun token member =>
      within.simple token (by simp [front, member]), within.closes⟩

/-- A statement that is read up to its first semicolon is read to its end. -/
theorem pass_close (within : Within cursor body close rest) {last : Token}
    (passes : Cursor.Passes (tokens ++ [last]) cursor after)
    (noClose : ∀ token ∈ tokens, noSemicolon token.kind) (closes : last.kind = .semicolon) :
    tokens = body ∧ last = close := by
  have front := passes.remaining.symm.trans within.ahead
  rw [List.append_assoc, List.singleton_append] at front
  have unique :=
    split_unique (fun token member => ?_) closes (fun token member same => ?_) within.closes front
  · exact ⟨unique.1, unique.2.1⟩
  · simpa [noSemicolon] using noClose token member
  · exact within.simple token member (same ▸ List.mem_cons_self)

/-- The first token of a statement does not end it, and the rest of the statement stands behind
it. -/
theorem later {first : Token} (within : Within cursor (first :: body) close rest)
    (passed : List Token) :
    Cursor.passedSemicolon (first :: passed) = false ∧ ∃ second others, cursor.current = first ∧
      cursor.ahead = second :: others ∧
        Within ⟨first :: passed, second, others⟩ body close rest := by
  have simple := within.simple first List.mem_cons_self
  have unclosed : Cursor.passedSemicolon (first :: passed) = false := by
    rw [Cursor.passedSemicolon, beq_eq_false_iff_ne]
    exact fun kind => simple (by simp [boundaryKinds, kind])
  refine ⟨unclosed, ?_⟩
  cases others : body ++ close :: rest with
  | nil => simp at others
  | cons second others' =>
      have ahead := within.ahead
      rw [List.cons_append, others] at ahead
      obtain ⟨current, ahead⟩ := List.cons.inj ahead
      exact ⟨second, others', current, ahead, others.symm,
        fun token member => within.simple token (List.mem_cons_of_mem _ member), within.closes⟩

theorem toBoundary_closed (closes : close.kind = .semicolon) (passed : List Token) (next : Token)
    (rest : List Token) :
    Cursor.toBoundary (close :: passed) next rest = ⟨close :: passed, next, rest⟩ := by
  cases rest with
  | nil => rfl
  | cons first rest => rw [Cursor.toBoundary, if_pos (by simp [Cursor.passedSemicolon, closes])]

/-- Recovery goes over the rest of the statement and stops behind its semicolon. -/
theorem toBoundary {passed : List Token} (within : Within cursor body close (next :: rest))
    (unclosed : Cursor.passedSemicolon passed = false) :
    Cursor.toBoundary passed cursor.current cursor.ahead =
      ⟨(body ++ [close]).reverse ++ passed, next, rest⟩ := by
  induction body generalizing cursor passed with
  | nil =>
      obtain ⟨current, ahead⟩ := List.cons.inj within.ahead
      rw [current, ahead, Cursor.toBoundary, unclosed, within.closes, if_neg (by decide),
        toBoundary_closed within.closes]
      rfl
  | cons first body ih =>
      have simple := within.simple first List.mem_cons_self
      have inside : first.kind ≠ .endOfInput := fun kind => simple (by simp [boundaryKinds, kind])
      have noStart : TokenSet.statementStart.contains first.kind = false :=
        Bool.eq_false_iff.mpr fun starts => simple (statementStart_boundary starts)
      obtain ⟨behind, second, others, current, ahead, later⟩ := within.later passed
      rw [current, ahead, Cursor.toBoundary, if_neg (by simp [unclosed, noStart, inside]),
        ih later behind]
      simp

theorem synchronize (within : Within cursor body close (next :: rest)) :
    cursor.synchronize = ⟨(body ++ [close]).reverse ++ cursor.passed, next, rest⟩ := by
  have inside : cursor.current.kind ≠ .endOfInput := within.current_ne (by decide) (by decide)
  rw [Cursor.synchronize, if_neg (by simpa [Cursor.atEnd] using inside), Cursor.advance,
    if_neg (by simpa [Cursor.atEnd] using inside)]
  -- One token is passed in any case; if it is the semicolon, that is all.
  cases body with
  | nil =>
      obtain ⟨current, ahead⟩ := List.cons.inj within.ahead
      rw [current, ahead]
      exact toBoundary_closed within.closes _ _ _
  | cons first body =>
      obtain ⟨behind, second, others, current, ahead, later⟩ := within.later cursor.passed
      rw [current, ahead]
      simp only
      rw [later.toBoundary behind]
      simp

end Within

/-- A parser reads a statement up to its first semicolon, or gives up before it has passed one; and
so it does from every state that it cannot tell from this one. -/
def Closes (state : State) {α : Type} (parser : Parser α) : Prop :=
  (parser state).Meets
    (fun value after => ∃ tokens close faults, (∀ token ∈ tokens, noSemicolon token.kind) ∧
      close.kind = .semicolon ∧
        Repeats anyKind .nothing parser (.parsed value) state after (tokens ++ [close]) faults)
    fun after =>
      ∃ tokens faults, Repeats noSemicolon .whole parser .failed state after tokens faults

namespace Closes

variable {α β : Type} {state : State} {parser : Parser α}

theorem fail (token : Token) (fault : GrammarFault) (ended : state.cursor.Ended) :
    Closes state (fail token fault : Parser α) := by
  have here : LocalFrom noSemicolon .whole false state (Parser.fail token fault : Parser α) :=
    Local.fail token fault state ended
  exact here

theorem congr {parser' : Parser α}
    (same : ∀ other : State, other.cursor.current = state.cursor.current →
      parser' other = parser other)
    (closes : Closes state parser) : Closes state parser' := by
  unfold Closes at closes ⊢
  rw [same state rfl]
  cases run : parser state with
  | exhausted => trivial
  | parsed value after =>
      rw [run] at closes
      obtain ⟨tokens, close, faults, before, kind, repeats⟩ := closes
      exact ⟨tokens, close, faults, before, kind, repeats.congr fun other _ equal =>
        same other (equal (by simp))⟩
  | failed after =>
      rw [run] at closes
      obtain ⟨tokens, faults, repeats⟩ := closes
      exact ⟨tokens, faults, repeats.congr fun other looks _ => same other looks⟩

theorem current_bind {next : Token → Parser β} (closes : Closes state (next state.cursor.current)) :
    Closes state (current >>= next) :=
  closes.congr fun other equal => congrArg (fun token => next token other) equal

theorem bind {next : α → Parser β} {strict : Bool}
    (first : LocalFrom noSemicolon .whole strict state parser)
    (rest : ∀ value after tokens, Cursor.Passes tokens state.cursor after.cursor →
      (∀ token ∈ tokens, noSemicolon token.kind) → Closes after (next value)) :
    Closes state (parser >>= next) := by
  unfold Closes
  rw [bind_apply, andThen]
  cases run : parser state with
  | exhausted => trivial
  | failed after =>
      obtain ⟨tokens, faults, repeats⟩ := first.of_failed run
      exact ⟨tokens, faults, repeats.bindFailed⟩
  | parsed value middle =>
      obtain ⟨tokens, faults, repeats, -⟩ := first.of_parsed run
      have second := rest value middle tokens repeats.passes repeats.allowed
      unfold Closes at second
      simp only
      cases last : next value middle with
      | exhausted => trivial
      | failed after =>
          rw [last] at second
          obtain ⟨tokens', faults', repeatsRest⟩ := second
          exact ⟨_, _, repeats.trans repeatsRest fun _ => Glance.covers_refl _⟩
      | parsed result after =>
          rw [last] at second
          obtain ⟨tokens', close, faults', before, kind, repeatsRest⟩ := second
          have both := (repeats.weaken (fun _ _ => rfl) (Glance.covers_refl _)).trans repeatsRest
            fun nothing => absurd nothing (by simp)
          refine ⟨tokens ++ tokens', close, _, fun token member =>
            ?_, kind, List.append_assoc .. ▸ both⟩
          rcases List.mem_append.mp member with member | member
          · exact repeats.allowed token member
          · exact before token member

/-- The semicolon, with whatever is checked once it has been passed. -/
theorem expect {next : Token → Parser β} (ended : state.cursor.Ended) (part : Missing)
    (still : ∀ token, Still (next token)) : Closes state (expect .semicolon part >>= next) := by
  cases found : state.cursor.check .semicolon with
  | false =>
      refine (Closes.fail state.cursor.current (.missing part) ended).congr fun other equal => ?_
      have absent : other.cursor.check .semicolon = false := by
        rw [Cursor.check, equal, ← found]; rfl
      simp only [expect_eq, bind_apply, andThen, eat?_of_not_check absent, current, equal]
      rfl
  | true =>
      have kind : state.cursor.current.kind = .semicolon := by simpa [Cursor.check] using found
      have passed : Repeats anyKind .nothing advance (.parsed state.cursor.current) state _ _ _ :=
        .advance ended (by simp [kind]) rfl
      obtain ⟨value, after, faults, run, behind⟩ :=
        (still state.cursor.current).repeats anyKind .nothing
        { state with cursor := state.cursor.advance }
      have both := passed.trans behind fun _ => Glance.covers_refl _
      have moves : Closes state (advance >>= next) := by
        unfold Closes
        rw [bind_apply, andThen]
        simp only [advance, run]
        exact ⟨[], state.cursor.current, faults, by simp, kind, by simpa using both⟩
      refine moves.congr fun other equal => ?_
      have here : other.cursor.check .semicolon = true := by rw [Cursor.check, equal, ← found]; rfl
      simp only [expect_eq, bind_apply, andThen, eat?_of_check here, advance]
      rfl

end Closes

/-! The statements that are simple, each with what it needs to know of its first tokens. -/

section

variable {state : State} {close : Token}

theorem closes_expressionStatement (steps : Nat) (ended : state.cursor.Ended) :
    Closes state (expressionStatement steps) :=
  .bind ((expressionsLocal steps).expression state ended) fun _ _ _ passes _ =>
    .expect (passes.ended ended) _ fun _ => .pure _

theorem closes_breakStatement (keyword : Token) (ended : state.cursor.Ended) :
    Closes state (breakStatement keyword) := by
  rw [breakStatement_eq]
  exact .bind (local_optionalLabel rfl state ended) fun _ _ _ passes _ =>
    .expect (passes.ended ended) _ fun _ => still_check

theorem closes_continueStatement (keyword : Token) (ended : state.cursor.Ended) :
    Closes state (continueStatement keyword) := by
  rw [continueStatement_eq]
  exact .bind (local_optionalLabel rfl state ended) fun _ _ _ passes _ =>
    .expect (passes.ended ended) _ fun _ => still_check

/-- Nothing that may have a label begins in a simple statement. -/
theorem takesLabel_boundary {kind : TokenKind} (takes : takesLabel kind) :
    kind ∈ boundaryKinds ∧ kind ≠ .semicolon := by
  revert takes
  cases kind <;> decide

theorem closes_labelledStatement (steps : Nat) (within : Within state.cursor body close rest)
    (ended : state.cursor.Ended) : Closes state (labelledStatement steps) := by
  cases steps with
  | zero => trivial
  | succ steps =>
      rw [labelledStatement]
      refine .bind (Local.expectName rfl _ state ended) fun label after tokens passes noClose =>
        .current_bind ?_
      obtain ⟨others, -, within⟩ := within.pass passes noClose
      have bare : ¬ takesLabel after.cursor.current.kind := fun takes =>
        within.current_ne (takesLabel_boundary takes).1 (takesLabel_boundary takes).2 rfl
      rw [if_neg bare]
      exact .fail _ _ (passes.ended ended)

theorem closes_statement (steps : Nat) (within : Within state.cursor body close rest)
    (ended : state.cursor.Ended) : Closes state (statement steps) := by
  cases steps with
  | zero => trivial
  | succ steps =>
      have other {kind : TokenKind} (listed : kind ∈ boundaryKinds) (unclosed : kind ≠ .semicolon)
          (same : state.cursor.current.kind = kind) : False :=
            within.current_ne listed unclosed same
      have here : Closes state (if statementKinds.contains state.cursor.current.kind then
          advance >>= fun _ =>
            statementAfter steps state.cursor.current else expressionStatement steps) := by
        split
        · rename_i begins
          have inside := statementKinds_inside begins
          have noClose : noSemicolon state.cursor.current.kind := by
            rw [noSemicolon, bne_iff_ne]
            rintro kind
            simp [statementKinds, kind] at begins
          refine .bind (.advance ended inside noClose) fun _ after tokens passes noClose => ?_
          obtain ⟨others, -, behind⟩ := within.pass passes noClose
          unfold statementAfter
          split
          · rename_i kind
            exact (other (by decide) (by decide) kind).elim
          · rename_i kind
            exact (other (by decide) (by decide) kind).elim
          · rename_i kind
            exact (other (by decide) (by decide) kind).elim
          · rename_i kind
            exact (other (by decide) (by decide) kind).elim
          · rename_i kind
            exact (other (by decide) (by decide) kind).elim
          · exact closes_breakStatement _ (passes.ended ended)
          · exact closes_continueStatement _ (passes.ended ended)
          · rename_i kind
            exact (other (by decide) (by decide) kind).elim
          · exact closes_labelledStatement steps behind (passes.ended ended)
        · exact closes_expressionStatement steps ended
      exact here.congr fun other equal => by rw [statement_apply, equal]; split <;> rfl

theorem closes_declared (steps : Nat) (within : Within state.cursor body close rest)
    (ended : state.cursor.Ended) : Closes state (declared steps) := by
  cases steps with
  | zero => trivial
  | succ steps =>
      refine (closes_statement steps within ended).congr fun other equal => ?_
      have absent (kind : TokenKind) (listed : kind ∈ boundaryKinds)
          (unclosed : kind ≠ .semicolon) :
          eat? kind other = .parsed none other := by
        refine eat?_of_not_check ?_
        rw [Cursor.check, equal, beq_eq_false_iff_ne]
        exact within.current_ne listed unclosed
      have noVar := absent .kwVar (by decide) (by decide)
      have noFun := absent .kwFun (by decide) (by decide)
      simp only [declared, eat_bind]
      rw [bind_apply, andThen, noVar]
      change (eat? .kwFun >>= _) other = _
      rw [bind_apply, andThen, noFun]
      rfl

/-- However a simple statement goes wrong, reading it ends behind its semicolon, and shows nothing
of what comes then. -/
theorem simple_declaration {steps : Nat} {before after : State} {stmt : Option Stmt} {next : Token}
    (within : Within before.cursor body close (next :: rest)) (ended : before.cursor.Ended)
    (run : declaration steps before = .parsed stmt after) :
    ∃ faults,
      Repeats anyKind .nothing (declaration steps) (.parsed stmt) before after (body ++ [close])
      faults := by
  cases steps with
  | zero => cases run
  | succ steps =>
      have closes := closes_declared steps within ended
      unfold Closes at closes
      rw [declaration, recovering] at run
      cases inner : declared steps before with
      | exhausted => simp [inner] at run
      | parsed value last =>
          rw [inner] at run closes
          cases run
          obtain ⟨tokens, last, faults, noClose, kind, repeats⟩ := closes
          obtain ⟨rfl, rfl⟩ := within.pass_close repeats.passes noClose kind
          refine ⟨faults, repeats.passes, repeats.allowed, repeats.errors,
            fun other next rest scopes front seen => ?_⟩
          rw [declaration, recovering, repeats.elsewhere other next rest scopes front seen]
      | failed last =>
          rw [inner] at run closes
          cases run
          obtain ⟨tokens, faults, repeats⟩ := closes
          obtain ⟨others, rfl, behind⟩ := within.pass repeats.passes repeats.allowed
          have inside : ∀ token ∈ others ++ [close], token.kind ≠ .endOfInput := by
            intro token member kind
            rcases List.mem_append.mp member with member | member
            · exact behind.simple token member (by simp [boundaryKinds, kind])
            · simp [List.mem_singleton.mp member, within.closes] at kind
          have skips : Cursor.Passes (others ++ [close]) last.cursor last.cursor.synchronize := by
            rw [behind.synchronize]
            exact .of_remaining (by simp [behind.ahead]) inside
          rw [List.append_assoc]
          refine ⟨faults, repeats.passes.trans skips, fun _ _ => rfl, repeats.errors, ?_⟩
          rintro other next' rest' scopes front -
          -- Elsewhere the parser gives up at the same token, and recovery starts from there.
          obtain ⟨first, ahead, split, same, -⟩ := skips.next_same .whole next' rest' (by simp)
          rw [List.append_assoc, split] at front
          have there : Within ⟨tokens.reverse ++ other.cursor.passed, first, ahead⟩ others close
              (next' :: rest') :=
            ⟨split.symm.trans (List.append_assoc ..), behind.simple, behind.closes⟩
          rw [declaration, recovering, repeats.elsewhere other first ahead scopes front same]
          simp [State.beyond, there.synchronize]

/-- Nothing with a semicolon in it is one expression. -/
theorem simple_not_bare (within : Within (State.start tokens).cursor body close rest)
    (ended : ∃ token ∈ tokens, token.kind = .endOfInput) (expr : Expr) :
    ¬ BareExpression tokens expr := by
  rintro ⟨steps, after, run, -, atEnd⟩
  obtain ⟨passed, faults, repeats, -⟩ :=
    ((expressionsLocal steps).expression _ (start_ready ended).ended).of_parsed run
  obtain ⟨others, -, behind⟩ := within.pass repeats.passes repeats.allowed
  exact behind.current_ne (by decide) (by decide) (beq_iff_eq.mp atEnd)

/-- So the attempt at the prompt comes to nothing, and a program is read. -/
theorem simple_parse (within : Within (State.start tokens).cursor body close rest)
    (ended : ∃ token ∈ tokens, token.kind = .endOfInput) (expressionOnly : Bool) :
    parse tokens expressionOnly = parse tokens false := by
  cases expressionOnly with
  | false => rfl
  | true => exact parse_not_bare ended (simple_not_bare within ended)

end

/-- **An error in one simple statement is contained.** Some tokens without a semicolon, a brace, the
end of the input and the keywords that begin other statements, a semicolon, and anything else behind
it: together they are what the tokens are with their semicolon and nothing behind it, one statement
at most, followed by what the rest is by itself. Whatever is wrong in front of the semicolon, behind
it nothing is added, lost or changed, and the faults in front of it are the same whatever comes. At
the prompt the same holds, but the rest is always a program. -/
theorem parse_simple (simple : ∀ token ∈ body, token.kind ∉ boundaryKinds) {close last : Token}
    (closes : close.kind = .semicolon) (kind : last.kind = .endOfInput)
    (ended : ∃ token ∈ rest, token.kind = .endOfInput) (expressionOnly : Bool) :
    parse (body ++ close :: rest) expressionOnly =
        parse (body ++ [close, last]) expressionOnly ++ parse rest false ∧
      (parse (body ++ [close, last]) expressionOnly).statements.length ≤ 1 := by
  have endedWhole : ∃ token ∈ body ++ close :: rest, token.kind = .endOfInput := by
    obtain ⟨token, member, kind⟩ := ended
    exact ⟨token, by simp [member], kind⟩
  have endedAlone : ∃ token ∈ body ++ [close, last], token.kind = .endOfInput :=
    ⟨last, by simp, kind⟩
  have endedLast : ∃ token ∈ [last], token.kind = .endOfInput := ⟨last, by simp, kind⟩
  have whole : Within (State.start (body ++ close :: rest)).cursor body close rest :=
    ⟨remaining_start endedWhole, simple, closes⟩
  have alone : Within (State.start (body ++ [close, last])).cursor body close [last] :=
    ⟨remaining_start endedAlone, simple, closes⟩
  rw [simple_parse whole endedWhole, simple_parse alone endedAlone]
  cases rest with
  | nil => obtain ⟨token, member, -⟩ := ended; cases member
  | cons next rest =>
      -- The first declaration of the whole input is read up to the semicolon, and then once more by
      -- itself.
      obtain ⟨stmts, after, run, -⟩ := program_parsed endedWhole
      rw [stepBound, Nat.mul_succ] at run
      rcases program_run run with ⟨atEnd, -, -⟩ | ⟨inside, first, middle, others, firstRun, -, -⟩
      · exact absurd atEnd (whole.current_ne (by decide) (by decide))
      · obtain ⟨faults, repeats⟩ := simple_declaration whole (start_ready endedWhole).ended firstRun
        have scope : middle.scope = .program := by
          rw [(declaration_keeps (start_ready endedWhole) inside firstRun).scope]
          rfl
        have wholeRun := repeats.elsewhere (.start (body ++ close :: next :: rest)) next rest rfl
          (by rw [whole.ahead]; simp) trivial
        have aloneRun := repeats.elsewhere (.start (body ++ [close, last])) last [] rfl
          (by rw [alone.ahead]; simp) trivial
        have insideAlone :
            (State.start (body ++ [close, last])).cursor.current.kind ≠ .endOfInput :=
          alone.current_ne (by decide) (by decide)
        have wholeParse := (Declares.cons inside wholeRun (.nil _)).parse endedWhole ended scope rfl
        have aloneParse :=
          (Declares.cons insideAlone aloneRun (.nil _)).parse endedAlone endedLast scope rfl
        rw [wholeParse, aloneParse, parse_end kind]
        simp [Parsed.append_eq, State.beyond, State.reported, State.start]

/-- A `break` that is not closed where it should be, and a statement behind it with a fault of its
own. -/
theorem parse_simple_break :
    let name (text : String) : Token := .plain .identifier text 1
    let body := [.plain .kwBreak "break" 1, name "a", name "b"]
    let semicolon := .plain .semicolon ";" 1
    let rest := [name "c", semicolon, .plain .rightParen ")" 1, .endOfInput 1]
    (parse (body ++ semicolon :: rest) true =
        parse (body ++ [semicolon, .endOfInput 1]) true ++ parse rest false ∧
      (parse (body ++ [semicolon, .endOfInput 1]) true).statements.length ≤ 1) ∧
      (parse (body ++ semicolon :: rest) false).statements.length = 1 ∧
      (parse (body ++ semicolon :: rest) false).errors.map (·.fault) =
        [.missing .semicolonAfterBreak, .missing .expression] := by
  intro name body semicolon rest
  refine ⟨parse_simple (by decide) rfl rfl ⟨.endOfInput 1, by simp [rest], rfl⟩ true, ?_, ?_⟩ <;>
    decide +kernel

end Parser

end Lox
