import Lox.Parser.Program
import Lox.Proofs.Parser.Completeness
import Lox.Proofs.Parser.Soundness
import Lox.Proofs.Token.Scanned

/-!
The language that the parser accepts.

A row of declarations that was read without a report is lawful (`program_sound`), and a lawful one
is read without a report (`readsRows_program`). Since the parser always ends within the steps that
it is given (`program_ends`), the two together say of every row of tokens whether it is accepted,
and what becomes of it if it is.
-/

namespace Lox

/-- A row of tokens derives a program that is well formed and obeys the rules. -/
structure Derives (tokens : List Token) (program : List Declaration) : Prop where
  spells : Spells (Declaration.spellings program) tokens
  formed : Declaration.AllWellFormed program
  obeys : Declaration.AllObey program .program

namespace Parser

open State

/-! ### Runs to the end of the input -/

/-- After a fault the parser goes on with the next declaration, so it never gives up. -/
theorem declaration_recovers (steps : Nat) (before after : State) :
    declaration steps before ≠ .failed after := by
  cases steps with
  | zero => rintro ⟨⟩
  | succ steps =>
      rw [declaration, recovering]
      cases declared steps before with
      | parsed stmt last => simp
      | failed last => simp
      | exhausted => simp

theorem program_recovers (steps : Nat) (before after : State) :
    program steps before ≠ .failed after := by
  induction steps generalizing before after with
  | zero => rintro ⟨⟩
  | succ steps ih =>
      rw [program, bind_apply, andThen]
      change (if before.cursor.atEnd then _ else _ : Parser (List Stmt)) before ≠ _
      split
      · simp
      · rw [bind_apply, andThen]
        cases first : declaration steps before with
        | exhausted => simp
        | failed last => exact absurd first (declaration_recovers steps before last)
        | parsed stmt middle =>
            simp only
            rw [bind_apply, andThen]
            cases rest : program steps middle with
            | exhausted => simp
            | failed last => exact absurd rest (ih middle last)
            | parsed stmts last => simp

/-- A run over a row of declarations, taken apart. -/
theorem program_run {steps : Nat} {before after : State} {stmts : List Stmt}
    (run : program (steps + 1) before = .parsed stmts after) :
    (before.cursor.current.kind = .endOfInput ∧ stmts = [] ∧ after = before) ∨
      (before.cursor.current.kind ≠ .endOfInput ∧ ∃ first middle rest,
        declaration steps before = .parsed first middle ∧
          program steps middle = .parsed rest after ∧ stmts = first.toList ++ rest) := by
  rw [program, bind_eq_parsed] at run
  obtain ⟨ends, same, ended, run⟩ := run
  cases ended
  split at run
  · rename_i atEnd
    cases run
    exact .inl ⟨by simpa [Cursor.atEnd] using atEnd, rfl, rfl⟩
  · rename_i goesOn
    simp only [bind_eq_parsed] at run
    obtain ⟨first, middle, firstRun, rest, last, restRun, run⟩ := run
    cases run
    exact .inr ⟨by simpa [Cursor.atEnd] using goesOn, first, middle, rest, firstRun, restRun, rfl⟩

theorem declaration_keeps {steps : Nat} {before after : State} {stmt : Option Stmt}
    (ready : before.Ready) (inside : before.cursor.current.kind ≠ .endOfInput)
    (run : declaration steps before = .parsed stmt after) : before.Keeps true after := by
  have kept := (statementContracts steps).declaration before ready inside
  rwa [KeepsFrom, run] at kept

theorem program_faults {steps : Nat} {before after : State} {stmts : List Stmt}
    (ready : before.Ready) (run : program steps before = .parsed stmts after) :
    before.faults ≤ after.faults := by
  induction steps generalizing before stmts with
  | zero => cases run
  | succ steps ih =>
      rcases program_run run with ⟨-, -, rfl⟩ | ⟨inside, first, middle, rest, firstRun, restRun, -⟩
      · exact Nat.le_refl _
      · have keeps := declaration_keeps ready inside firstRun
        exact Nat.le_trans keeps.faults (ih (keeps.ready ready.ended) restRun)

/-- What was read up to the end of the input without a report is lawful. -/
theorem program_sound {steps : Nat} {before after : State} {stmts : List Stmt}
    (ready : before.Ready) (scope : before.scope = .program)
    (run : program steps before = .parsed stmts after) (clean : after.faults ≤ before.faults) :
    ∃ (tokens : List Token) (body : List Declaration), Goes tokens before after ∧
      RowOf .program tokens body ∧ stmts = Declaration.trees body ∧
      after.cursor.current.kind = .endOfInput := by
  induction steps generalizing before stmts with
  | zero => cases run
  | succ steps ih =>
      rcases program_run run with ⟨atEnd, rfl, rfl⟩
          | ⟨inside, first?, middle, rest, firstRun, restRun, rfl⟩
      · exact ⟨[], [], .refl _, .nil _, rfl, atEnd⟩
      · have keeps := declaration_keeps ready inside firstRun
        have readyMiddle := keeps.ready ready.ended
        have less := program_faults readyMiddle restRun
        have more := keeps.faults
        have here : middle.scope = .program := by
          rw [keeps.scope, Scope.settled_eq ready.clear, scope]
        obtain ⟨tokens, first, goes, firstOf, rfl⟩ := (statementsSound steps).declaration .program
          before ready (by rw [scope, Place.scope_program]) inside first? middle firstRun (by omega)
        obtain ⟨others, body, goesRest, rowOf, rfl, atEnd⟩ := ih readyMiddle here restRun (by omega)
        exact ⟨tokens ++ others, first :: body, goes.trans goesRest,
          .cons firstOf rowOf, rfl, atEnd⟩

/-! ### Rows of tokens -/

variable {tokens : List Token}

theorem start_ready (ended : ∃ token ∈ tokens, token.kind = .endOfInput) :
    (State.start tokens).Ready := by
  refine ⟨?_, rfl⟩
  obtain ⟨token, member, kind⟩ := ended
  cases tokens with
  | nil => cases member
  | cons first rest => exact ⟨token, member, kind⟩

/-- The first end of the input is where it is the only one. -/
theorem before_end_unique {front rest : List Token} {last : Token} {line : Nat}
    (kind : last.kind = .endOfInput) (outside : ∀ token ∈ front, token.kind ≠ .endOfInput)
    (inside : ∀ token ∈ tokens, token.kind ≠ .endOfInput)
    (same : tokens ++ [.endOfInput line] = front ++ last :: rest) : front = tokens := by
  have before := congrArg (List.takeWhile fun token => token.kind != .endOfInput) same
  rw [List.takeWhile_append_of_pos (by simpa using inside),
    List.takeWhile_append_of_pos (by simpa using outside)] at before
  simpa [kind, Token.endOfInput, Token.plain] using before.symm

/-- With the steps that it is given, the parser comes to the end of the tokens. -/
theorem program_parsed (ended : ∃ token ∈ tokens, token.kind = .endOfInput) :
    ∃ stmts after, program (stepBound tokens) (.start tokens) = .parsed stmts after ∧
      parseProgram tokens = ⟨stmts, after.errors.length, after.reported⟩ := by
  have enough : 20 * tokens.length + 20 ≤ stepBound tokens := by
    rw [stepBound]
    omega
  have ends := program_ends enough (.start tokens) (start_ready ended) (by
    cases tokens with
    | nil => exact Nat.zero_le _
    | cons first rest => exact Nat.le_succ _)
  cases run : program (stepBound tokens) (.start tokens) with
  | exhausted => exact absurd run ends
  | failed last => exact absurd run (program_recovers _ _ _)
  | parsed stmts after => exact ⟨stmts, after, rfl, by rw [parseProgram, programFrom, run]⟩

/-- A row of tokens that is accepted begins with a lawful program, up to the first end of the
input. -/
theorem parseProgram_sound (ended : ∃ token ∈ tokens, token.kind = .endOfInput)
    (clean : (parseProgram tokens).errorCount = 0) :
    ∃ (front : List Token) (program : List Declaration) (last : Token) (rest : List Token),
      tokens = front ++ last :: rest ∧ last.kind = .endOfInput ∧
      (∀ token ∈ front, token.kind ≠ .endOfInput) ∧ RowOf .program front program ∧
      (parseProgram tokens).statements = Declaration.trees program := by
  obtain ⟨stmts, after, run, parsed⟩ := program_parsed ended
  rw [parsed] at clean ⊢
  have none : after.errors = [] := List.length_eq_zero_iff.mp clean
  obtain ⟨front, program, goes, rowOf, rfl, atEnd⟩ := program_sound (start_ready ended) rfl run
    (by rw [State.faults, none]; exact Nat.zero_le _)
  refine ⟨front, program, after.cursor.current, after.cursor.ahead, ?_, atEnd, goes.passes.inside,
    rowOf, rfl⟩
  have remaining := goes.passes.remaining
  cases tokens with
  | nil =>
      obtain ⟨token, member, -⟩ := ended
      cases member
  | cons first others => exact remaining

/-- The tokens of a lawful program are accepted, and each of its declarations becomes a
statement. -/
theorem parseProgram_complete {program : List Declaration} {line : Nat}
    (inside : ∀ token ∈ tokens, token.kind ≠ .endOfInput) (derives : Derives tokens program) :
    parseProgram (tokens ++ [.endOfInput line]) = ⟨Declaration.trees program, 0, []⟩ := by
  have ended : ∃ token ∈ tokens ++ [.endOfInput line], token.kind = .endOfInput :=
    ⟨_, List.mem_append_right _ List.mem_cons_self, rfl⟩
  have remaining : (State.start (tokens ++ [.endOfInput line])).cursor.remaining =
      tokens ++ .endOfInput line :: [] := by
    cases tokens <;> rfl
  have goes := goes_of_remaining remaining inside
  have reads := declarations_read program .program derives.formed derives.obeys
  obtain ⟨stmts, after, run, parsed⟩ := program_parsed ended
  have ends : Parser.program (stepBound (tokens ++ [.endOfInput line]))
      (.start (tokens ++ [.endOfInput line])) ≠ .exhausted := by
    rw [run]
    simp
  have reached := (row_reads readsRows_program (by decide) reads derives.spells goes rfl rfl).result
    extends_program ends
  rw [run] at reached
  cases reached
  rw [parsed]
  rfl

/-- A row of tokens in front of the end of the input is accepted exactly if it derives a program,
and what comes out is what becomes of that program. -/
theorem parse_exact (line : Nat)
    (scanned : ∀ token ∈ tokens, token.kind ≠ .endOfInput ∧ token.Carries) :
    ((parse (tokens ++ [.endOfInput line]) false).errorCount = 0 ↔
      ∃ program, Derives tokens program) ∧
      ∀ program, Derives tokens program →
        (parse (tokens ++ [.endOfInput line]) false).statements = program.map Declaration.tree := by
  have inside : ∀ token ∈ tokens, token.kind ≠ .endOfInput := fun token member =>
    (scanned token member).1
  have parses : parse (tokens ++ [.endOfInput line]) false =
      parseProgram (tokens ++ [.endOfInput line]) := rfl
  rw [parses]
  refine ⟨⟨?_, ?_⟩, ?_⟩
  · intro accepted
    obtain ⟨front, program, last, rest, same, kind, outside, rowOf, -⟩ :=
      parseProgram_sound ⟨_, List.mem_append_right _ List.mem_cons_self, rfl⟩ accepted
    obtain rfl : front = tokens := before_end_unique kind outside inside same
    exact ⟨program, rowOf.written fun token member => (scanned token member).2, rowOf.formed,
      rowOf.obeys⟩
  · rintro ⟨program, derives⟩
    rw [parseProgram_complete inside derives]
  · intro program derives
    rw [parseProgram_complete inside derives, Declaration.trees_eq]

end Parser

/-- A source text is accepted exactly if the tokens in front of the end of the input derive a
program of the surface language that obeys the rules. Then the statements are what becomes of its
declarations, one for one and in their order. -/
theorem parse_accepts_exactly (source : String) :
    ∃ (tokens : List Token) (line : Nat), (scan source).tokens = tokens ++ [.endOfInput line] ∧
      ((parse (scan source).tokens false).errorCount = 0 ↔ ∃ program, Derives tokens program) ∧
      ∀ program, Derives tokens program →
        (parse (scan source).tokens false).statements = program.map Declaration.tree := by
  obtain ⟨tokens, line, found, scanned⟩ := scan_tokens source
  obtain ⟨accepts, becomes⟩ := Parser.parse_exact line scanned
  rw [found]
  exact ⟨tokens, line, rfl, accepts, becomes⟩

end Lox
