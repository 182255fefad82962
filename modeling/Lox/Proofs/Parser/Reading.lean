import Lox.Proofs.Parser.Steps
import Lox.Proofs.Syntax.Spelling

/-!
Reading a row of tokens without a fault.

`State.Goes` is what a parser does when all goes well: it passes the tokens of what it reads and
changes nothing else. There are two ways to use it.

* Forward: `Reaches` says what a parser makes of tokens that are known, given enough steps. Since
  more steps change nothing, it says so for every number of steps with which the parser ends at all.
* Backward: a run that reported no fault is taken apart into the runs of its parts, none of which
  reported one either, since faults are only ever added (`State.faults`).
-/

namespace Lox.Parser

variable {α β : Type}

/-! ### States -/

/-- Going from one state to the other passes the tokens between them and does nothing else. -/
structure State.Goes (tokens : List Token) (before after : State) : Prop where
  passes : Cursor.Passes tokens before.cursor after.cursor
  scope : after.scope = before.scope
  errors : after.errors = before.errors

/-- How many faults have been reported. -/
def State.faults (state : State) : Nat :=
  state.errors.length

namespace State

variable {first second tokens : List Token} {token : Token} {before middle after other : State}

theorem Goes.refl (state : State) : Goes [] state state :=
  ⟨.refl _, rfl, rfl⟩

theorem Goes.trans (left : Goes first before middle) (right : Goes second middle after) :
    Goes (first ++ second) before after :=
  ⟨left.passes.trans right.passes, right.scope.trans left.scope, right.errors.trans left.errors⟩

theorem Goes.cons (left : Goes [token] before middle) (right : Goes tokens middle after) :
    Goes (token :: tokens) before after :=
  left.trans right

theorem Goes.unique (left : Goes tokens before after) (right : Goes tokens before other) :
    after = other := by
  obtain ⟨passes, scope, errors⟩ := left
  obtain ⟨passesOther, scopeOther, errorsOther⟩ := right
  have cursor := passes.unique passesOther
  cases after
  cases other
  simp_all

theorem Goes.faults (goes : Goes tokens before after) : after.faults = before.faults := by
  rw [State.faults, goes.errors, State.faults]

theorem Goes.ready (goes : Goes tokens before after) (ready : before.Ready) : after.Ready :=
  ⟨goes.passes.ended ready.ended, by rw [goes.scope, ready.clear]⟩

/-- The place after some of the tokens ahead. -/
theorem goes_of_remaining {rest : List Token} {next : Token}
    (remaining : before.cursor.remaining = tokens ++ next :: rest)
    (inside : ∀ token ∈ tokens, token.kind ≠ .endOfInput) :
    Goes tokens before
      { before with cursor := ⟨tokens.reverse ++ before.cursor.passed, next, rest⟩ } :=
  ⟨.of_remaining remaining inside, rfl, rfl⟩

theorem Goes.split (goes : Goes (first ++ second) before after) :
    ∃ middle, Goes first before middle ∧ Goes second middle after := by
  obtain ⟨⟨passed, remaining, inside⟩, scope, errors⟩ := goes
  have firstInside : ∀ token ∈ first, token.kind ≠ .endOfInput := fun token member =>
    inside token (List.mem_append_left _ member)
  cases rest : second ++ after.cursor.remaining with
  | nil => simp [Cursor.remaining] at rest
  | cons next ahead =>
      rw [List.append_assoc, rest] at remaining
      refine ⟨_, goes_of_remaining remaining firstInside, ⟨?_, ?_, ?_⟩, scope, errors⟩
      · rw [passed, List.reverse_append, List.append_assoc]
      · exact rest.symm
      · exact fun token member => inside token (List.mem_append_right _ member)

theorem Goes.splitCons (goes : Goes (token :: tokens) before after) :
    ∃ middle, Goes [token] before middle ∧ Goes tokens middle after :=
  @Goes.split [token] tokens before after goes

theorem Goes.current (goes : Goes (token :: tokens) before after) :
    before.cursor.current = token := by
  have remaining := goes.passes.remaining
  rw [Cursor.remaining, List.cons_append] at remaining
  exact (List.cons.inj remaining).1

/-- The current token is the first of those that are passed, so it is of the kind of the first
mark. -/
theorem Goes.kind {mark : Mark} {marks : List Mark} (goes : Goes tokens before after)
    (spells : Spells (mark :: marks) tokens) : before.cursor.current.kind = mark.kind := by
  obtain ⟨token, rest, rfl, fits, -⟩ := Spells.cons_iff.mp spells
  rw [goes.current, fits.kind]

theorem goes_advance {state : State} (ended : state.cursor.Ended)
    (inside : state.cursor.current.kind ≠ .endOfInput) :
    Goes [state.cursor.current] state { state with cursor := state.cursor.advance } :=
  ⟨Cursor.passes_advance ended inside, rfl, rfl⟩

/-- Passing one token is what `advance` does. -/
theorem Goes.advance (goes : Goes [token] before after) :
    { before with cursor := before.cursor.advance } = after := by
  obtain ⟨⟨passed, remaining, inside⟩, scope, errors⟩ := goes
  have kind := inside token List.mem_cons_self
  rcases before with ⟨⟨passedBefore, current, ahead⟩, scopeBefore, errorsBefore⟩
  rcases after with ⟨⟨passedAfter, next, rest⟩, scopeAfter, errorsAfter⟩
  simp only [Cursor.remaining, List.cons_append, List.nil_append, List.cons.injEq] at remaining
  obtain ⟨rfl, rfl⟩ := remaining
  simp_all [Cursor.advance, Cursor.atEnd]

theorem Keeps.faults {strict : Bool} (keeps : Keeps strict before after) :
    before.faults ≤ after.faults :=
  keeps.errors.length_le

end State

open State

/-! ### Forward -/

/-- With enough steps, a parser has a value and leads from one state to another. -/
def Reaches (parser : Nat → Parser α) (before : State) (value : α) (after : State) : Prop :=
  ∃ enough, ∀ steps, enough ≤ steps → parser steps before = .parsed value after

namespace Reaches

variable {parser : Nat → Parser α} {before middle after : State} {value : α}

theorem of_eq {one : Parser α} (result : one before = .parsed value after) :
    Reaches (fun _ => one) before value after :=
  ⟨0, fun _ _ => result⟩

theorem pure (value : α) (state : State) :
    Reaches (fun _ => (Pure.pure value : Parser α)) state value state :=
  of_eq rfl

theorem step (reaches : Reaches (fun steps => parser (steps + 1)) before value after) :
    Reaches parser before value after := by
  obtain ⟨enough, reaches⟩ := reaches
  refine ⟨enough + 1, fun steps le => ?_⟩
  obtain ⟨fewer, rfl⟩ : ∃ fewer, steps = fewer + 1 := ⟨steps - 1, by omega⟩
  exact reaches fewer (by omega)

theorem bind {next : Nat → α → Parser β} {result : β} (first : Reaches parser before value middle)
    (rest : Reaches (fun steps => next steps value) middle result after) :
    Reaches (fun steps => parser steps >>= next steps) before result after := by
  obtain ⟨enough, first⟩ := first
  obtain ⟨more, rest⟩ := rest
  refine ⟨max enough more, fun steps le => ?_⟩
  change (parser steps >>= next steps) before = _
  rw [bind_apply, Parser.andThen, first steps (by omega)]
  exact rest steps (by omega)

/-- A result that is reached at all is the result with every number of steps that brings one. -/
theorem result (reaches : Reaches parser before value after)
    (more : ∀ steps, Extends (parser steps) (parser (steps + 1))) {steps : Nat}
    (ends : parser steps before ≠ .exhausted) : parser steps before = .parsed value after := by
  obtain ⟨enough, reaches⟩ := reaches
  have same := Extends.of_le more (Nat.le_max_right enough steps) before ends
  rw [← same]
  exact reaches _ (Nat.le_max_left enough steps)

end Reaches

section Forward

variable {token : Token} {tokens : List Token} {before middle after : State} {kind : TokenKind}

theorem eat?_goes (goes : Goes [token] before after) (same : token.kind = kind) :
    eat? kind before = .parsed (some token) after := by
  have found : before.cursor.check kind := by simp [Cursor.check, goes.current, same]
  rw [eat?_of_check found, goes.advance, goes.current]

theorem eat?_other (other : before.cursor.current.kind ≠ kind) :
    eat? kind before = .parsed none before :=
  eat?_of_not_check (by simpa [Cursor.check] using other)

theorem eat_goes (goes : Goes [token] before after) (same : token.kind = kind) :
    eat kind before = .parsed true after := by
  rw [eat, bind_apply, Parser.andThen, eat?_goes goes same]
  rfl

theorem eat_other (other : before.cursor.current.kind ≠ kind) :
    eat kind before = .parsed false before := by
  rw [eat, bind_apply, Parser.andThen, eat?_other other]
  rfl

theorem expect_goes (goes : Goes [token] before after) (same : token.kind = kind) (part : Missing) :
    expect kind part before = .parsed token after := by
  rw [expect_eq, bind_apply, Parser.andThen, eat?_goes goes same]
  rfl

theorem expectName_goes {name : Name} (goes : Goes [token] before after)
    (fits : (Mark.ofName name).Fits token) (part : Missing) :
    expectName part before = .parsed name after := by
  obtain ⟨same, named⟩ := Mark.fits_ofName.mp fits
  rw [expectName, bind_apply, Parser.andThen, expect_goes goes same, ← named]
  rfl

theorem advance_goes (goes : Goes [token] before after) : advance before = .parsed token after := by
  rw [advance, goes.advance, goes.current]

theorem checkLimit_below {count : Nat} {fault : GrammarFault} (below : count < argumentLimit) :
    checkLimit count fault before = .parsed () before := by
  rw [checkLimit, if_neg (by omega)]
  rfl

end Forward

/-! ### Backward -/

section Backward

variable {strict : Bool} {parser : Parser α} {before middle after : State} {value : α}
  {kind : TokenKind}

theorem bind_eq_parsed {next : α → Parser β} {result : β} :
    (parser >>= next) before = .parsed result after ↔
      ∃ value middle, parser before = .parsed value middle ∧
        next value middle = .parsed result after := by
  rw [bind_apply, Parser.andThen]
  cases parser before <;> simp

theorem Contract.keeps (contract : Contract strict parser) (ready : before.Ready)
    (run : parser before = .parsed value after) : before.Keeps strict after := by
  have kept := contract before ready
  rw [KeepsFrom, run] at kept
  exact kept

theorem eat?_run (ended : before.cursor.Ended) (inside : kind ≠ .endOfInput) {found : Option Token}
    (run : eat? kind before = .parsed found after) :
    (found = none ∧ after = before ∧ before.cursor.current.kind ≠ kind) ∨
      ∃ token, found = some token ∧ token.kind = kind ∧ Goes [token] before after := by
  cases check : before.cursor.check kind with
  | false =>
      rw [eat?_of_not_check check] at run
      cases run
      exact .inl ⟨rfl, rfl, by simpa [Cursor.check] using check⟩
  | true =>
      have same : before.cursor.current.kind = kind := by simpa [Cursor.check] using check
      rw [eat?_of_check check] at run
      cases run
      exact .inr ⟨_, rfl, same, goes_advance ended (same ▸ inside)⟩

theorem eat_run (ended : before.cursor.Ended) (inside : kind ≠ .endOfInput) {found : Bool}
    (run : eat kind before = .parsed found after) :
    (found = false ∧ after = before ∧ before.cursor.current.kind ≠ kind) ∨
      found = true ∧ ∃ token, token.kind = kind ∧ Goes [token] before after := by
  obtain ⟨token?, middle, eaten, rest⟩ := bind_eq_parsed.mp run
  cases rest
  rcases eat?_run ended inside eaten with ⟨rfl, rfl, other⟩ | ⟨token, rfl, same, goes⟩
  · exact .inl ⟨rfl, rfl, other⟩
  · exact .inr ⟨rfl, token, same, goes⟩

theorem expect_run (ended : before.cursor.Ended) (inside : kind ≠ .endOfInput) {part : Missing}
    {token : Token} (run : expect kind part before = .parsed token after) :
    token.kind = kind ∧ Goes [token] before after := by
  rw [expect_eq] at run
  obtain ⟨token?, middle, eaten, rest⟩ := bind_eq_parsed.mp run
  rcases eat?_run ended inside eaten with ⟨rfl, rfl, other⟩ | ⟨found, rfl, same, goes⟩
  · cases rest
  · cases rest
    exact ⟨same, goes⟩

theorem expectName_run (ended : before.cursor.Ended) {part : Missing} {name : Name}
    (run : expectName part before = .parsed name after) :
    ∃ token, (Mark.ofName name).Fits token ∧ Goes [token] before after := by
  obtain ⟨token, middle, expected, rest⟩ := bind_eq_parsed.mp run
  cases rest
  obtain ⟨same, goes⟩ := expect_run ended (by decide) expected
  exact ⟨token, Mark.fits_ofName.mpr ⟨same, rfl⟩, goes⟩

theorem checkLimit_run {count : Nat} {fault : GrammarFault} {result : Unit}
    (run : checkLimit count fault before = .parsed result after)
    (clean : after.faults ≤ before.faults) : after = before ∧ count < argumentLimit := by
  unfold Parser.checkLimit at run
  split at run
  · cases run
    simp only [State.faults, List.length_cons] at clean
    omega
  · cases run
    exact ⟨rfl, by omega⟩

end Backward

end Lox.Parser
