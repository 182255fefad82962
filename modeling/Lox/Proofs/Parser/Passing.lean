import Lox.Parser.Program

/-!
What a parser may do to its state.

A parser passes tokens, reports faults, and leaves the scope as it found it. `Cursor.Passes` says
which tokens lie between two cursors, `State.Keeps` adds what happens to faults and scope, and
`Contract` says of a parser that it keeps all this however it ends, and that giving up is always
reported.

* `Contract.bind` and its relatives build the contract of a parser from those of its parts, so a
  parser of the grammar is met by naming its parts.
* A contract is strict if a result is never reached without passing a token. This is what makes the
  grammar come to an end.

The tokens have to hold an end of input ahead of the cursor (`Cursor.Ended`), since a cursor on the
last token of a row cannot move.
-/

namespace Lox

/-! ### Cursors -/

/-- An end of input lies ahead. -/
def Cursor.Ended (cursor : Cursor) : Prop :=
  ∃ token ∈ cursor.remaining, token.kind = .endOfInput

/-- Going from one cursor to the other passes the tokens between them, none of which ends the
input. -/
structure Cursor.Passes (tokens : List Token) (before after : Cursor) : Prop where
  passed : after.passed = tokens.reverse ++ before.passed
  remaining : before.remaining = tokens ++ after.remaining
  inside : ∀ token ∈ tokens, token.kind ≠ .endOfInput

namespace Cursor

theorem Passes.refl (cursor : Cursor) : Passes [] cursor cursor :=
  ⟨rfl, rfl, by simp⟩

theorem Passes.trans {first second : List Token} {before middle after : Cursor}
    (left : Passes first before middle) (right : Passes second middle after) :
    Passes (first ++ second) before after := by
  refine ⟨?_, ?_, ?_⟩
  · rw [right.passed, left.passed, List.reverse_append, List.append_assoc]
  · rw [left.remaining, right.remaining, List.append_assoc]
  · intro token member
    rcases List.mem_append.mp member with member | member
    · exact left.inside token member
    · exact right.inside token member

theorem Passes.ended {tokens : List Token} {before after : Cursor}
    (passes : Passes tokens before after) (ended : before.Ended) : after.Ended := by
  obtain ⟨token, member, kind⟩ := ended
  rw [passes.remaining, List.mem_append] at member
  rcases member with member | member
  · exact absurd kind (passes.inside token member)
  · exact ⟨token, member, kind⟩

theorem Passes.length {tokens : List Token} {before after : Cursor}
    (passes : Passes tokens before after) :
    before.ahead.length = tokens.length + after.ahead.length := by
  have lengths := congrArg List.length passes.remaining
  simp only [Cursor.remaining, List.length_cons, List.length_append] at lengths
  omega

/-- Where no token is passed the cursor is the same. -/
theorem Passes.eq_of_nil {before after : Cursor} (passes : Passes [] before after) :
    after = before := by
  obtain ⟨passed, remaining, -⟩ := passes
  cases before
  cases after
  simp_all [Cursor.remaining]

/-- A cursor is determined by the tokens passed on the way to it. -/
theorem Passes.unique {tokens : List Token} {before after other : Cursor}
    (left : Passes tokens before after) (right : Passes tokens before other) : after = other := by
  have remaining := left.remaining.symm.trans right.remaining
  have passed := left.passed.trans right.passed.symm
  cases after
  cases other
  simp_all [Cursor.remaining]

/-- The tokens up to the first of a row that leaves `next` in front. -/
theorem Passes.of_remaining {tokens rest : List Token} {next : Token} {before : Cursor}
    (remaining : before.remaining = tokens ++ next :: rest)
    (inside : ∀ token ∈ tokens, token.kind ≠ .endOfInput) :
    Passes tokens before ⟨tokens.reverse ++ before.passed, next, rest⟩ :=
  ⟨rfl, remaining, inside⟩

theorem passes_advance {cursor : Cursor} (ended : cursor.Ended)
    (inside : cursor.current.kind ≠ .endOfInput) :
    Passes [cursor.current] cursor cursor.advance := by
  have notAtEnd : cursor.atEnd = false := by simpa [Cursor.atEnd] using inside
  cases ahead : cursor.ahead with
  | nil =>
      obtain ⟨token, member, kind⟩ := ended
      simp only [Cursor.remaining, ahead, List.mem_singleton] at member
      exact absurd (member ▸ kind) inside
  | cons next rest =>
      simp only [Cursor.advance, notAtEnd, ahead]
      refine ⟨rfl, by simp [Cursor.remaining, ahead], ?_⟩
      intro token member
      rwa [List.mem_singleton.mp member]

theorem passes_toBoundary (passed : List Token) (current : Token) (ahead : List Token) :
    ∃ tokens, Passes tokens ⟨passed, current, ahead⟩ (toBoundary passed current ahead) := by
  induction ahead generalizing passed current with
  | nil => exact ⟨[], .refl _⟩
  | cons next rest ih =>
      rw [toBoundary]
      split
      · exact ⟨[], .refl _⟩
      · rename_i goesOn
        have inside : current.kind ≠ .endOfInput := by
          intro kind
          simp [kind] at goesOn
        obtain ⟨tokens, passes⟩ := ih (current :: passed) next
        have one : Passes [current] ⟨passed, current, next :: rest⟩
            ⟨current :: passed, next, rest⟩ :=
          ⟨rfl, rfl, by simpa using inside⟩
        exact ⟨_, one.trans passes⟩

/-- Recovery passes a token at least, unless the input is over. -/
theorem passes_synchronize {cursor : Cursor} (ended : cursor.Ended) :
    ∃ tokens, Passes tokens cursor cursor.synchronize ∧
      (cursor.current.kind ≠ .endOfInput → tokens ≠ []) := by
  by_cases kind : cursor.current.kind = .endOfInput
  · refine ⟨[], ?_, absurd kind⟩
    rw [synchronize, if_pos (by simpa [Cursor.atEnd] using kind)]
    exact .refl cursor
  · have step := passes_advance ended kind
    obtain ⟨tokens, passes⟩ :=
      passes_toBoundary cursor.advance.passed cursor.advance.current cursor.advance.ahead
    refine ⟨_, ?_, fun _ => List.cons_ne_nil cursor.current tokens⟩
    rw [synchronize, if_neg (by simpa [Cursor.atEnd] using kind)]
    exact step.trans passes

end Cursor

/-- The scope once a label in front of a loop has been taken. -/
def Scope.settled (scope : Scope) : Scope :=
  { scope with pendingLoop := none }

@[simp] theorem Scope.settled_settled (scope : Scope) : scope.settled.settled = scope.settled := rfl

@[simp] theorem Scope.settled_pendingLoop (scope : Scope) : scope.settled.pendingLoop = none := rfl

theorem Scope.settled_eq {scope : Scope} (clear : scope.pendingLoop = none) :
    scope.settled = scope := by
  cases scope
  simp_all [Scope.settled]

namespace Parser

variable {α β : Type} {strict strict' : Bool}

/-! ### States -/

/-- What a parser keeps: it goes forward, drops no fault, and leaves the scope as it was, but for
the label in front of a loop, which is taken. A strict parser passes a token at least. -/
structure State.Keeps (strict : Bool) (before after : State) : Prop where
  passes : ∃ tokens, Cursor.Passes tokens before.cursor after.cursor ∧ (strict → tokens ≠ [])
  scope : after.scope = before.scope.settled
  errors : before.errors <:+ after.errors

/-- A place from which a parser may start: an end of input lies ahead and no label waits for a
loop. -/
structure State.Ready (state : State) : Prop where
  ended : state.cursor.Ended
  clear : state.scope.pendingLoop = none

namespace State

theorem Keeps.refl {state : State} (clear : state.scope.pendingLoop = none) :
    Keeps false state state :=
  ⟨⟨[], .refl _, by simp⟩, (Scope.settled_eq clear).symm, List.suffix_refl _⟩

theorem Keeps.trans {before middle after : State} (left : Keeps strict before middle)
    (right : Keeps strict' middle after) : Keeps (strict || strict') before after := by
  obtain ⟨first, passesFirst, strictFirst⟩ := left.passes
  obtain ⟨second, passesSecond, strictSecond⟩ := right.passes
  refine ⟨⟨first ++ second, passesFirst.trans passesSecond, ?_⟩, ?_, ?_⟩
  · intro one
    rcases Bool.or_eq_true_iff.mp one with one | one
    · exact List.append_ne_nil_of_left_ne_nil (strictFirst one) second
    · exact List.append_ne_nil_of_right_ne_nil first (strictSecond one)
  · rw [right.scope, left.scope, Scope.settled_settled]
  · exact left.errors.trans right.errors

theorem Keeps.weaken {before after : State} (keeps : Keeps strict before after) :
    Keeps false before after := by
  obtain ⟨tokens, passes, -⟩ := keeps.passes
  exact ⟨⟨tokens, passes, by simp⟩, keeps.scope, keeps.errors⟩

theorem Keeps.ready {before after : State} (keeps : Keeps strict before after)
    (ended : before.cursor.Ended) : after.Ready := by
  obtain ⟨tokens, passes, -⟩ := keeps.passes
  exact ⟨passes.ended ended, by rw [keeps.scope, Scope.settled_pendingLoop]⟩

/-- The tokens ahead become fewer, strictly so on the way of a strict parser. -/
theorem Keeps.length {before after : State} (keeps : Keeps strict before after) :
    after.cursor.ahead.length + strict.toNat ≤ before.cursor.ahead.length := by
  obtain ⟨tokens, passes, nonempty⟩ := keeps.passes
  have length := passes.length
  cases strict with
  | false => simp only [Bool.toNat_false]; omega
  | true =>
      have := List.length_pos_iff.mpr (nonempty rfl)
      simp only [Bool.toNat_true]
      omega

end State

/-! ### Contracts -/

/-- What holds of the result of a parser, however it ends; nothing if it was not allowed enough
steps. -/
def Result.Meets (good : α → State → Prop) (bad : State → Prop) : Result α → Prop
  | .parsed value state => good value state
  | .failed state => bad state
  | .exhausted => True

/-- From one state: the parser keeps what it has to, and if it gives up it has reported a fault. -/
def KeepsFrom (strict : Bool) (state : State) (parser : Parser α) : Prop :=
  (parser state).Meets (fun _ after => state.Keeps strict after) fun after =>
    state.Keeps false after ∧ state.errors.length < after.errors.length

/-- From every place where a parser may start: it keeps what it has to, and giving up is
reported. -/
def Contract (strict : Bool) (parser : Parser α) : Prop :=
  ∀ state : State, state.Ready → KeepsFrom strict state parser

theorem bind_apply (parser : Parser α) (next : α → Parser β) (state : State) :
    (parser >>= next) state = andThen parser next state := rfl

theorem pure_andThen (parser : Parser α) : (parser >>= fun value => pure value) = parser := by
  funext state
  rw [bind_apply, andThen]
  cases parser state <;> rfl

theorem bind_bind {γ : Type} (parser : Parser α) (next : α → Parser β) (last : β → Parser γ) :
    (parser >>= next) >>= last = parser >>= fun value => next value >>= last := by
  funext state
  simp only [bind_apply, andThen]
  cases parser state <;> rfl

instance : LawfulMonad Parser := .mk' Parser (fun parser => pure_andThen parser) (fun _ _ => rfl)
  bind_bind

theorem KeepsFrom.bind {state : State} {parser : Parser α} {next : α → Parser β}
    (first : KeepsFrom strict state parser)
    (rest : ∀ value after, parser state = .parsed value after → state.Keeps strict after →
      KeepsFrom strict' after (next value)) :
    KeepsFrom (strict || strict') state (parser >>= next) := by
  unfold KeepsFrom at first ⊢
  rw [bind_apply, andThen]
  cases result : parser state with
  | exhausted => trivial
  | failed after =>
      rw [result] at first
      exact first
  | parsed value after =>
      rw [result] at first
      have second := rest value after result first
      unfold KeepsFrom at second
      simp only
      cases last : next value after with
      | exhausted => trivial
      | failed final =>
          rw [last] at second
          exact ⟨(first.trans second.1).weaken,
            Nat.lt_of_le_of_lt first.errors.length_le second.2⟩
      | parsed result final =>
          rw [last] at second
          exact first.trans second

theorem KeepsFrom.weaken {state : State} {parser : Parser α}
    (keeps : KeepsFrom strict state parser) : KeepsFrom false state parser := by
  unfold KeepsFrom at keeps ⊢
  cases result : parser state with
  | exhausted => trivial
  | failed after => rwa [result] at keeps
  | parsed value after =>
      rw [result] at keeps
      exact State.Keeps.weaken keeps

theorem Contract.weaken {parser : Parser α} (contract : Contract strict parser) :
    Contract false parser :=
  fun state ready => (contract state ready).weaken

/-- A row of parsers is strict if its first one is. -/
theorem Contract.bind {parser : Parser α} {next : α → Parser β} (first : Contract strict parser)
    (rest : ∀ value, Contract false (next value)) : Contract strict (parser >>= next) := by
  intro state ready
  have both := (first state ready).bind fun value after _ keeps =>
    rest value after (keeps.ready ready.ended)
  rwa [Bool.or_false] at both

/-- A row of parsers is strict if what follows its first one is. -/
theorem Contract.bindStrict {parser : Parser α} {next : α → Parser β}
    (first : Contract false parser) (rest : ∀ value, Contract true (next value)) :
    Contract true (parser >>= next) := fun state ready =>
  (first state ready).bind fun value after _ keeps => rest value after (keeps.ready ready.ended)

/-! ### Contracts of the parts of the grammar -/

theorem Contract.pure (value : α) : Contract false (pure value : Parser α) :=
  fun _ ready => State.Keeps.refl ready.clear

theorem Contract.exhausted : Contract strict (exhausted : Parser α) :=
  fun _ _ => trivial

theorem Contract.current : Contract false current :=
  fun _ ready => State.Keeps.refl ready.clear

theorem Contract.check (kind : TokenKind) : Contract false (check kind) :=
  fun _ ready => State.Keeps.refl ready.clear

theorem Contract.scope : Contract false scope :=
  fun _ ready => State.Keeps.refl ready.clear

theorem Contract.report (token : Token) (fault : GrammarFault) :
    Contract false (report token fault) :=
  fun _ ready => ⟨⟨[], .refl _, by simp⟩, (Scope.settled_eq ready.clear).symm,
    List.suffix_cons _ _⟩

theorem Contract.fail (token : Token) (fault : GrammarFault) :
    Contract strict (fail token fault : Parser α) := fun _ ready =>
  ⟨⟨⟨[], .refl _, by simp⟩, (Scope.settled_eq ready.clear).symm, List.suffix_cons _ _⟩,
    Nat.lt_succ_self _⟩

/-- Passing a token that does not end the input. -/
theorem State.Ready.keeps_advance {state : State} (ready : state.Ready)
    (inside : state.cursor.current.kind ≠ .endOfInput) :
    state.Keeps true { state with cursor := state.cursor.advance } :=
  ⟨⟨_, Cursor.passes_advance ready.ended inside, by simp⟩, (Scope.settled_eq ready.clear).symm,
    List.suffix_refl _⟩

theorem State.Ready.keepsFrom_advance {state : State} (ready : state.Ready)
    (inside : state.cursor.current.kind ≠ .endOfInput) : KeepsFrom true state advance :=
  ready.keeps_advance inside

theorem eat?_of_check {state : State} {kind : TokenKind} (found : state.cursor.check kind) :
    eat? kind state =
      .parsed (some state.cursor.current) { state with cursor := state.cursor.advance } := by
  rw [eat?, if_pos found]

theorem eat?_of_not_check {state : State} {kind : TokenKind}
    (absent : state.cursor.check kind = false) : eat? kind state = .parsed none state := by
  rw [eat?, if_neg (by simp [absent])]

/-- A parser that passes the current token if it is of the right sort, and does nothing
otherwise. -/
def Eats (parser : Parser (Option α)) : Prop :=
  ∀ state, parser state = .parsed none state ∨
    state.cursor.current.kind ≠ .endOfInput ∧
      ∃ value, parser state = .parsed (some value) { state with cursor := state.cursor.advance }

theorem eats_eat? {kind : TokenKind} (inside : kind ≠ .endOfInput) : Eats (eat? kind) := by
  intro state
  cases found : state.cursor.check kind with
  | false => exact .inl (eat?_of_not_check found)
  | true =>
      have same : state.cursor.current.kind = kind := by simpa [Cursor.check] using found
      exact .inr ⟨same ▸ inside, _, eat?_of_check found⟩

/-- What follows an optional token is strict already when the branch without the token is. -/
theorem Contract.bind_eats {parser : Parser (Option α)} (eats : Eats parser)
    {next : Option α → Parser β} (without : Contract strict (next none))
    (behind : ∀ value, Contract false (next (some value))) :
    Contract strict (parser >>= next) := by
  intro state ready
  rcases eats state with absent | ⟨inside, value, found⟩
  · unfold KeepsFrom
    rw [bind_apply, andThen, absent]
    exact without state ready
  · have first : KeepsFrom true state parser := by
      unfold KeepsFrom
      rw [found]
      exact ready.keeps_advance inside
    have both : KeepsFrom (true || false) state (parser >>= next) :=
      first.bind fun _ after result keeps => by
        rw [found] at result
        cases result
        exact behind value _ (keeps.ready ready.ended)
    cases strict with
    | false => exact both.weaken
    | true => exact both

theorem Contract.eat? {kind : TokenKind} (inside : kind ≠ .endOfInput) :
    Contract false (eat? kind) := by
  intro state ready
  unfold KeepsFrom
  rcases eats_eat? inside state with absent | ⟨ahead, value, found⟩
  · rw [absent]
    exact State.Keeps.refl ready.clear
  · rw [found]
    exact (ready.keeps_advance ahead).weaken

theorem eat_bind (kind : TokenKind) (next : Bool → Parser β) :
    (eat kind >>= next) = (Parser.eat? kind >>= fun found => next found.isSome) := by
  funext state
  simp only [eat, bind_apply, andThen]
  cases Parser.eat? kind state <;> rfl

theorem Contract.bind_eat {kind : TokenKind} (inside : kind ≠ .endOfInput)
    {next : Bool → Parser β} (without : Contract strict (next false))
    (behind : Contract false (next true)) : Contract strict (eat kind >>= next) := by
  rw [eat_bind]
  exact .bind_eats (eats_eat? inside) without fun _ => behind

theorem expect_eq (kind : TokenKind) (part : Missing) :
    expect kind part = (Parser.eat? kind >>= fun
      | some token => Pure.pure token
      | none => Parser.current >>= fun token => Parser.fail token (.missing part)) := rfl

theorem Contract.expect {kind : TokenKind} (inside : kind ≠ .endOfInput) (part : Missing) :
    Contract true (expect kind part) := by
  rw [expect_eq]
  exact .bind_eats (eats_eat? inside)
    (.bindStrict .current fun token => .fail token (.missing part)) fun token => .pure token

theorem Contract.expectName (part : Missing) : Contract true (expectName part) :=
  .bind (.expect (by decide) part) fun _ => .pure _

theorem Contract.map {parser : Parser α} (contract : Contract strict parser) (change : α → β) :
    Contract strict (change <$> parser) := by
  rw [map_eq_pure_bind]
  exact .bind contract fun _ => .pure _

/-- Report a fault unless a rule is kept. -/
def demand (kept : Bool) (token : Token) (fault : GrammarFault) : Parser Unit :=
  if kept then Pure.pure () else Parser.report token fault

theorem demand_bind (kept : Bool) (token : Token) (fault : GrammarFault) (next : Unit → Parser β) :
    (demand kept token fault >>= next) =
      if kept then next () else Parser.report token fault >>= next := by
  cases kept <;> rfl

theorem Contract.demand (kept : Bool) (token : Token) (fault : GrammarFault) :
    Contract false (demand kept token fault) := by
  unfold Parser.demand
  split
  · exact .pure ()
  · exact .report token fault

theorem Contract.checkLimit (count : Nat) (fault : GrammarFault) :
    Contract false (checkLimit count fault) := by
  unfold Parser.checkLimit
  split
  · exact .bind .current fun token => .report token fault
  · exact .pure ()

/-! ### Contracts of the parts that change the scope -/

/-- A parser in another scope, which is left again however the parser ends. -/
def within (enter : Scope → Scope) (leave : Scope → Scope → Scope) (parser : Parser α) : Parser α :=
  fun state => (parser { state with scope := enter state.scope }).mapScope (leave state.scope)

theorem withLoop_eq (parser : Parser α) :
    withLoop parser = within (fun around => { around with context := around.context.add .loop })
      (fun around scope => { scope with context := around.context }) parser := rfl

theorem withFunctionBody_eq (parser : Parser α) :
    withFunctionBody parser = within Scope.enterFunction (fun around _ => around) parser := rfl

theorem withLabel_eq (label : Name) (isLoop : Bool) (parser : Parser α) :
    withLabel label isLoop parser = within
      (fun around => { around with
        labels := around.labels.push label.text isLoop
        pendingLoop := if isLoop then some label else around.pendingLoop })
      (fun _ scope => { scope with labels := scope.labels.pop isLoop }) parser := rfl

theorem KeepsFrom.within {state : State} {enter : Scope → Scope} {leave : Scope → Scope → Scope}
    {parser : Parser α}
    (restores : leave state.scope (enter state.scope).settled = state.scope.settled)
    (inside : KeepsFrom strict { state with scope := enter state.scope } parser) :
    KeepsFrom strict state (within enter leave parser) := by
  unfold KeepsFrom at inside ⊢
  unfold Parser.within
  cases result : parser { state with scope := enter state.scope } with
  | exhausted => trivial
  | failed after =>
      rw [result] at inside
      obtain ⟨⟨passes, scope, errors⟩, reported⟩ := inside
      exact ⟨⟨passes, (congrArg (leave state.scope) scope).trans restores, errors⟩, reported⟩
  | parsed value after =>
      rw [result] at inside
      obtain ⟨passes, scope, errors⟩ := inside
      exact ⟨passes, (congrArg (leave state.scope) scope).trans restores, errors⟩

theorem Contract.withLoop {parser : Parser α} (contract : Contract strict parser) :
    Contract strict (withLoop parser) := by
  intro state ready
  rw [withLoop_eq]
  exact .within rfl (contract _ ⟨ready.ended, ready.clear⟩)

theorem Contract.withFunctionBody {parser : Parser α} (contract : Contract strict parser) :
    Contract strict (withFunctionBody parser) := by
  intro state ready
  rw [withFunctionBody_eq]
  exact .within (Scope.settled_eq ready.clear).symm (contract _ ⟨ready.ended, rfl⟩)

/-- A label in front of a loop waits for the loop, so the parser behind it starts at a place that
need not be ready. -/
theorem KeepsFrom.withLabel {state : State} {label : Name} {isLoop : Bool} {parser : Parser α}
    (inside : KeepsFrom strict { state with scope := { state.scope with
      labels := state.scope.labels.push label.text isLoop
      pendingLoop := if isLoop then some label else state.scope.pendingLoop } } parser) :
    KeepsFrom strict state (withLabel label isLoop parser) := by
  rw [withLabel_eq]
  exact .within (by simp [Scope.settled]) inside

theorem takePendingLoop_bind (next : Option Name → Parser β) (state : State) :
    (takePendingLoop >>= next) state =
      next state.scope.pendingLoop { state with scope := state.scope.settled } := rfl

/-- Taking the label in front of a loop makes a place ready. -/
theorem KeepsFrom.takePendingLoop {state : State} (ended : state.cursor.Ended)
    {next : Option Name → Parser β} (rest : ∀ label, Contract strict (next label)) :
    KeepsFrom strict state (takePendingLoop >>= next) := by
  have inside := rest state.scope.pendingLoop { state with scope := state.scope.settled }
    ⟨ended, rfl⟩
  unfold KeepsFrom at inside ⊢
  rw [takePendingLoop_bind]
  cases result : next state.scope.pendingLoop { state with scope := state.scope.settled } with
  | exhausted => trivial
  | failed after =>
      rw [result] at inside
      obtain ⟨⟨passes, scope, errors⟩, reported⟩ := inside
      exact ⟨⟨passes, scope, errors⟩, reported⟩
  | parsed value after =>
      rw [result] at inside
      obtain ⟨passes, scope, errors⟩ := inside
      exact ⟨passes, scope, errors⟩

theorem KeepsFrom.current_bind {state : State} {next : Token → Parser β}
    (rest : KeepsFrom strict state (next state.cursor.current)) :
    KeepsFrom strict state (current >>= next) := rest

theorem KeepsFrom.check_bind {state : State} {kind : TokenKind} {next : Bool → Parser β}
    (rest : KeepsFrom strict state (next (state.cursor.check kind))) :
    KeepsFrom strict state (check kind >>= next) := rest

theorem KeepsFrom.atEnd_bind {state : State} {next : Bool → Parser β}
    (rest : KeepsFrom strict state (next state.cursor.atEnd)) :
    KeepsFrom strict state (atEnd >>= next) := rest

/-- A token may be passed while a label waits for a loop. -/
theorem KeepsFrom.advance_bind {state : State} (ended : state.cursor.Ended)
    (inside : state.cursor.current.kind ≠ .endOfInput) {next : Token → Parser β}
    (rest : KeepsFrom strict { state with cursor := state.cursor.advance }
      (next state.cursor.current)) : KeepsFrom true state (advance >>= next) := by
  have first := Cursor.passes_advance ended inside
  unfold KeepsFrom at rest ⊢
  change ((next state.cursor.current) { state with cursor := state.cursor.advance }).Meets _ _
  cases result : next state.cursor.current { state with cursor := state.cursor.advance } with
  | exhausted => trivial
  | failed after =>
      rw [result] at rest
      obtain ⟨⟨⟨tokens, passes, -⟩, scope, errors⟩, reported⟩ := rest
      exact ⟨⟨⟨_, first.trans passes, by simp⟩, scope, errors⟩, reported⟩
  | parsed value after =>
      rw [result] at rest
      obtain ⟨⟨tokens, passes, -⟩, scope, errors⟩ := rest
      exact ⟨⟨_, first.trans passes, by simp⟩, scope, errors⟩

/-- Recovery turns giving up into a result. It moves on unless the input is over. -/
theorem KeepsFrom.recovering {state : State} (ended : state.cursor.Ended) {parser : Parser α}
    (keeps : KeepsFrom true state parser) (inside : state.cursor.current.kind ≠ .endOfInput) :
    KeepsFrom true state (recovering parser) := by
  unfold KeepsFrom at keeps ⊢
  unfold Parser.recovering
  cases result : parser state with
  | exhausted => trivial
  | parsed value after =>
      rw [result] at keeps
      exact keeps
  | failed after =>
      rw [result] at keeps
      obtain ⟨⟨⟨first, passes, -⟩, scope, errors⟩, -⟩ := keeps
      obtain ⟨second, recovery, moves⟩ := Cursor.passes_synchronize (passes.ended ended)
      refine ⟨⟨first ++ second, passes.trans recovery, fun _ => ?_⟩, scope, errors⟩
      cases first with
      | nil =>
          have same := passes.eq_of_nil
          exact moves (same ▸ inside)
      | cons token rest => exact List.cons_ne_nil token _

end Parser

end Lox
