import Lox.Proofs.Parser.Progress

/-!
How far a parser looks ahead.

A parser sees the scope it is in, the tokens that it passes and the one in front of which it stops.
So it does the same at every place that looks the same as far as that, whatever has been passed,
found or is still to come (`Local`). Of the token in front of which it stops it may have seen less
(`Glance`): a parser that ends with a token of its own has not looked at the next one at all, and a
statement has looked for an `else` only. A parser that gives up has always seen the token at which
it does.

`Local` also says which kinds of token a parser passes at all, since no expression passes a
semicolon.
-/

namespace Lox

/-! ### Glances -/

/-- What a parser that has come to a result may have seen of the token in front of it. -/
inductive Glance where
  | whole
  /-- Whether it is an `else`. -/
  | orElse
  | nothing

namespace Glance

variable {glance : Glance}

/-- A token looks the same as one that was seen. For an `else` it is enough that one which was not
there does not appear. -/
def Same : Glance → Token → Token → Prop
  | .whole, seen, token => token = seen
  | .orElse, seen, token => token.kind = .kwElse → seen.kind = .kwElse
  | .nothing, _, _ => True

/-- Tokens that look the same at one glance do so at another. -/
def Covers (glance less : Glance) : Prop :=
  ∀ seen token, glance.Same seen token → less.Same seen token

/-- A glance shows that there is nothing to be found in a token. -/
def Shows {α : Type} (glance : Glance) (found : Token → Option α) : Prop :=
  ∀ seen token, glance.Same seen token → found seen = none → found token = none

theorem same_refl (glance : Glance) (token : Token) : glance.Same token token := by
  cases glance with
  | whole => rfl
  | orElse => exact id
  | nothing => trivial

theorem covers_refl (glance : Glance) : glance.Covers glance :=
  fun _ _ => id

theorem whole_covers (glance : Glance) : Covers .whole glance := by
  rintro seen token rfl
  exact glance.same_refl token

theorem whole_shows {α : Type} (found : Token → Option α) : Shows .whole found := by
  rintro seen _ rfl
  exact id

end Glance

/-! ### Recovery -/

namespace Cursor

theorem Ended.of_no_ahead {passed : List Token} {current : Token}
    (ended : Ended ⟨passed, current, []⟩) :
    current.kind = .endOfInput := by
  obtain ⟨token, member, kind⟩ := ended
  rwa [List.mem_singleton.mp member] at kind

/-- The way to a boundary is the same wherever the same tokens stand ahead, as soon as it is known
whether a semicolon has been passed last. -/
theorem toBoundary_local (passed : List Token) (current : Token) (ahead : List Token)
    (ended : Ended ⟨passed, current, ahead⟩) :
    ∃ tokens, Passes tokens ⟨passed, current, ahead⟩ (toBoundary passed current ahead) ∧
      ∀ passed' current' ahead' rest, passedSemicolon passed' = passedSemicolon passed →
        current' :: ahead' = tokens ++ (toBoundary passed current ahead).current :: rest →
        toBoundary passed' current' ahead' =
          ⟨tokens.reverse ++ passed', (toBoundary passed current ahead).current, rest⟩ := by
  induction ahead generalizing passed current with
  | nil =>
      refine ⟨[], .refl _, ?_⟩
      rintro passed' current' ahead' rest - ⟨⟩
      have atEnd := ended.of_no_ahead
      cases ahead' with
      | nil => rfl
      | cons next ahead' =>
          change toBoundary passed' current (next :: ahead') = ⟨passed', current, next :: ahead'⟩
          rw [toBoundary, if_pos (by simp [atEnd])]
  | cons next ahead ih =>
      rw [toBoundary]
      split
      · rename_i stops
        refine ⟨[], .refl _, ?_⟩
        rintro passed' current' ahead' rest same ⟨⟩
        cases ahead' with
        | nil => rfl
        | cons other ahead' =>
            rw [toBoundary, same, if_pos stops]
            rfl
      · rename_i goesOn
        have inside : current.kind ≠ .endOfInput := by
          intro kind
          simp [kind] at goesOn
        have one :
            Passes [current] ⟨passed, current, next :: ahead⟩ ⟨current :: passed, next, ahead⟩ :=
          ⟨rfl, rfl, by simpa using inside⟩
        obtain ⟨tokens, passes, elsewhere⟩ := ih (current :: passed) next (one.ended ended)
        refine ⟨current :: tokens, one.trans passes, ?_⟩
        intro passed' current' ahead' rest same front
        obtain ⟨rfl, front⟩ := List.cons.inj front
        cases ahead' with
        | nil => simp at front
        | cons next' ahead' =>
            rw [toBoundary, same, if_neg goesOn,
              elsewhere (current' :: passed') next' ahead' rest rfl front]
            simp

/-- Recovery sees the tokens that it passes and the boundary to which it comes. -/
theorem synchronize_local {cursor : Cursor} (ended : cursor.Ended) :
    ∃ tokens, Passes tokens cursor cursor.synchronize ∧
      ∀ (other : Cursor) rest, other.remaining = tokens ++ cursor.synchronize.current :: rest →
        other.synchronize = ⟨tokens.reverse ++ other.passed, cursor.synchronize.current, rest⟩ := by
  obtain ⟨passed, current, ahead⟩ := cursor
  by_cases kind : current.kind = .endOfInput
  · have stays : synchronize ⟨passed, current, ahead⟩ = ⟨passed, current, ahead⟩ := by
      rw [synchronize, if_pos (by simpa [Cursor.atEnd] using kind)]
    rw [stays]
    refine ⟨[], .refl _, ?_⟩
    rintro ⟨passed', current', ahead'⟩ rest ⟨⟩
    rw [synchronize, if_pos (by simpa [Cursor.atEnd] using kind)]
    rfl
  · cases ahead with
    | nil => exact absurd ended.of_no_ahead kind
    | cons next ahead =>
        have moves (passed next ahead) : synchronize ⟨passed, current, next :: ahead⟩ =
            toBoundary (current :: passed) next ahead := by
          rw [synchronize, if_neg (by simpa [Cursor.atEnd] using kind)]
          simp [advance, Cursor.atEnd, kind]
        have one :
            Passes [current] ⟨passed, current, next :: ahead⟩ ⟨current :: passed, next, ahead⟩ :=
          ⟨rfl, rfl, by simpa using kind⟩
        obtain ⟨tokens, passes, elsewhere⟩ :=
          toBoundary_local (current :: passed) next ahead (one.ended ended)
        rw [moves]
        refine ⟨current :: tokens, one.trans passes, ?_⟩
        rintro ⟨passed', current', ahead'⟩ rest front
        obtain ⟨rfl, front⟩ := List.cons.inj front
        cases ahead' with
        | nil => simp at front
        | cons next' ahead' =>
            rw [moves, elsewhere (current' :: passed') next' ahead' rest rfl front]
            simp

/-- In front of some tokens ahead and another one stands the first of the tokens, or the other where
there are none. -/
theorem Passes.next_same (glance : Glance) (next : Token) (rest : List Token) {tokens : List Token}
    {before after : Cursor} (passes : Passes tokens before after)
    (seen : tokens = [] → glance.Same before.current next) :
    ∃ first others, tokens ++ next :: rest = first :: others ∧ glance.Same before.current first ∧
      (tokens ≠ [] → first = before.current) := by
  cases tokens with
  | nil => exact ⟨next, rest, rfl, seen rfl, absurd rfl⟩
  | cons token tokens =>
      have same : before.current = token := (List.cons.inj passes.remaining).1
      exact ⟨token, tokens ++ next :: rest, rfl, same ▸ glance.same_refl _, fun _ => same.symm⟩

end Cursor

namespace Parser

variable {α β : Type} {allowed : TokenKind → Bool} {glance glance' : Glance} {strict strict' : Bool}

/-- Every kind of token. -/
def anyKind (_ : TokenKind) : Bool :=
  true

/-! ### Runs that happen elsewhere -/

/-- The state after a run that passes the given tokens, in front of another, and finds the given
faults. -/
def State.beyond (state : State) (tokens : List Token) (next : Token) (rest : List Token)
    (scope : Scope) (faults : List GrammarError) : State :=
  ⟨⟨tokens.reverse ++ state.cursor.passed, next, rest⟩, scope, faults ++ state.errors⟩

theorem State.beyond_beyond (state : State) (tokens tokens' : List Token) (next next' : Token)
    (rest rest' : List Token) (scope scope' : Scope) (faults faults' : List GrammarError) :
    (state.beyond tokens next rest scope faults).beyond tokens' next' rest' scope' faults' =
      state.beyond (tokens ++ tokens') next' rest' scope' (faults' ++ faults) := by
  simp [State.beyond]

/-- From one state to another a parser passes these tokens and finds these faults, and from every
state in the same scope and in front of the same tokens it ends in the same way, if the next token
looks the same. -/
structure Repeats (allowed : TokenKind → Bool) (glance : Glance) (parser : Parser α)
    (ending : State → Result α) (before after : State) (tokens : List Token)
    (faults : List GrammarError) :
    Prop where
  passes : Cursor.Passes tokens before.cursor after.cursor
  allowed : ∀ token ∈ tokens, allowed token.kind
  errors : after.errors = faults ++ before.errors
  elsewhere : ∀ (other : State) next rest, other.scope = before.scope →
    other.cursor.remaining = tokens ++ next :: rest → glance.Same after.cursor.current next →
    parser other = ending (other.beyond tokens next rest after.scope faults)

namespace Repeats

variable {parser : Parser α} {ending : State → Result α} {before middle after : State}
  {tokens tokens' : List Token} {faults faults' : List GrammarError}

/-- A run that passes nothing. -/
theorem stay (scope : Scope) (faults : List GrammarError)
    (does : ∀ other : State, other.scope = before.scope →
      glance.Same before.cursor.current other.cursor.current →
        parser other = ending { other with scope, errors := faults ++ other.errors }) :
    Repeats allowed glance parser ending before
      { before with scope, errors := faults ++ before.errors } []
      faults where
  passes := .refl _
  allowed := by simp
  errors := rfl
  elsewhere := by
    rintro ⟨⟨passed, current, ahead⟩, around, errors⟩ next rest scopes ⟨⟩ seen
    exact does _ scopes seen

theorem weaken {less : Glance} {allowed' : TokenKind → Bool}
    (allows : ∀ kind, allowed kind → allowed' kind) (covers : glance.Covers less)
    (repeats : Repeats allowed less parser ending before after tokens faults) :
    Repeats allowed' glance parser ending before after tokens faults :=
  ⟨repeats.passes, fun token member => allows _ (repeats.allowed token member), repeats.errors,
    fun other next rest scopes front seen =>
      repeats.elsewhere other next rest scopes front (covers _ _ seen)⟩

theorem trans {next : α → Parser β} {value : α} {ending : State → Result β}
    (left : Repeats allowed glance parser (.parsed value) before middle tokens faults)
    (right : Repeats allowed glance' (next value) ending middle after tokens' faults')
    (covers : tokens' = [] → glance'.Covers glance) :
    Repeats allowed glance' (parser >>= next) ending before after (tokens ++ tokens')
      (faults' ++ faults) where
  passes := left.passes.trans right.passes
  allowed := by
    intro token member
    rcases List.mem_append.mp member with member | member
    · exact left.allowed token member
    · exact right.allowed token member
  errors := by rw [right.errors, left.errors, List.append_assoc]
  elsewhere := by
    intro other token rest scopes front seen
    obtain ⟨first, others, ahead, same, -⟩ :=
      right.passes.next_same glance token rest fun nothing => by
      subst nothing
      exact covers rfl _ _ (right.passes.eq_of_nil ▸ seen)
    rw [List.append_assoc, ahead] at front
    rw [bind_apply, andThen, left.elsewhere other first others scopes front same]
    have last :=
      right.elsewhere (other.beyond tokens first others middle.scope faults) token rest rfl
      ahead.symm seen
    rwa [State.beyond_beyond] at last

theorem bindFailed {next : α → Parser β}
    (repeats : Repeats allowed glance parser .failed before after tokens faults) :
    Repeats allowed glance (parser >>= next) .failed before after tokens faults :=
  ⟨repeats.passes, repeats.allowed, repeats.errors, fun other token rest scopes front seen => by
    rw [bind_apply, andThen, repeats.elsewhere other token rest scopes front seen]⟩

/-- It is enough that another parser does the same in front of tokens that look the same as the
first. -/
theorem congr {parser' : Parser α} (same : ∀ other : State,
      glance.Same before.cursor.current other.cursor.current →
      (tokens ≠ [] → other.cursor.current = before.cursor.current) → parser' other = parser other)
    (repeats : Repeats allowed glance parser ending before after tokens faults) :
    Repeats allowed glance parser' ending before after tokens faults where
  passes := repeats.passes
  allowed := repeats.allowed
  errors := repeats.errors
  elsewhere := by
    intro other next rest scopes front seen
    obtain ⟨first, others, ahead, looks, equal⟩ :=
      repeats.passes.next_same glance next rest fun nothing => by
      subst nothing
      exact repeats.passes.eq_of_nil ▸ seen
    have current : other.cursor.current = first := (List.cons.inj (front.trans ahead)).1
    rw [same other (current ▸ looks) fun some => current.trans (equal some)]
    exact repeats.elsewhere other next rest scopes front seen

/-- Passing a token, whatever comes behind it. -/
theorem advance {state : State} (ended : state.cursor.Ended)
    (inside : state.cursor.current.kind ≠ .endOfInput)
    (allows : allowed state.cursor.current.kind) :
    Repeats allowed glance Parser.advance (.parsed state.cursor.current) state
      { state with cursor := state.cursor.advance } [state.cursor.current] [] where
  passes := Cursor.passes_advance ended inside
  allowed := by simpa using allows
  errors := rfl
  elsewhere := by
    rintro ⟨⟨passed, current, ahead⟩, scope, errors⟩ next rest rfl front -
    obtain ⟨rfl, rfl⟩ := List.cons.inj front
    simp [Parser.advance, Cursor.advance, Cursor.atEnd, inside, State.beyond]

end Repeats

/-! ### Parsers -/

/-- From one state: what the parser does, however it ends, it does wherever things look the same as
far as it has seen them; a strict one passes a token at least. -/
def LocalFrom (allowed : TokenKind → Bool) (glance : Glance) (strict : Bool) (state : State)
    (parser : Parser α) : Prop :=
  (parser state).Meets
    (fun value after =>
      ∃ tokens faults, Repeats allowed glance parser (.parsed value) state after tokens faults ∧
      (strict → tokens ≠ []))
    fun after => ∃ tokens faults, Repeats allowed .whole parser .failed state after tokens faults

/-- The same from every place with an end of input ahead. -/
def Local (allowed : TokenKind → Bool) (glance : Glance) (strict : Bool) (parser : Parser α) :
    Prop :=
  ∀ state : State, state.cursor.Ended → LocalFrom allowed glance strict state parser

namespace LocalFrom

variable {state : State} {parser : Parser α}

theorem of_parsed {value : α} {after : State} (here : LocalFrom allowed glance strict state parser)
    (run : parser state = .parsed value after) :
    ∃ tokens faults, Repeats allowed glance parser (.parsed value) state after tokens faults ∧
      (strict → tokens ≠ []) := by
  rwa [LocalFrom, run] at here

theorem of_failed {after : State} (here : LocalFrom allowed glance strict state parser)
    (run : parser state = .failed after) :
    ∃ tokens faults, Repeats allowed .whole parser .failed state after tokens faults := by
  rwa [LocalFrom, run] at here

theorem weaken {less : Glance} {allowed' : TokenKind → Bool}
    (allows : ∀ kind, allowed kind → allowed' kind) (covers : glance.Covers less)
    (stricter : strict → strict') (here : LocalFrom allowed less strict' state parser) :
    LocalFrom allowed' glance strict state parser := by
  unfold LocalFrom at here ⊢
  cases run : parser state with
  | exhausted => trivial
  | parsed value after =>
      rw [run] at here
      obtain ⟨tokens, faults, repeats, moves⟩ := here
      exact ⟨tokens, faults, repeats.weaken allows covers, fun one => moves (stricter one)⟩
  | failed after =>
      rw [run] at here
      obtain ⟨tokens, faults, repeats⟩ := here
      exact ⟨tokens, faults, repeats.weaken allows (Glance.covers_refl _)⟩

theorem bind {next : α → Parser β} (ended : state.cursor.Ended)
    (first : LocalFrom allowed glance strict state parser)
    (rest : ∀ value after, parser state = .parsed value after → after.cursor.Ended →
      LocalFrom allowed glance' strict' after (next value))
    (covers : strict' = false → glance'.Covers glance) :
    LocalFrom allowed glance' (strict || strict') state (parser >>= next) := by
  unfold LocalFrom
  rw [bind_apply, andThen]
  cases run : parser state with
  | exhausted => trivial
  | failed after =>
      obtain ⟨tokens, faults, repeats⟩ := first.of_failed run
      exact ⟨tokens, faults, repeats.bindFailed⟩
  | parsed value middle =>
      obtain ⟨tokens, faults, repeats, moves⟩ := first.of_parsed run
      have second := rest value middle run (repeats.passes.ended ended)
      simp only
      cases last : next value middle with
      | exhausted => trivial
      | failed after =>
          obtain ⟨tokens', faults', repeatsRest⟩ := second.of_failed last
          exact ⟨_, _, repeats.trans repeatsRest fun _ => Glance.whole_covers glance⟩
      | parsed result after =>
          obtain ⟨tokens', faults', repeatsRest, movesRest⟩ := second.of_parsed last
          refine ⟨_, _, repeats.trans repeatsRest fun none => covers ?_, fun one => ?_⟩
          · exact Bool.eq_false_iff.mpr fun isStrict => movesRest isStrict none
          · rcases Bool.or_eq_true_iff.mp one with one | one
            · exact List.append_ne_nil_of_left_ne_nil (moves one) tokens'
            · exact List.append_ne_nil_of_right_ne_nil tokens (movesRest one)

theorem congr {parser' : Parser α}
    (same : ∀ other : State, glance.Same state.cursor.current other.cursor.current →
      (strict → other.cursor.current = state.cursor.current) → parser' other = parser other)
    (here : LocalFrom allowed glance strict state parser) :
    LocalFrom allowed glance strict state parser' := by
  unfold LocalFrom
  rw [same state (glance.same_refl _) fun _ => rfl]
  cases run : parser state with
  | exhausted => trivial
  | parsed value after =>
      obtain ⟨tokens, faults, repeats, moves⟩ := here.of_parsed run
      exact ⟨tokens, faults, repeats.congr fun other looks equal =>
        same other looks fun one => equal (moves one), moves⟩
  | failed after =>
      obtain ⟨tokens, faults, repeats⟩ := here.of_failed run
      exact ⟨tokens, faults, repeats.congr fun other looks _ =>
        same other (Glance.whole_covers glance _ _ looks) fun _ => looks⟩

theorem advance (ended : state.cursor.Ended) (inside : state.cursor.current.kind ≠ .endOfInput)
    (allows : allowed state.cursor.current.kind) : LocalFrom allowed glance true state advance :=
  ⟨_, _, .advance ended inside allows, fun _ => List.cons_ne_nil _ _⟩

theorem advance_bind {next : Token → Parser β} (ended : state.cursor.Ended)
    (inside : state.cursor.current.kind ≠ .endOfInput) (allows : allowed state.cursor.current.kind)
    (rest : ∀ token, Local allowed glance false (next token)) :
    LocalFrom allowed glance true state (Parser.advance >>= next) := by
  have first : LocalFrom allowed glance true state Parser.advance := advance ended inside allows
  exact first.bind ended (fun token after _ ended => rest token after ended) fun _ =>
    glance.covers_refl

/-- What depends on the current token, where that is seen. -/
theorem current_bind {next : Token → Parser β} (sees : strict = true ∨ glance = .whole)
    (here : LocalFrom allowed glance strict state (next state.cursor.current)) :
    LocalFrom allowed glance strict state (current >>= next) := by
  refine here.congr fun other looks equal => ?_
  have same : other.cursor.current = state.cursor.current := by
    rcases sees with sees | rfl
    · exact equal sees
    · exact looks
  exact congrArg (fun token => next token other) same

end LocalFrom

/-! ### Parsers that stay where they are -/

/-- A parser that always has a result, passes nothing and depends on the scope only. -/
def Still (parser : Parser α) : Prop :=
  ∀ scope, ∃ value after faults, ∀ cursor errors,
    parser ⟨cursor, scope, errors⟩ = .parsed value ⟨cursor, after, faults ++ errors⟩

namespace Still

theorem pure (value : α) : Still (pure value : Parser α) :=
  fun scope => ⟨value, scope, [], fun _ _ => rfl⟩

theorem scope : Still scope :=
  fun scope => ⟨scope, scope, [], fun _ _ => rfl⟩

theorem takePendingLoop : Still takePendingLoop :=
  fun scope => ⟨scope.pendingLoop, scope.settled, [], fun _ _ => rfl⟩

theorem report (token : Token) (fault : GrammarFault) : Still (report token fault) :=
  fun scope => ⟨(), scope, [⟨token, fault, scope.reporting⟩], fun _ _ => rfl⟩

theorem demand (kept : Bool) (token : Token) (fault : GrammarFault) :
    Still (demand kept token fault) := by
  unfold Parser.demand
  split
  · exact .pure ()
  · exact .report token fault

theorem bind {parser : Parser α} {next : α → Parser β} (first : Still parser)
    (rest : ∀ value, Still (next value)) :
    Still (parser >>= next) := by
  intro scope
  obtain ⟨value, middle, faults, does⟩ := first scope
  obtain ⟨result, after, others, doesRest⟩ := rest value middle
  refine ⟨result, after, others ++ faults, fun cursor errors => ?_⟩
  rw [bind_apply, andThen, does]
  simp only [doesRest, List.append_assoc]

/-- Where such a parser stands makes no difference. -/
theorem repeats (allowed : TokenKind → Bool) (glance : Glance) {parser : Parser α}
    (still : Still parser) (state : State) :
    ∃ value after faults,
      parser state = .parsed value ⟨state.cursor, after, faults ++ state.errors⟩ ∧
      Repeats allowed glance parser (.parsed value) state
        ⟨state.cursor, after, faults ++ state.errors⟩ []
        faults := by
  obtain ⟨value, after, faults, does⟩ := still state.scope
  refine ⟨value, after, faults, does state.cursor state.errors,
    .stay after faults fun other scopes _ => ?_⟩
  rw [← does, ← scopes]

theorem toLocal {parser : Parser α} (still : Still parser) : Local allowed glance false parser := by
  intro state ended
  obtain ⟨value, after, faults, run, repeats⟩ := still.repeats allowed glance state
  unfold LocalFrom
  rw [run]
  exact ⟨[], faults, repeats, by simp⟩

end Still

namespace Local

variable {parser : Parser α}

theorem weaken {less : Glance} {allowed' : TokenKind → Bool}
    (allows : ∀ kind, allowed kind → allowed' kind) (covers : glance.Covers less)
    (here : Local allowed less strict parser) :
    Local allowed' glance strict parser :=
  fun state ended => (here state ended).weaken allows covers id

theorem loose (here : Local allowed glance true parser) : Local allowed glance strict parser :=
  fun state ended => (here state ended).weaken (fun _ => id) glance.covers_refl fun _ => rfl

theorem exhausted : Local allowed glance strict (exhausted : Parser α) :=
  fun _ _ => trivial

theorem pure (value : α) : Local allowed glance false (pure value : Parser α) :=
  (Still.pure value).toLocal

theorem bind {next : α → Parser β} (first : Local allowed glance strict parser)
    (rest : ∀ value, Local allowed glance false (next value)) :
    Local allowed glance strict (parser >>= next) := by
  intro state ended
  have both := (first state ended).bind ended (fun value after _ ended => rest value after ended)
    fun _ => glance.covers_refl
  rwa [Bool.or_false] at both

/-- Where something is passed behind a parser, what that parser has seen is among it. -/
theorem bindStrict {next : α → Parser β} (first : Local allowed glance strict parser)
    (rest : ∀ value, Local allowed glance' true (next value)) :
    Local allowed glance' true (parser >>= next) := by
  intro state ended
  have both :=
    (first state ended).bind ended (fun value after _ ended => rest value after ended) (by simp)
  rwa [Bool.or_true] at both

theorem bindStill {next : α → Parser β} (first : Still parser)
    (rest : ∀ value, Local allowed glance strict (next value)) :
    Local allowed glance strict (parser >>= next) := by
  intro state ended
  have here : LocalFrom allowed glance false state parser := first.toLocal state ended
  have both := here.bind ended
    (fun value after _ ended => rest value after ended) fun _ => glance.covers_refl
  rwa [Bool.false_or] at both

theorem fail (token : Token) (fault : GrammarFault) :
    Local allowed glance strict (fail token fault : Parser α) := by
  intro state ended
  refine ⟨[], _, .stay state.scope [⟨token, fault, state.scope.reporting⟩] fun other scopes _ => ?_⟩
  rw [Parser.fail, scopes]
  rfl

theorem current_bind {next : Token → Parser β}
    (rest : ∀ token, Local allowed .whole strict (next token)) :
    Local allowed .whole strict (current >>= next) :=
  fun state ended => .current_bind (.inr rfl) (rest _ state ended)

theorem check_bind {kind : TokenKind} {next : Bool → Parser β}
    (rest : ∀ found, Local allowed .whole strict (next found)) :
    Local allowed .whole strict (check kind >>= next) :=
  current_bind fun token => rest (token.kind == kind)

theorem atEnd_bind {next : Bool → Parser β}
    (rest : ∀ found, Local allowed .whole strict (next found)) :
    Local allowed .whole strict (atEnd >>= next) :=
  current_bind fun token => rest (token.kind == .endOfInput)

theorem map (here : Local allowed glance strict parser) (change : α → β) :
    Local allowed glance strict (change <$> parser) := by
  rw [map_eq_pure_bind]
  exact here.bind fun _ => .pure _

end Local

/-! ### Parsers that pass a token or none -/

/-- A parser that passes the current token if something is found in it. -/
structure Selects (allowed : TokenKind → Bool) (parser : Parser (Option α))
    (found : Token → Option α) :
    Prop where
  selects : parser = current >>= fun token =>
    match found token with
    | none => pure none
    | some value => advance >>= fun _ => pure (some value)
  inside : ∀ token value, found token = some value → token.kind ≠ .endOfInput ∧ allowed token.kind

/-- What an optional token of a kind is. -/
def ofKind (kind : TokenKind) (token : Token) : Option Token :=
  if token.kind == kind then some token else none

theorem selects_eat? {kind : TokenKind} (inside : kind ≠ .endOfInput) (allows : allowed kind) :
    Selects allowed (eat? kind) (ofKind kind) where
  selects := by
    funext state
    rw [eat?, Cursor.check]
    simp only [bind_apply, andThen, current, ofKind]
    by_cases same : (state.cursor.current.kind == kind) = true
    · simp only [if_pos same]
      rfl
    · simp only [if_neg same]
      rfl
  inside := by
    intro token value found
    rw [ofKind] at found
    split at found
    · rename_i same
      rw [beq_iff_eq.mp same]
      exact ⟨inside, allows⟩
    · cases found

theorem LocalFrom.bind_selects {parser : Parser (Option α)} {found : Token → Option α}
    {state : State} {next : Option α → Parser β} (selects : Selects allowed parser found)
    (ended : state.cursor.Ended) (sees : strict = true ∨ glance.Shows found)
    (without : LocalFrom allowed glance strict state (next none))
    (behind : ∀ value, Local allowed glance false (next (some value))) :
    LocalFrom allowed glance strict state (parser >>= next) := by
  rw [selects.selects, bind_assoc]
  cases here : found state.cursor.current with
  | none =>
      refine without.congr fun other looks equal => ?_
      have absent : found other.cursor.current = none := by
        rcases sees with sees | shows
        · rw [equal sees, here]
        · exact shows _ _ looks here
      simp only [bind_apply, andThen, current, absent]
      rfl
  | some value =>
      obtain ⟨inside, allows⟩ := selects.inside _ _ here
      have moves :
          LocalFrom allowed glance true state (Parser.advance >>= fun _ => next (some value)) :=
        .advance_bind ended inside allows fun _ => behind value
      have stricter : LocalFrom allowed glance true state (current >>= fun token =>
          (match found token with
            | none => Pure.pure none
            | some value => Parser.advance >>= fun _ => Pure.pure (some value)) >>= next) := by
        refine LocalFrom.current_bind (.inl rfl) ?_
        simp only [here]
        exact moves
      exact stricter.weaken (fun _ => id) glance.covers_refl fun _ => rfl

namespace Local

/-- A token that was looked for and is not there has been seen, unless what comes instead is
passed. -/
theorem bind_selects {parser : Parser (Option α)} {found : Token → Option α}
    {next : Option α → Parser β} (selects : Selects allowed parser found)
    (sees : strict = true ∨ glance.Shows found) (without : Local allowed glance strict (next none))
    (behind : ∀ value, Local allowed glance false (next (some value))) :
    Local allowed glance strict (parser >>= next) :=
  fun state ended => .bind_selects selects ended sees (without state ended) behind

theorem bind_eat {kind : TokenKind} {next : Bool → Parser β} (inside : kind ≠ .endOfInput)
    (allows : allowed kind) (sees : strict = true ∨ glance.Shows (ofKind kind))
    (without : Local allowed glance strict (next false))
    (behind : Local allowed glance false (next true)) :
    Local allowed glance strict (eat kind >>= next) := by
  rw [eat_bind]
  exact .bind_selects (selects_eat? inside allows) sees without fun _ => behind

theorem expect {kind : TokenKind} (inside : kind ≠ .endOfInput) (allows : allowed kind)
    (part : Missing) :
    Local allowed glance true (expect kind part) := by
  rw [expect_eq]
  refine .bind_selects (selects_eat? inside allows) (.inl rfl)
    (fun state ended => ?_) fun token => .pure token
  exact .current_bind (.inl rfl) (Local.fail _ _ state ended)

theorem expectName (allows : allowed .identifier) (part : Missing) :
    Local allowed glance true (expectName part) :=
  .bind (.expect (by decide) allows part) fun _ => .pure _

theorem checkLimit (count : Nat) (fault : GrammarFault) :
    Local allowed .whole false (checkLimit count fault) := by
  unfold Parser.checkLimit
  split
  · exact .current_bind fun token => (Still.report token fault).toLocal
  · exact .pure ()

end Local

/-! ### Parsers in other scopes, and recovery -/

theorem Repeats.within {parser : Parser α} {ending : State → Result α} {before after : State}
    {tokens : List Token} {faults : List GrammarError} {enter : Scope → Scope}
    {leave : Scope → Scope → Scope}
    (maps : ∀ change state,
      (ending state).mapScope change = ending { state with scope := change state.scope })
    (inside : Repeats allowed glance parser ending
      { before with scope := enter before.scope } after tokens faults) :
    Repeats allowed glance (within enter leave parser) ending before
      { after with scope := leave before.scope after.scope } tokens faults where
  passes := inside.passes
  allowed := inside.allowed
  errors := inside.errors
  elsewhere := by
    intro other next rest scopes front seen
    rw [Parser.within, inside.elsewhere { other with scope := enter other.scope } next rest
      (congrArg enter scopes) front seen, maps, scopes]
    rfl

theorem Local.within {parser : Parser α} (enter : Scope → Scope) (leave : Scope → Scope → Scope)
    (here : Local allowed glance strict parser) :
    Local allowed glance strict (within enter leave parser) := by
  intro state ended
  have inside := here { state with scope := enter state.scope } ended
  unfold LocalFrom at inside ⊢
  rw [Parser.within]
  cases run : parser { state with scope := enter state.scope } with
  | exhausted => trivial
  | parsed value after =>
      rw [run] at inside
      obtain ⟨tokens, faults, repeats, moves⟩ := inside
      exact ⟨tokens, faults, repeats.within fun _ _ => rfl, moves⟩
  | failed after =>
      rw [run] at inside
      obtain ⟨tokens, faults, repeats⟩ := inside
      exact ⟨tokens, faults, repeats.within fun _ _ => rfl⟩

theorem Local.withLoop {parser : Parser α} (here : Local allowed glance strict parser) :
    Local allowed glance strict (withLoop parser) := by
  rw [withLoop_eq]
  exact here.within _ _

theorem Local.withFunctionBody {parser : Parser α} (here : Local allowed glance strict parser) :
    Local allowed glance strict (withFunctionBody parser) := by
  rw [withFunctionBody_eq]
  exact here.within _ _

theorem Local.withLabel {parser : Parser α} (label : Name) (isLoop : Bool)
    (here : Local allowed glance strict parser) :
    Local allowed glance strict (withLabel label isLoop parser) := by
  rw [withLabel_eq]
  exact here.within _ _

/-- Recovery sees the boundary at which it stops. -/
theorem Local.recovering {parser : Parser α} (here : Local anyKind glance strict parser) :
    Local anyKind .whole false (recovering parser) := by
  intro state ended
  unfold LocalFrom
  rw [Parser.recovering]
  cases run : parser state with
  | exhausted => trivial
  | parsed value after =>
      obtain ⟨tokens, faults, repeats, -⟩ := (here state ended).of_parsed run
      refine ⟨tokens, faults, ⟨repeats.passes, repeats.allowed, repeats.errors, ?_⟩, by simp⟩
      intro other next rest scopes front seen
      rw [Parser.recovering,
        repeats.elsewhere other next rest scopes front (glance.whole_covers _ _ seen)]
  | failed after =>
      obtain ⟨tokens, faults, repeats⟩ := (here state ended).of_failed run
      obtain ⟨skipped, passes, elsewhere⟩ := Cursor.synchronize_local (repeats.passes.ended ended)
      refine ⟨tokens ++ skipped, faults,
        ⟨repeats.passes.trans passes, fun _ _ => rfl, repeats.errors, ?_⟩, by simp⟩
      rintro other next rest scopes front ⟨⟩
      -- The parser gives up in front of the first token that recovery skips, if there is one.
      obtain ⟨first, others, ahead, same, -⟩ :=
        passes.next_same .whole after.cursor.synchronize.current rest fun nothing => by
          subst nothing
          exact congrArg Cursor.current passes.eq_of_nil
      rw [List.append_assoc, ahead] at front
      rw [Parser.recovering, repeats.elsewhere other first others scopes front same]
      simp only [State.beyond,
        elsewhere ⟨tokens.reverse ++ other.cursor.passed, first, others⟩ rest ahead.symm]
      simp

end Parser

end Lox
