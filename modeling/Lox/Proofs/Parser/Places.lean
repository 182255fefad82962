import Lox.Proofs.Parser.Precedence
import Lox.Proofs.Syntax.Surface

/-!
Places of the surface language and scopes of the parser.

A place in the surface language says what is around it, the parser keeps a scope; `Place.scope` is
the scope that the parser has at a place. It lets a `break` or `continue` through exactly where the
rules allow one (`Place.allowsBreak_iff`, `Place.allowsContinue_iff`).

A label in front of a loop waits in the scope until the loop takes it, so the parser of statements
is looked at in states that wait for a loop too (`State.awaiting`).
-/

namespace Lox

/-! ### Places and scopes -/

/-- The name that a label brings for `break`. -/
def Enclosure.label? : Enclosure → Option String
  | .label text _ => some text
  | .loop => none

/-- The name that a label brings for `continue`. -/
def Enclosure.loopLabel? : Enclosure → Option String
  | .label text true => some text
  | _ => none

/-- The scope in which the parser is at a place. -/
def Place.scope (place : Place) : Scope where
  context := ⟨place.enclosures.contains .loop, place.inFunction⟩
  labels := ⟨place.enclosures.filterMap Enclosure.label?,
    place.enclosures.filterMap Enclosure.loopLabel?⟩
  pendingLoop := none
  reporting := true

/-- Whether a `break` with or without a label is let through. -/
def Scope.allowsBreak (scope : Scope) : Option Name → Bool
  | some label => scope.labels.has label.text
  | none => !scope.labels.isEmpty || scope.context.inLoop

/-- Whether a `continue` with or without a label is let through. -/
def Scope.allowsContinue (scope : Scope) : Option Name → Bool
  | some label => scope.labels.hasLoop label.text
  | none => scope.context.inLoop

namespace Place

@[simp] theorem scope_pendingLoop (place : Place) : place.scope.pendingLoop = none := rfl

theorem scope_program : program.scope = .program := rfl

theorem scope_enterFunction (place : Place) : place.scope.enterFunction = functionBody.scope := rfl

theorem scope_enter_loop (place : Place) : (place.enter .loop).scope =
    { place.scope with context := place.scope.context.add .loop } := by
  simp [scope, enter, List.filterMap_cons, Enclosure.label?, Enclosure.loopLabel?, Context.add,
    Context.loop]

theorem scope_enter_label (place : Place) (text : String) (ofLoop : Bool) :
    (place.enter (.label text ofLoop)).scope =
      { place.scope with labels := place.scope.labels.push text ofLoop } := by
  cases ofLoop <;>
    simp [scope, enter, List.filterMap_cons, Enclosure.label?, Enclosure.loopLabel?, Labels.push]

theorem allowsBreak_iff (place : Place) (label : Option Name) :
    place.scope.allowsBreak label = true ↔ place.AllowsBreak label := by
  cases label with
  | some label =>
      simp only [Scope.allowsBreak, Labels.has, scope, List.contains_iff_mem, List.mem_filterMap,
        AllowsBreak]
      constructor
      · rintro ⟨enclosure, member, found⟩
        cases enclosure with
        | loop => cases found
        | label text ofLoop =>
            cases found
            exact ⟨ofLoop, member⟩
      · rintro ⟨ofLoop, member⟩
        exact ⟨_, member, rfl⟩
  | none =>
      simp only [Scope.allowsBreak, AllowsBreak, scope, Labels.isEmpty]
      cases enclosures : place.enclosures with
      | nil => simp
      | cons enclosure rest =>
          rcases enclosure with _ | ⟨text, _ | _⟩ <;>
            simp [Enclosure.label?, Enclosure.loopLabel?]

theorem allowsContinue_iff (place : Place) (label : Option Name) :
    place.scope.allowsContinue label = true ↔ place.AllowsContinue label := by
  cases label with
  | some label =>
      simp only [Scope.allowsContinue, Labels.hasLoop, scope, List.contains_iff_mem,
        List.mem_filterMap, AllowsContinue]
      constructor
      · rintro ⟨enclosure, member, found⟩
        rcases enclosure with _ | ⟨text, _ | _⟩ <;> cases found
        exact member
      · intro member
        exact ⟨_, member, rfl⟩
  | none => simp [Scope.allowsContinue, AllowsContinue, scope]

end Place

namespace Parser

open State

variable {α : Type}

/-- The state with a label in front of a loop that is about to be parsed. -/
def State.awaiting (state : State) (label : Option Name) : State :=
  { state with scope := { state.scope with pendingLoop := label } }

theorem State.awaiting_none {state : State} (clear : state.scope.pendingLoop = none) :
    state.awaiting none = state := by
  rcases state with ⟨cursor, ⟨context, labels, pending⟩, errors⟩
  cases clear
  rfl

theorem takePendingLoop_awaiting {state : State} {label : Option Name}
    (clear : state.scope.pendingLoop = none) :
    takePendingLoop (state.awaiting label) = .parsed label state := by
  rcases state with ⟨cursor, ⟨context, labels, pending⟩, errors⟩
  cases clear
  rfl

/-- The state in another scope. -/
def State.under (state : State) (scope : Scope) : State :=
  { state with scope }

theorem State.Goes.under {tokens : List Token} {before after : State}
    (goes : Goes tokens before after) (scope : Scope) :
    Goes tokens (before.under scope) (after.under scope) :=
  ⟨goes.passes, rfl, goes.errors⟩

/-- A parser in another scope, which is left again afterwards. -/
theorem Reaches.within {parser : Nat → Parser α} {enter : Scope → Scope}
    {leave : Scope → Scope → Scope} {before after : State} {value : α} (inside outside : Scope)
    (reaches : Reaches parser (before.under (enter before.scope)) value (after.under inside))
    (left : leave before.scope inside = outside) (same : after.scope = outside) :
    Reaches (fun steps => within enter leave (parser steps)) before value after := by
  obtain ⟨enough, reaches⟩ := reaches
  refine ⟨enough, fun steps le => ?_⟩
  have run := reaches steps le
  change (parser steps (before.under (enter before.scope))).mapScope _ = _
  rw [run, Result.mapScope, State.under, left, ← same]

/-! ### Statements that leave something -/

/-- A `break` or `continue` after its keyword: a label that may be left out, a semicolon, and a rule
on whether it may stand here. -/
def jump (part : Missing) (allowed : Scope → Option Name → Bool) (keyword : Token)
    (fault : Option Token → GrammarFault) (make : Option Name → Stmt) : Parser Stmt := do
  let label ← optionalLabel
  let _ ← expect .semicolon part
  let around ← scope
  demand (allowed around (label.map nameOf)) (label.getD keyword) (fault label)
  return make (label.map nameOf)

/-- What is wrong with a `break` that has nothing to leave. -/
def breakFault : Option Token → GrammarFault
  | some label => .unknownLabel label.lexeme
  | none => .breakOutside

/-- What is wrong with a `continue` that has nothing to go on with. -/
def continueFault : Option Token → GrammarFault
  | some label => .unknownLoopLabel label.lexeme
  | none => .continueOutside

theorem breakStatement_jump (keyword : Token) : breakStatement keyword =
    jump .semicolonAfterBreak Scope.allowsBreak keyword breakFault (.breakOut keyword.line) := by
  rw [breakStatement_eq]
  unfold jump
  congr 1
  funext label
  congr 1
  funext _
  congr 1
  funext around
  cases label <;> rfl

theorem continueStatement_jump (keyword : Token) : continueStatement keyword =
    jump .semicolonAfterContinue Scope.allowsContinue keyword continueFault
      (.continueOn keyword.line) := by
  rw [continueStatement_eq]
  unfold jump
  congr 1
  funext label
  congr 1
  funext _
  congr 1
  funext around
  cases label <;> rfl

theorem jump_reads {part : Missing} {allowed : Scope → Option Name → Bool} {keyword : Token}
    {fault : Option Token → GrammarFault} {make : Option Name → Stmt} {label : Option Name}
    {tokens : List Token} {before after : State}
    (spells : Spells (label.toList.map Mark.ofName ++ [.fixed .semicolon]) tokens)
    (goes : Goes tokens before after) (kept : allowed before.scope label = true) :
    jump part allowed keyword fault make before = .parsed (make label) after := by
  unfold jump
  obtain ⟨names, last, rfl, spellsNames, spellsLast⟩ := Spells.append_iff.mp spells
  obtain ⟨ends, none, rfl, fitsEnd, spellsNone⟩ := Spells.cons_iff.mp spellsLast
  cases spellsNone
  obtain ⟨middle, goesNames, goesEnd⟩ := goes.split
  have kept' : allowed after.scope label = true := by rwa [goes.scope]
  cases label with
  | none =>
      cases spellsNames
      have same : middle = before := goesNames.unique (.refl before)
      subst same
      have absent : optionalLabel middle = .parsed none middle :=
        eat?_other (by rw [goesEnd.current, fitsEnd.kind]; decide)
      simp only [bind_eq_parsed]
      refine ⟨_, _, absent, _, _, expect_goes goesEnd fitsEnd.kind _, _, _, rfl, ?_⟩
      refine ⟨(), after, ?_, rfl⟩
      rw [Option.map_none, kept']
      rfl
  | some name =>
      obtain ⟨token, none, rfl, fits, spellsNone⟩ := Spells.cons_iff.mp spellsNames
      cases spellsNone
      obtain ⟨kind, named⟩ := Mark.fits_ofName.mp fits
      have found : optionalLabel before = .parsed (some token) middle := eat?_goes goesNames kind
      simp only [bind_eq_parsed]
      refine ⟨_, _, found, _, _, expect_goes goesEnd fitsEnd.kind _, _, _, rfl, ?_⟩
      rw [Option.map_some, named]
      refine ⟨(), after, ?_, rfl⟩
      rw [kept']
      rfl

theorem demand_run {kept : Bool} {token : Token} {fault : GrammarFault} {before after : State}
    {result : Unit} (run : demand kept token fault before = .parsed result after)
    (clean : after.faults ≤ before.faults) : kept = true ∧ after = before := by
  cases kept with
  | true =>
      cases run
      exact ⟨rfl, rfl⟩
  | false =>
      cases run
      simp only [State.faults, List.length_cons] at clean
      omega

theorem jump_run {part : Missing} {allowed : Scope → Option Name → Bool} {keyword : Token}
    {fault : Option Token → GrammarFault} {make : Option Name → Stmt} {stmt : Stmt}
    {before after : State} (ended : before.cursor.Ended)
    (run : jump part allowed keyword fault make before = .parsed stmt after)
    (clean : after.faults ≤ before.faults) :
    ∃ (label : Option Name) (tokens : List Token), stmt = make label ∧ Goes tokens before after ∧
      Written (label.toList.map Mark.ofName ++ [.fixed .semicolon]) tokens ∧
      allowed before.scope label = true := by
  unfold jump at run
  simp only [bind_eq_parsed] at run
  obtain ⟨label?, middle, labelRun, ends, behind, endRun, around, same, scopeRun, _, last, ruleRun,
    run⟩ := run
  cases scopeRun
  cases run
  rcases eat?_run ended (by decide) labelRun with ⟨rfl, rfl, -⟩ | ⟨token, rfl, kind, goesLabel⟩
  · obtain ⟨endKind, goesEnd⟩ := expect_run ended (by decide) endRun
    obtain ⟨kept, rfl⟩ := demand_run ruleRun (by rw [goesEnd.faults]; exact clean)
    rw [goesEnd.scope] at kept
    exact ⟨none, [ends], rfl, goesEnd, Written.singleton (Mark.fits_fixed endKind rfl), kept⟩
  · obtain ⟨endKind, goesEnd⟩ :=
      expect_run (goesLabel.passes.ended ended) (by decide) endRun
    obtain ⟨kept, rfl⟩ := demand_run ruleRun (by
      rw [goesEnd.faults, goesLabel.faults]
      exact clean)
    rw [goesEnd.scope, goesLabel.scope] at kept
    exact ⟨some (nameOf token), [token, ends], rfl, goesLabel.cons goesEnd,
      .cons (Mark.fits_ofName.mpr ⟨kind, rfl⟩)
        (Written.singleton (Mark.fits_fixed endKind rfl)), kept⟩

end Parser

end Lox
