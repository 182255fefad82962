import Lox.Proofs.Session.Joining
import Lox.Proofs.Token.Spacing

/-!
Texts that differ in their layout only.

Where the tokens of a text stand, on which lines and with what white space and comments between
them, shows in the lines that messages name and in nothing else. If two texts consist of the same
tokens but for the lines of these, parsing them gives the same trees but for the lines in these, and
finds the same faults (`parse_layout`); and code that is alike runs alike, so a run of the one text
tells a reporter what a run of the other does (`layout_irrelevant`).
-/

namespace Lox

/-! ### Parsing -/

namespace Parser

variable {tokens others : List Token}

theorem ended_alike (alike : List.Forall₂ (Token.Alike anyLines) tokens others)
    (ended : ∃ token ∈ tokens, token.kind = .endOfInput) :
    ∃ token ∈ others, token.kind = .endOfInput := by
  induction alike with
  | nil => exact ended
  | cons first rest ih =>
      obtain ⟨token, member, kind⟩ := ended
      rcases List.mem_cons.mp member with rfl | member
      · exact ⟨_, List.mem_cons_self, first.kind ▸ kind⟩
      · obtain ⟨other, member, kind⟩ := ih ⟨token, member, kind⟩
        exact ⟨other, List.mem_cons_of_mem _ member, kind⟩

/-- If tokens are one expression, so are tokens that are alike. -/
theorem bare_alike (alike : List.Forall₂ (Token.Alike anyLines) tokens others) (holds : tokens ≠ [])
    {expr : Expr} (bare : BareExpression tokens expr) :
    ∃ other, BareExpression others other ∧ expr.Alike anyLines other := by
  obtain ⟨steps, after, run, clean, atEnd⟩ := bare
  have starts : (⟨anyLines, true, true⟩ : Comparison).States (.start tokens) (.start others) :=
    ⟨Cursor.alike_ofTokens holds alike, ⟨rfl, rfl, .none, rfl, rfl⟩, .nil⟩
  have results := (expressionsAlike ⟨anyLines, true, true⟩ steps).expression _ _ starts
  rw [run] at results
  obtain ⟨other, after', run', exprs, states⟩ := results.of_parsed
  have clean' : after'.errors = [] := by
    rw [← List.length_eq_zero_iff, ← states.errors.length_eq, clean, List.length_nil]
  exact ⟨other, ⟨steps, after', run', clean', states.cursor.atEnd ▸ atEnd⟩, exprs⟩

/-- Tokens that are the same but for their lines are parsed alike, as a program and at the
prompt. -/
theorem parse_layout (alike : List.Forall₂ (Token.Alike anyLines) tokens others)
    (ended : ∃ token ∈ tokens, token.kind = .endOfInput) (expressionOnly : Bool) :
    (parse tokens expressionOnly).Alike anyLines (parse others expressionOnly) := by
  have holds : tokens ≠ [] := by
    rintro rfl
    obtain ⟨token, member, -⟩ := ended
    cases member
  have holds' : others ≠ [] := by
    rintro rfl
    cases alike
    exact holds rfl
  have ended' := ended_alike alike ended
  cases expressionOnly with
  | false => exact parse_alike holds alike
  | true =>
      by_cases bare : ∃ expr, BareExpression tokens expr
      · obtain ⟨expr, bare⟩ := bare
        obtain ⟨other, bare', exprs⟩ := bare_alike alike holds bare
        rw [parse_bare ended bare, parse_bare ended' bare']
        exact ⟨.cons (.print exprs) .nil, rfl, .nil⟩
      · have plain : ∀ other, ¬ BareExpression others other := by
          intro other bare'
          obtain ⟨expr, given, -⟩ := bare_alike (Token.allAlike_symm alike) holds' bare'
          exact bare ⟨expr, given⟩
        rw [parse_not_bare ended fun expr given => bare ⟨expr, given⟩, parse_not_bare ended' plain]
        exact parse_alike holds alike

end Parser

/-! ### Running -/

/-- Two texts in whose characters nothing is wrong, with the same tokens but for the lines of
these. -/
structure SameTokens (source source' : String) : Prop where
  scans : (scan source).diagnostics = []
  scans' : (scan source').diagnostics = []
  tokens : List.Forall₂ (Token.Alike anyLines) (scan source).tokens (scan source').tokens

/-- The values that tokens carry are those of their texts, so these and the kinds need to be the
same only. -/
theorem sameTokens_of_written {source source' : String} (scans : (scan source).diagnostics = [])
    (scans' : (scan source').diagnostics = [])
    (written : (scan source).tokens.map (fun token => (token.kind, token.lexeme)) =
      (scan source').tokens.map fun token => (token.kind, token.lexeme)) :
    SameTokens source source' := by
  have read := congrArg (List.map (Prod.map id String.toList)) written
  rw [List.map_map, List.map_map] at read
  have same := said_of_read read (scan_valued source') (scan_valued source)
  rw [← List.forall₂_eq_eq_eq, List.forall₂_map_left_iff, List.forall₂_map_right_iff] at same
  refine ⟨scans, scans', same.imp fun token other same => ?_⟩
  obtain ⟨kind, rest⟩ := Prod.mk.inj same
  obtain ⟨lexeme, literal⟩ := Prod.mk.inj rest
  exact ⟨kind, lexeme, literal, trivial⟩

/-- Two endings of a run with the same status, in which reporters are told the same but for the
lines that diagnostics name. -/
def EndingsAlike (ending ending' : Status × List Event) : Prop :=
  ending.1 = ending'.1 ∧ List.Forall₂ Event.Alike ending.2 ending'.2

theorem Event.alike_reported {diagnostics diagnostics' : List Diagnostic}
    (alike : List.Forall₂ Diagnostic.Alike diagnostics diagnostics') :
    List.Forall₂ Event.Alike (diagnostics.map .reported) (diagnostics'.map .reported) := by
  rw [List.forall₂_map_left_iff, List.forall₂_map_right_iff]
  exact alike.imp fun _ _ same => .reported same.phase same.location same.message

/-- Outcomes that are the same are told alike, if nothing had been printed before on either side. -/
theorem telling_alike {scope : FrameRef} {link : Link anyLines} {machine machine' : Machine}
    {outcome outcome' : Outcome Unit} (abreast : Abreast scope link machine machine')
    (silent : machine'.printed = #[])
    (outcomes : Link.Outcomes (.at link machine machine') 0 link
      (fun _ _ _ => True) outcome outcome') :
    Option.Rel EndingsAlike outcome.telling outcome'.telling := by
  cases outcomes with
  | outOfFuel => exact .none
  | @done later _ _ after after' within machines _ =>
      have printed : after'.printed.toList = after.printed.toList := by
        rw [abreast.printed machines, silent]
        rfl
      refine .some ⟨rfl, ?_⟩
      simpa [printed] using Event.alike_printed after.printed.toList .nil
  | @failed later error error' after after' within machines errors =>
      have printed : after'.printed.toList = after.printed.toList := by
        rw [abreast.printed machines, silent]
        rfl
      refine .some ⟨rfl, ?_⟩
      rw [printed]
      exact Event.alike_printed after.printed.toList (.cons errors.event .nil)

section Sources

variable {source source' : String} (same : SameTokens source source')
include same

theorem SameTokens.parses (expressionOnly : Bool) :
    (parse (scan source).tokens expressionOnly).Alike anyLines
    (parse (scan source').tokens expressionOnly) :=
  Parser.parse_layout same.tokens (scan_ended source) expressionOnly

theorem SameTokens.faults (expressionOnly : Bool) :
    List.Forall₂ Diagnostic.Alike (sourceFaults source expressionOnly)
      (sourceFaults source' expressionOnly) := by
  rw [sourceFaults, sourceFaults, same.scans, same.scans']
  exact (same.parses expressionOnly).diagnostics

/-- Texts of the same tokens end alike when they are run with the same fuel. -/
theorem SameTokens.endings (fuel : Nat) (clock : Nat → Float) :
    Option.Rel EndingsAlike (sourceEnding fuel clock source) (sourceEnding fuel clock source') := by
  have faults := same.faults false
  have parses := same.parses false
  have equally : sourceFaults source false = [] ↔ sourceFaults source' false = [] := by
    rw [← List.length_eq_zero_iff, ← List.length_eq_zero_iff, faults.length_eq]
  by_cases none : sourceFaults source false = []
  · have count : (parse (scan source).tokens false).errorCount = 0 := by
      rw [← Parser.parse_counts, (List.append_eq_nil_iff.mp none).2, List.length_nil]
    have clean : CleanText source := ⟨same.scans, count⟩
    have clean' : CleanText source' := ⟨same.scans', parses.errorCount ▸ count⟩
    obtain ⟨interpreter, fresh⟩ : ∃ interpreter,
        interpreter = Interpreter.build [] clock defaultMaxCallDepth :=
      ⟨_, rfl⟩
    have abreast := abreast_opened clock fresh
    rw [sourceEnding_clean clock clean fresh, sourceEnding_clean clock clean' fresh]
    exact telling_alike abreast abreast.silent
      (abreast.outcomes (parametric_build clock fresh) parses.statements fuel)
  · rw [sourceEnding, sourceEnding, if_neg none, if_neg (mt equally.mpr none)]
    exact .some ⟨rfl, Event.alike_reported faults⟩

end Sources

/-- Nothing is run if the reporter has seen a mistake in a source before; the faults are reported
all the same. -/
theorem runSource_flagged {ρ : Type} [Reporter ρ] [LawfulReporter ρ] (fuel : Nat)
    (clock : Nat → Float) (source : String) {reporter : ρ}
    (flagged : Reporter.hadSourceError reporter = true) : runSource fuel clock source reporter =
      some
        (.sourceError, Reporter.replay reporter ((sourceFaults source false).map .reported)) := by
  rw [runSource, frontEnd_flagged source false flagged]

/-- **Layout does not matter but for line numbers.** Two texts that consist of the same tokens, and
so differ in white space, comments and line breaks only, are parsed into trees that are the same but
for their lines, and as many faults are found in them, with the same locations and messages. Run
with the same fuel and the same readings of the clock, either neither comes to an end, or both do,
with the same status, and every reporter is told the same of both but for the lines that diagnostics
name. What it is told depends on the reporter only in whether it has seen a mistake in a source
before. -/
theorem layout_irrelevant {source source' : String} (same : SameTokens source source') :
    (∀ expressionOnly, (parse (scan source).tokens expressionOnly).Alike anyLines
      (parse (scan source').tokens expressionOnly)) ∧
    ∀ (fuel : Nat) (clock : Nat → Float) (flagged : Bool),
      ∃ ending ending' : Option (Status × List Event),
      Option.Rel EndingsAlike ending ending' ∧
      ∀ (ρ : Type) [Reporter ρ] [LawfulReporter ρ] (reporter : ρ),
        Reporter.hadSourceError reporter = flagged →
        runSource fuel clock source reporter =
          ending.map (fun (status, events) => (status, Reporter.replay reporter events)) ∧
        runSource fuel clock source' reporter =
          ending'.map (fun (status, events) => (status, Reporter.replay reporter events)) := by
  refine ⟨same.parses, fun fuel clock flagged => ?_⟩
  cases flagged with
  | false =>
      refine ⟨sourceEnding fuel clock source, sourceEnding fuel clock source',
        same.endings fuel clock, ?_⟩
      intro ρ _ _ reporter clear
      exact ⟨runSource_eq fuel clock source clear, runSource_eq fuel clock source' clear⟩
  | true =>
      have alike : EndingsAlike (.sourceError, (sourceFaults source false).map .reported)
          (.sourceError, (sourceFaults source' false).map .reported) :=
        ⟨rfl, Event.alike_reported (same.faults false)⟩
      refine ⟨_, _, .some alike, ?_⟩
      intro ρ _ _ reporter flag
      exact ⟨runSource_flagged fuel clock source flag, runSource_flagged fuel clock source' flag⟩

/-- Two lines and a comment make no difference to what is printed before the error at the end. -/
theorem layout_irrelevant_comment :
    let source := "print \"a\"; -nil;"
    let source' := "print // a word\n  \"a\";\n-nil ;"
    SameTokens source source' ∧ ∃ whole whole',
      runSource 100 (fun _ => 0) source Transcript.empty = some (.runtimeError, whole) ∧
      runSource 100 (fun _ => 0) source' Transcript.empty = some (.runtimeError, whole') ∧
      whole.output = "a\n" ∧ whole'.output = "a\n" := by
  intro source source'
  have same : SameTokens source source' :=
    sameTokens_of_written (by decide +kernel) (by decide +kernel) (by decide +kernel)
  have result : (runSource 100 (fun _ => 0) source Transcript.empty).map
      (fun (status, whole) => (status, whole.output)) = some (.runtimeError, "a\n") := by
    decide +kernel
  obtain ⟨-, runs⟩ := layout_irrelevant same
  obtain ⟨ending, ending', alike, told⟩ := runs 100 (fun _ => 0) false
  obtain ⟨ran, ran'⟩ := told Transcript Transcript.empty rfl
  rw [ran] at result
  cases alike with
  | none => cases result
  | @some first second alike =>
      obtain ⟨status, events⟩ := first
      obtain ⟨status', events'⟩ := second
      obtain ⟨rfl, output⟩ := Prod.mk.inj (Option.some.inj result)
      obtain ⟨rfl, events⟩ := alike
      have output' := (Transcript.output_replay rfl events).symm.trans output
      exact ⟨same, _, _, ran, ran', output, output'⟩

end Lox
