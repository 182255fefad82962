import Lox.Proofs.Parser.Attempt
import Lox.Session

/-!
What reporters are told of a run.

A run tells its reporter of events, one after another: lines that are printed and diagnostics. Which
events these are does not depend on the reporter, as long as its flags say what they ought to
(`LawfulReporter`), so they can be spoken of without one; the reporter is then what its part in them
makes of it (`Reporter.replay`). An `Account` says which events go with which status.

Errors come to a status in three ways. Those of the scanner are seen in the reporter's flag, those
of the parser in its own count, of which `parse_counts` says that it is the number of diagnostics,
and an error at run time ends the run and is reported after it. `status_accounts` says that they
always agree.
-/

namespace Lox

/-! ### Reporters -/

/-- A reporter whose flags say whether a diagnostic of either phase was reported since the last
reset. -/
class LawfulReporter (ρ : Type) [Reporter ρ] : Prop where
  source_print (reporter : ρ) (text : String) :
    Reporter.hadSourceError (Reporter.print reporter text) = Reporter.hadSourceError reporter
  source_report (reporter : ρ) (diagnostic : Diagnostic) :
    Reporter.hadSourceError (Reporter.report reporter diagnostic) =
      (Reporter.hadSourceError reporter || diagnostic.isSource)
  source_reset (reporter : ρ) : Reporter.hadSourceError (Reporter.reset reporter) = false
  runtime_print (reporter : ρ) (text : String) :
    Reporter.hadRuntimeError (Reporter.print reporter text) = Reporter.hadRuntimeError reporter
  runtime_report (reporter : ρ) (diagnostic : Diagnostic) :
    Reporter.hadRuntimeError (Reporter.report reporter diagnostic) =
      (Reporter.hadRuntimeError reporter || diagnostic.isRuntime)
  runtime_reset (reporter : ρ) : Reporter.hadRuntimeError (Reporter.reset reporter) = false

theorem Transcript.window_report (transcript : Transcript) (diagnostic : Diagnostic) :
    (Reporter.report transcript diagnostic).window = transcript.window ++ [diagnostic] := by
  simp [window, Reporter.report, List.drop_append_of_le_length transcript.windowStart_le]

theorem Transcript.window_reset (transcript : Transcript) :
    (Reporter.reset transcript).window = [] := by
  simp [window, Reporter.reset]

instance : LawfulReporter Transcript where
  source_print _ _ := rfl
  source_report transcript diagnostic := by
    simp [Reporter.hadSourceError, Transcript.window_report]
  source_reset transcript := by simp [Reporter.hadSourceError, Transcript.window_reset]
  runtime_print _ _ := rfl
  runtime_report transcript diagnostic := by
    simp [Reporter.hadRuntimeError, Transcript.window_report]
  runtime_reset transcript := by simp [Reporter.hadRuntimeError, Transcript.window_reset]

instance : LawfulReporter Console where
  source_print _ _ := rfl
  source_report _ _ := rfl
  source_reset _ := rfl
  runtime_print _ _ := rfl
  runtime_report _ _ := rfl
  runtime_reset _ := rfl

/-! ### Events -/

/-- Something that a reporter is told. -/
inductive Event where
  | printed (text : String)
  | reported (diagnostic : Diagnostic)
  deriving DecidableEq, Repr

namespace Event

/-- Whether an event is the report of a mistake in a source. -/
def isSource : Event → Bool
  | .printed _ => false
  | .reported diagnostic => diagnostic.isSource

/-- Whether an event is the report of a mistake at run time. -/
def isRuntime : Event → Bool
  | .printed _ => false
  | .reported diagnostic => diagnostic.isRuntime

@[simp] theorem any_isSource_printed (texts : List String) :
    (texts.map printed).any isSource = false := by
  induction texts with
  | nil => rfl
  | cons text rest ih => exact ih

@[simp] theorem any_isRuntime_printed (texts : List String) :
    (texts.map printed).any isRuntime = false := by
  induction texts with
  | nil => rfl
  | cons text rest ih => exact ih

@[simp] theorem any_isSource_reported (diagnostics : List Diagnostic) :
    (diagnostics.map reported).any isSource = diagnostics.any Diagnostic.isSource :=
  List.any_map

@[simp] theorem any_isRuntime_reported (diagnostics : List Diagnostic) :
    (diagnostics.map reported).any isRuntime = diagnostics.any Diagnostic.isRuntime :=
  List.any_map

end Event

namespace Reporter

variable {ρ : Type} [Reporter ρ] (reporter : ρ)

/-- The reporter after it was told of an event. -/
def tell : Event → ρ
  | .printed text => print reporter text
  | .reported diagnostic => report reporter diagnostic

/-- The reporter after it was told of events, in order. -/
def replay (events : List Event) : ρ :=
  events.foldl tell reporter

-- By these two `simp` replays a list of events that is written out.

@[simp] theorem replay_nil : replay reporter [] = reporter := rfl

@[simp] theorem replay_cons (event : Event) (events : List Event) :
    replay reporter (event :: events) = replay (tell reporter event) events := rfl

@[simp] theorem replay_append (events more : List Event) :
    replay reporter (events ++ more) = replay (replay reporter events) more :=
  List.foldl_append

theorem printAll_eq (texts : List String) :
    printAll reporter texts = replay reporter (texts.map .printed) := by
  rw [printAll, replay, List.foldl_map]
  rfl

theorem reportAll_eq (diagnostics : List Diagnostic) :
    reportAll reporter diagnostics = replay reporter (diagnostics.map .reported) := by
  rw [reportAll, replay, List.foldl_map]
  rfl

variable [LawfulReporter ρ]

theorem hadSourceError_replay (events : List Event) : hadSourceError (replay reporter events) =
    (hadSourceError reporter || events.any Event.isSource) := by
  induction events generalizing reporter with
  | nil => simp
  | cons event rest ih =>
      rw [replay_cons, ih, List.any_cons]
      cases event with
      | printed text => simp [tell, Event.isSource, LawfulReporter.source_print]
      | reported diagnostic =>
          simp [tell, Event.isSource, LawfulReporter.source_report, Bool.or_assoc]

theorem hadRuntimeError_replay (events : List Event) : hadRuntimeError (replay reporter events) =
    (hadRuntimeError reporter || events.any Event.isRuntime) := by
  induction events generalizing reporter with
  | nil => simp
  | cons event rest ih =>
      rw [replay_cons, ih, List.any_cons]
      cases event with
      | printed text => simp [tell, Event.isRuntime, LawfulReporter.runtime_print]
      | reported diagnostic =>
          simp [tell, Event.isRuntime, LawfulReporter.runtime_report, Bool.or_assoc]

end Reporter

/-! ### Statuses -/

/-- The events that go with a status: lines only, diagnostics of the source only but one at least,
or lines and then one error at run time. -/
inductive Account : Status → List Event → Prop where
  | ok (texts : List String) : Account .ok (texts.map .printed)
  | sourceError {diagnostics : List Diagnostic} (some_ : diagnostics ≠ [])
      (all : ∀ diagnostic ∈ diagnostics, diagnostic.isSource) :
      Account .sourceError (diagnostics.map .reported)
  | runtimeError (texts : List String) {diagnostic : Diagnostic}
      (atRunTime : diagnostic.isRuntime) :
      Account .runtimeError (texts.map .printed ++ [.reported diagnostic])

namespace Diagnostic

theorem isRuntime_eq (diagnostic : Diagnostic) : diagnostic.isRuntime = !diagnostic.isSource := by
  rcases diagnostic with ⟨_ | _, _, _, _⟩ <;> rfl

end Diagnostic

namespace Account

variable {status : Status} {events : List Event}

theorem any_source (account : Account status events) :
    events.any Event.isSource = (status == .sourceError) := by
  cases account with
  | ok texts =>
      rw [Event.any_isSource_printed]
      rfl
  | sourceError holds all =>
      obtain ⟨diagnostic, member⟩ := List.exists_mem_of_ne_nil _ holds
      rw [Event.any_isSource_reported,
        List.any_eq_true.mpr ⟨diagnostic, member, all diagnostic member⟩]
      rfl
  | @runtimeError texts diagnostic atRunTime =>
      have apart : diagnostic.isSource = false := by simpa [Diagnostic.isRuntime_eq] using atRunTime
      rw [List.any_append, Event.any_isSource_printed, List.any_cons, Event.isSource, apart]
      rfl

theorem any_runtime (account : Account status events) :
    events.any Event.isRuntime = (status == .runtimeError) := by
  cases account with
  | ok texts =>
      rw [Event.any_isRuntime_printed]
      rfl
  | @sourceError diagnostics holds all =>
      have apart : diagnostics.any Diagnostic.isRuntime = false := by
        simpa [Diagnostic.isRuntime_eq] using all
      rw [Event.any_isRuntime_reported, apart]
      rfl
  | @runtimeError texts diagnostic atRunTime =>
      rw [List.any_append, List.any_cons, Event.isRuntime, atRunTime, Bool.true_or, Bool.or_true]
      rfl

end Account

/-! ### The front end -/

theorem Scan.ofPieces_source (row : List Piece) (line : Nat) :
    ∀ diagnostic ∈ (ofPieces line row).diagnostics, diagnostic.isSource := by
  induction row generalizing line with
  | nil => simp [ofPieces]
  | cons piece rest ih =>
      cases piece with
      | stray c => exact List.forall_mem_cons.mpr ⟨rfl, ih _⟩
      | openString text => exact List.forall_mem_cons.mpr ⟨rfl, ih _⟩
      | token kind text => exact ih _
      | space c => exact ih _
      | comment text => exact ih _

/-- All that is wrong with a text: with its characters, and with its tokens. -/
def sourceFaults (source : String) (expressionOnly : Bool) : List Diagnostic :=
  (scan source).diagnostics ++ (parse (scan source).tokens expressionOnly).diagnostics

theorem sourceFaults_source (source : String) (expressionOnly : Bool) :
    ∀ diagnostic ∈ sourceFaults source expressionOnly, diagnostic.isSource := by
  intro diagnostic member
  rcases List.mem_append.mp member with scanned | parsed
  · exact Scan.ofPieces_source _ _ diagnostic scanned
  · obtain ⟨error, -, rfl⟩ := List.mem_map.mp parsed
    rfl

/-- What is wrong with the characters is reported first, and then what is wrong with the tokens. -/
theorem reportAll_sourceFaults {ρ : Type} [Reporter ρ] (source : String) (expressionOnly : Bool)
    (reporter : ρ) :
    Reporter.reportAll (Reporter.reportAll reporter (scan source).diagnostics)
      (parse (scan source).tokens expressionOnly).diagnostics =
      Reporter.replay reporter ((sourceFaults source expressionOnly).map .reported) := by
  rw [Reporter.reportAll_eq, Reporter.reportAll_eq, ← Reporter.replay_append, ← List.map_append]
  rfl

/-- A text may run if nothing is wrong with it, and all that is wrong is reported. -/
theorem frontEnd_eq {ρ : Type} [Reporter ρ] [LawfulReporter ρ] (source : String)
    (expressionOnly : Bool) {reporter : ρ} (clear : Reporter.hadSourceError reporter = false) :
    frontEnd source expressionOnly reporter =
      (if sourceFaults source expressionOnly = [] then
          some (parse (scan source).tokens expressionOnly).statements else none,
        Reporter.replay reporter ((sourceFaults source expressionOnly).map .reported)) := by
  have flag : Reporter.hadSourceError
      (Reporter.replay reporter ((sourceFaults source expressionOnly).map .reported)) =
      !(sourceFaults source expressionOnly).isEmpty := by
    rw [Reporter.hadSourceError_replay, clear, Bool.false_or]
    cases faults : sourceFaults source expressionOnly with
    | nil => rfl
    | cons first rest =>
        have found := sourceFaults_source source expressionOnly first (faults ▸ List.mem_cons_self)
        simp [Event.isSource, found]
  have counted : (parse (scan source).tokens expressionOnly).hasErrors = true →
      sourceFaults source expressionOnly ≠ [] := by
    intro counts none
    have parsed := (List.append_eq_nil_iff.mp none).2
    have count := Parser.parse_counts (scan source).tokens expressionOnly
    rw [parsed] at count
    simp [Parsed.hasErrors, ← count] at counts
  simp only [frontEnd, scanReporting, parseReporting, reportAll_sourceFaults, flag]
  by_cases none : sourceFaults source expressionOnly = []
  · have clean : (parse (scan source).tokens expressionOnly).hasErrors = false :=
      Bool.eq_false_iff.mpr fun counts => counted counts none
    simp [none, clean]
  · simp [none]

/-- No source may run once a mistake in one was reported; its faults are reported all the same. -/
theorem frontEnd_flagged {ρ : Type} [Reporter ρ] [LawfulReporter ρ] (source : String)
    (expressionOnly : Bool) {reporter : ρ} (flagged : Reporter.hadSourceError reporter = true) :
    frontEnd source expressionOnly reporter =
      (none, Reporter.replay reporter ((sourceFaults source expressionOnly).map .reported)) := by
  have flag : Reporter.hadSourceError
      (Reporter.replay reporter ((sourceFaults source expressionOnly).map .reported)) = true := by
    rw [Reporter.hadSourceError_replay, flagged, Bool.true_or]
  simp only [frontEnd, scanReporting, parseReporting, reportAll_sourceFaults, flag,
    Bool.or_true, if_true]

/-! ### Runs -/

namespace Interpreter

variable {α ρ : Type} [Reporter ρ]

/-- How acting on the machine of an interpreter ends: with a status, with the interpreter that is
left, and with what a reporter is told. -/
def ending (interpreter : Interpreter) (action : Host → Exec α) :
    Option (Status × Interpreter × List Event) :=
  let left (machine : Machine) : Interpreter :=
    { interpreter with machine := { machine with printed := #[] } }
  match action interpreter.host interpreter.machine with
  | .done _ machine => some (.ok, left machine, machine.printed.toList.map .printed)
  | .failed error machine => some (.runtimeError, left machine,
      machine.printed.toList.map .printed ++ [.reported error.toDiagnostic])
  | .outOfFuel => none

theorem ending_account {interpreter after : Interpreter} {action : Host → Exec α} {status : Status}
    {events : List Event} (ends : interpreter.ending action = some (status, after, events)) :
    Account status events ∧ status ≠ .sourceError := by
  unfold ending at ends
  split at ends <;> cases ends
  · exact ⟨.ok _, by decide⟩
  · exact ⟨.runtimeError _ rfl, by decide⟩

/-- Acting with a reporter, going on with the status: the ending says what is left and what was
told. -/
theorem performReporting_ending {β : Type} (interpreter : Interpreter) (reporter : ρ)
    (action : Host → Exec α) (next : Status → Interpreter → ρ → β) :
    (do let (result, after, reporter) ← interpreter.performReporting reporter action
        return next (.ofResult result) after reporter) =
      (interpreter.ending action).map fun (status, after, events) =>
        next status after (Reporter.replay reporter events) := by
  unfold performReporting perform ending
  cases action interpreter.host interpreter.machine with
  | done value machine => simp [Reporter.printAll_eq, Status.ofResult]
  | failed error machine => simp [Reporter.printAll_eq, Status.ofResult, Reporter.tell]
  | outOfFuel => rfl

end Interpreter

/-- How a whole program runs, and what a reporter is told of it. -/
def sourceEnding (fuel : Nat) (clock : Nat → Float) (source : String) :
    Option (Status × List Event) :=
  if sourceFaults source false = [] then
    ((Interpreter.build [] clock defaultMaxCallDepth).ending fun host =>
      Interpreter.interpret host fuel (parse (scan source).tokens false).statements).map
        fun (status, _, events) => (status, events)
  else some (.sourceError, (sourceFaults source false).map .reported)

/-- How a line runs in a session, and what a reporter is told of it. -/
def lineEnding (fuel : Nat) (interpreter : Interpreter) (scope : FrameRef) (line : String) :
    Option (Status × Interpreter × List Event) :=
  if sourceFaults line true = [] then
    interpreter.ending fun host =>
      Interpreter.executeIn host fuel (parse (scan line).tokens true).statements scope
  else some (.sourceError, interpreter, (sourceFaults line true).map .reported)

theorem sourceEnding_account {fuel : Nat} {clock : Nat → Float} {source : String} {status : Status}
    {events : List Event} (ends : sourceEnding fuel clock source = some (status, events)) :
    Account status events := by
  unfold sourceEnding at ends
  split at ends
  · obtain ⟨⟨_, after, _⟩, ran, same⟩ := Option.map_eq_some_iff.mp ends
    cases same
    exact (Interpreter.ending_account ran).1
  · rename_i faulty
    cases ends
    exact .sourceError faulty (sourceFaults_source source false)

theorem lineEnding_account {fuel : Nat} {interpreter after : Interpreter} {scope : FrameRef}
    {line : String} {status : Status} {events : List Event}
    (ends : lineEnding fuel interpreter scope line = some (status, after, events)) :
    Account status events ∧ (status = .sourceError → after = interpreter) := by
  unfold lineEnding at ends
  split at ends
  · obtain ⟨account, apart⟩ := Interpreter.ending_account ends
    exact ⟨account, fun same => absurd same apart⟩
  · rename_i faulty
    cases ends
    exact ⟨.sourceError faulty (sourceFaults_source line true), fun _ => rfl⟩

section Runs

variable {ρ : Type} [Reporter ρ] [LawfulReporter ρ]

theorem runSource_eq (fuel : Nat) (clock : Nat → Float) (source : String) {reporter : ρ}
    (clear : Reporter.hadSourceError reporter = false) :
    runSource fuel clock source reporter = (sourceEnding fuel clock source).map
      fun (status, events) => (status, Reporter.replay reporter events) := by
  rw [runSource, sourceEnding, frontEnd_eq source false clear]
  by_cases clean : sourceFaults source false = []
  · rw [if_pos clean, if_pos clean, clean, Option.map_map]
    generalize (parse (scan source).tokens false).statements = program
    generalize Interpreter.build [] clock defaultMaxCallDepth = interpreter
    exact interpreter.performReporting_ending reporter
      (fun host => Interpreter.interpret host fuel program) fun status _ reporter =>
      (status, reporter)
  · rw [if_neg clean, if_neg clean]
    rfl

theorem runLine_eq (fuel : Nat) (session : Session ρ) (line : String) :
    session.runLine fuel line = (lineEnding fuel session.interpreter session.scope line).map
      fun (status, interpreter, events) => (status, { session with
        interpreter, reporter := Reporter.replay (Reporter.reset session.reporter) events }) := by
  have clear : Reporter.hadSourceError (Reporter.reset session.reporter) = false :=
    LawfulReporter.source_reset session.reporter
  unfold Session.runLine lineEnding
  rw [frontEnd_eq line true clear]
  by_cases clean : sourceFaults line true = []
  · rw [if_pos clean, if_pos clean, clean]
    generalize (parse (scan line).tokens true).statements = program
    exact session.interpreter.performReporting_ending (Reporter.reset session.reporter)
      (fun host => Interpreter.executeIn host fuel program session.scope)
      fun status interpreter reporter => (status, { session with interpreter, reporter })
  · rw [if_neg clean, if_neg clean]
    rfl

end Runs

/-- **Status, diagnostics and output agree.** How a whole program ends, and what a reporter is told
of it, is the same for all reporters with a clear flag, and the events are those that go with the
status. The same holds of every line of a session in every state, whatever the flags were before. A
line with a mistake in its source leaves the interpreter as it was, and after every line the flags
say which of the two sorts of error it had. The number of faults that parsing counts is always that
of the diagnostics. -/
theorem status_accounts :
    (∀ (fuel : Nat) (clock : Nat → Float) (source : String),
      ∃ ending : Option (Status × List Event),
      (∀ status events, ending = some (status, events) → Account status events) ∧
      ∀ (ρ : Type) [Reporter ρ] [LawfulReporter ρ] (reporter : ρ),
        Reporter.hadSourceError reporter = false → runSource fuel clock source reporter =
          ending.map fun (status, events) => (status, Reporter.replay reporter events)) ∧
    (∀ (fuel : Nat) (interpreter : Interpreter) (scope : FrameRef) (line : String),
      ∃ ending : Option (Status × Interpreter × List Event),
        (∀ status after events, ending = some (status, after, events) →
          Account status events ∧ (status = .sourceError → after = interpreter)) ∧
        ∀ (ρ : Type) [Reporter ρ] [LawfulReporter ρ] (reporter : ρ),
          Session.runLine fuel ⟨interpreter, scope, reporter⟩ line =
            (ending.map fun (status, after, events) =>
              (status, ⟨after, scope, Reporter.replay (Reporter.reset reporter) events⟩)) ∧
          ∀ status session,
            Session.runLine fuel ⟨interpreter, scope, reporter⟩ line = some (status, session) →
            (Reporter.hadSourceError session.reporter ↔ status = .sourceError) ∧
            (Reporter.hadRuntimeError session.reporter ↔ status = .runtimeError)) ∧
    ∀ (tokens : List Token) (expressionOnly : Bool),
      (parse tokens expressionOnly).errorCount =
      (parse tokens expressionOnly).diagnostics.length := by
  refine ⟨fun fuel clock source => ?_, fun fuel interpreter scope line => ?_,
    fun tokens expressionOnly => (Parser.parse_counts tokens expressionOnly).symm⟩
  · exact ⟨sourceEnding fuel clock source, fun _ _ => sourceEnding_account,
      fun ρ _ _ reporter clear => runSource_eq fuel clock source clear⟩
  · refine ⟨lineEnding fuel interpreter scope line, fun _ _ _ =>
      lineEnding_account, fun ρ _ _ reporter => ?_⟩
    have ran := runLine_eq fuel ⟨interpreter, scope, reporter⟩ line
    refine ⟨ran, fun status session result => ?_⟩
    rw [ran, Option.map_eq_some_iff] at result
    obtain ⟨⟨_, after, events⟩, ends, same⟩ := result
    cases same
    obtain ⟨account, -⟩ := lineEnding_account ends
    rw [Reporter.hadSourceError_replay, Reporter.hadRuntimeError_replay,
      LawfulReporter.source_reset,
      LawfulReporter.runtime_reset, account.any_source, account.any_runtime]
    simp

/-- A program that prints a line and then calls what is no function. -/
theorem status_accounts_call : ∃ events, Account .runtimeError events ∧
    runSource 100 (fun _ => 0) "print \"a\"; nil();" Transcript.empty =
      some (.runtimeError, Reporter.replay Transcript.empty events) := by
  obtain ⟨ending, account, same⟩ := status_accounts.1 100 (fun _ => 0) "print \"a\"; nil();"
  have ran := same Transcript Transcript.empty rfl
  have status : (runSource 100 (fun _ => 0) "print \"a\"; nil();" Transcript.empty).map Prod.fst =
      some .runtimeError := by decide +kernel
  rw [ran, Option.map_map, Option.map_eq_some_iff] at status
  obtain ⟨⟨_, events⟩, rfl, rfl⟩ := status
  exact ⟨events, account _ _ rfl, ran⟩

end Lox
