import Lox.Proofs.Interpreter.Locality
import Lox.Proofs.Interpreter.Rows
import Lox.Proofs.Parser.Joining
import Lox.Proofs.Session.Accounts

/-!
A program in one piece and the same program line by line.

If nothing is wrong with some lines when each is taken by itself, nothing is wrong with them when
they are joined by line breaks, and running the joined text tells a reporter what running the lines
in a new session tells it, up to the first line that fails (`lines_as_whole`). The two go through
the same stages: the tokens and the statements of the joined text are those of the lines
(`Parser.parse_joined`), a program is run by running its front and then its rest
(`Interpreter.ends_append`), and after each line the machine of the session and that of the whole
run hold the same in paired frames (`Abreast`), since the code of the lines and that of the whole
are alike but for their lines.
-/

namespace Lox

/-! ### Lines of a session -/

section Lines

variable {ρ : Type} [Reporter ρ]

/-- Run lines one after another, up to the first that ends with an error at run time. -/
def Session.runLines (fuel : Nat) (session : Session ρ) : List String → Option (Status × Session ρ)
  | [] => some (.ok, session)
  | line :: rest => do
    let (status, session) ← session.runLine fuel line
    if status = .runtimeError then return (status, session) else session.runLines fuel rest

/-- The reporter after it was told of events for line after line, its flags being cleared for
each. -/
def Reporter.replayLines (reporter : ρ) (told : List (List Event)) : ρ :=
  told.foldl (fun reporter events => replay (reset reporter) events) reporter

/-- How lines run one after another, and what a reporter is told of each. -/
def linesEnding (fuel : Nat) (interpreter : Interpreter) (scope : FrameRef) :
    List String → Option (Status × Interpreter × List (List Event))
  | [] => some (.ok, interpreter, [])
  | line :: rest => do
    let (status, after, events) ← lineEnding fuel interpreter scope line
    if status = .runtimeError then return (status, after, [events])
    else
      let (status, last, told) ← linesEnding fuel after scope rest
      return (status, last, events :: told)

theorem runLines_eq [LawfulReporter ρ] (fuel : Nat) (session : Session ρ) (lines : List String) :
    session.runLines fuel lines = (linesEnding fuel session.interpreter session.scope lines).map
      fun (status, interpreter, told) => (status, { session with
        interpreter, reporter := Reporter.replayLines session.reporter told }) := by
  induction lines generalizing session with
  | nil => rfl
  | cons line rest ih =>
      have here := runLine_eq fuel session line
      unfold Session.runLines linesEnding
      revert here
      generalize session.runLine fuel line = ran
      generalize lineEnding fuel session.interpreter session.scope line = ending
      rintro rfl
      cases ending with
      | none => rfl
      | some result =>
          obtain ⟨status, after, events⟩ := result
          simp only [Option.map_some, Option.bind_eq_bind, Option.bind_some]
          by_cases failed : status = .runtimeError
          · rw [if_pos failed, if_pos failed]
            rfl
          · rw [if_neg failed, if_neg failed, ih]
            cases linesEnding fuel after session.scope rest <;> rfl

end Lines

/-! ### Events -/

/-- The same event, but for the line that a diagnostic names. -/
inductive Event.Alike : Event → Event → Prop where
  | printed (text : String) : Alike (.printed text) (.printed text)
  | reported {diagnostic diagnostic' : Diagnostic} (phase : diagnostic.phase = diagnostic'.phase)
      (location : diagnostic.location = diagnostic'.location)
      (message : diagnostic.message = diagnostic'.message) :
      Alike (.reported diagnostic) (.reported diagnostic')

/-- The same lines, and then events that are the same. -/
theorem Event.alike_printed (texts : List String) {events events' : List Event}
    (alike : List.Forall₂ Event.Alike events events') :
    List.Forall₂ Event.Alike (texts.map .printed ++ events) (texts.map .printed ++ events') := by
  induction texts with
  | nil => exact alike
  | cons text rest ih => exact .cons (.printed text) ih

theorem RuntimeError.Alike.event {lines : Nat → Nat → Prop} {error error' : RuntimeError}
    (errors : error.Alike lines error') :
    Event.Alike (.reported error.toDiagnostic) (.reported error'.toDiagnostic) :=
  .reported rfl rfl (congrArg Fault.message errors.fault)

/-- What a reporter is told of an outcome. -/
def Outcome.telling {α : Type} : Outcome α → Option (Status × List Event)
  | .done _ machine => some (.ok, machine.printed.toList.map .printed)
  | .failed error machine =>
    some (.runtimeError, machine.printed.toList.map .printed ++ [.reported error.toDiagnostic])
  | .outOfFuel => none

theorem Interpreter.ending_telling {α : Type} (interpreter : Interpreter) (action : Host → Exec α) :
    ((interpreter.ending action).map fun (status, _, events) => (status, events)) =
      (action interpreter.host interpreter.machine).telling := by
  unfold ending
  cases action interpreter.host interpreter.machine <;> rfl

theorem CleanText.noFaults {text : String} (clean : CleanText text) :
    sourceFaults text false = [] := by
  have none : (parse (scan text).tokens false).diagnostics = [] := by
    rw [← List.length_eq_zero_iff, Parser.parse_counts, clean.parses]
  rw [sourceFaults, clean.scans, none, List.append_nil]

/-! ### Side by side -/

open Link Interpreter

/-- The machine of a session and that of a whole run, which have come to the same line and hold the
same in paired frames. -/
structure Abreast (scope : FrameRef) (link : Link anyLines) (machine machine' : Machine) :
    Prop where
  stores : link.Stores machine.store machine'.store
  scope : link.frames scope scope
  idle : machine.callDepth = 0
  idle' : machine'.callDepth = 0
  silent : machine.printed = #[]
  clockReadings : machine.clockReadings = machine'.clockReadings

section Abreast

variable {host : Host} {scope : FrameRef} {link : Link anyLines} {machine machine' : Machine}

/-- Code that is alike has the same outcome on both sides. -/
theorem Abreast.outcomes (abreast : Abreast scope link machine machine')
    (parametric : ∀ function ∈ host.functions, function.Parametric anyLines)
    {program program' : List Stmt} (alike : List.Forall₂ (Stmt.Alike anyLines) program program')
    (fuel : Nat) :
    Outcomes (.at link machine machine') 0 link (fun _ _ _ => True)
      (runProgram host fuel program scope machine) (runProgram host fuel program' scope machine') :=
  mirrors_runProgram parametric _ 0 alike abreast.scope fuel machine machine'
    (.start abreast.stores abreast.idle abreast.idle' abreast.clockReadings)

/-- After a line that did not fail both sides are abreast again. -/
theorem Abreast.next {later : Link anyLines} {after after' : Machine}
    (abreast : Abreast scope link machine machine') (within : link.Within later)
    (machines : Machines (.at link machine machine') 0 later after after') :
    Abreast scope later { after with printed := #[] } after' :=
  ⟨machines.since.stores, within.frames abreast.scope, machines.callDepth, machines.callDepth', rfl,
    machines.clockReadings⟩

/-- What was printed since both sides were abreast. -/
theorem Abreast.printed {later : Link anyLines} {after after' : Machine}
    (abreast : Abreast scope link machine machine')
    (machines : Machines (.at link machine machine') 0 later after after') :
    after'.printed.toList = machine'.printed.toList ++ after.printed.toList := by
  obtain ⟨texts, printed, printed'⟩ := machines.printed
  have silent : (Beginning.at link machine machine').printed = [] := by
    rw [Beginning.at, abreast.silent]
  rw [printed', printed, silent]
  rfl

/-- How a line in which nothing is wrong runs in a session. -/
theorem lineEnding_clean {line : String} (clean : CleanText line) (idle : machine.callDepth = 0)
    (fuel : Nat) :
    lineEnding fuel ⟨host, machine⟩ scope line =
      (⟨host, machine⟩ : Interpreter).ending fun host =>
        runProgram host fuel (statementsOf line) scope := by
  have noFaults : sourceFaults line true = [] := by
    rw [sourceFaults, clean.atPrompt]
    exact clean.noFaults
  rw [lineEnding, if_pos noFaults, clean.atPrompt, ending, ending]
  simp only [executeIn_eq host fuel _ scope idle]
  rfl

/-- How lines run of which nothing is wrong with the first: the others follow unless that fails. -/
theorem linesEnding_cons {line : String} (clean : CleanText line) (idle : machine.callDepth = 0)
    (fuel : Nat) (rest : List String) :
    linesEnding fuel ⟨host, machine⟩ scope (line :: rest) =
      match runProgram host fuel (statementsOf line) scope machine with
      | .done _ after =>
        (linesEnding fuel ⟨host, { after with printed := #[] }⟩ scope rest).map
          fun (status, last, told) =>
          (status, last, after.printed.toList.map .printed :: told)
      | .failed error after => some (.runtimeError, ⟨host, { after with printed := #[] }⟩,
          [after.printed.toList.map .printed ++ [.reported error.toDiagnostic]])
      | .outOfFuel => none := by
  rw [linesEnding, lineEnding_clean clean idle, ending]
  cases runProgram host fuel (statementsOf line) scope machine with
  | done value after =>
      have goesOn : Status.ok ≠ .runtimeError := by decide
      simp only [Option.bind_eq_bind, Option.bind_some, if_neg goesOn]
      cases linesEnding fuel ⟨host, { after with printed := #[] }⟩ scope rest <;> rfl
  | failed error after => rfl
  | outOfFuel => rfl

end Abreast

/-- The rows that two rows consist of, if they are related element by element. -/
theorem forall₂_append_left {α β : Type} {related : α → β → Prop} {front rest : List α}
    {whole : List β} (same : List.Forall₂ related (front ++ rest) whole) :
    ∃ front' rest', whole = front' ++ rest' ∧ List.Forall₂ related front front' ∧
      List.Forall₂ related rest rest' :=
  ⟨_, _, (List.take_append_drop front.length whole).symm,
    (List.forall₂_take_append whole front rest same.flip).flip,
    (List.forall₂_drop_append whole front rest same.flip).flip⟩

section Runs

variable {host : Host} (parametric : ∀ function ∈ host.functions, function.Parametric anyLines)
  {scope : FrameRef}
include parametric

/-- What lines come to in a session, the whole comes to. -/
theorem whole_of_lines {lines : List String} (clean : ∀ line ∈ lines, CleanText line)
    {whole : List Stmt}
    (alike : List.Forall₂ (Stmt.Alike anyLines) (lines.flatMap statementsOf) whole)
    {link : Link anyLines} {machine machine' : Machine}
    (abreast : Abreast scope link machine machine') {fuel : Nat} {status : Status}
    {last : Interpreter} {told : List (List Event)}
    (ends : linesEnding fuel ⟨host, machine⟩ scope lines = some (status, last, told)) :
    ∃ outcome events, Ends (fun fuel => runProgram host fuel whole scope) machine' outcome ∧
      outcome.telling = some (status, machine'.printed.toList.map .printed ++ events) ∧
      List.Forall₂ Event.Alike told.flatten events := by
  induction lines generalizing whole link machine machine' told with
  | nil =>
      cases alike
      cases ends
      exact ⟨.done () machine', [], ends_nil machine', by simp [Outcome.telling], .nil⟩
  | cons line rest ih =>
      obtain ⟨here, others⟩ := List.forall_mem_cons.mp clean
      obtain ⟨front, tail, rfl, alikeFront, alikeRest⟩ := forall₂_append_left alike
      have outcomes := abreast.outcomes parametric alikeFront fuel
      have settles := @Steady.ends _ _ (steady_runProgram host front scope) fuel machine'
      rw [linesEnding_cons here abreast.idle] at ends
      revert outcomes ends settles
      generalize runProgram host fuel (statementsOf line) scope machine = outcome
      generalize runProgram host fuel front scope machine' = outcome'
      intro ends outcomes settles
      cases outcomes with
      | outOfFuel => cases ends
      | @failed _ error error' after after' _ machines errors =>
          cases ends
          refine ⟨.failed error' after',
            after.printed.toList.map .printed ++ [.reported error'.toDiagnostic],
            ends_append.mpr (settles (by simp)).bindFailed, ?_, ?_⟩
          · rw [Outcome.telling, abreast.printed machines, List.map_append, List.append_assoc]
          · rw [List.flatten_singleton]
            exact Event.alike_printed _ (.cons errors.event .nil)
      | @done later _ _ after after' within machines _ =>
          obtain ⟨⟨_, _, more⟩, endsRest, same⟩ := Option.map_eq_some_iff.mp ends
          cases same
          obtain ⟨outcome, events, endsWhole, tells, reports⟩ :=
            ih others alikeRest (abreast.next within machines) endsRest
          refine ⟨outcome, after.printed.toList.map .printed ++ events,
            ends_append.mpr ((settles (by simp)).bind endsWhole), ?_, ?_⟩
          · rw [tells, abreast.printed machines, List.map_append, List.append_assoc]
          · rw [List.flatten_cons]
            exact Event.alike_printed _ reports

/-- If the whole comes to an end, the lines do in a session. -/
theorem lines_of_whole {lines : List String} (clean : ∀ line ∈ lines, CleanText line)
    {whole : List Stmt}
    (alike : List.Forall₂ (Stmt.Alike anyLines) (lines.flatMap statementsOf) whole)
    {link : Link anyLines} {machine machine' : Machine}
    (abreast : Abreast scope link machine machine')
    (terminates : Terminates (fun fuel => runProgram host fuel whole scope) machine') :
    ∃ enough, ∀ fuel, enough ≤ fuel → linesEnding fuel ⟨host, machine⟩ scope lines ≠ none := by
  induction lines generalizing whole link machine machine' with
  | nil => exact ⟨0, fun _ _ => by simp [linesEnding]⟩
  | cons line rest ih =>
      obtain ⟨here, others⟩ := List.forall_mem_cons.mp clean
      obtain ⟨front, tail, rfl, alikeFront, alikeRest⟩ := forall₂_append_left alike
      obtain ⟨outcome, ended⟩ := terminates
      have inParts : Terminates (fun fuel => runProgram host fuel front scope >>= fun _ =>
          runProgram host fuel tail scope) machine' := ⟨outcome, ends_append.mp ended⟩
      obtain ⟨outcome', endsFront⟩ := inParts.first (steady_runProgram host front scope)
      obtain ⟨fuel, reached⟩ : ∃ fuel, runProgram host fuel front scope machine' = outcome' :=
        endsFront.2.imp fun enough all => all enough (Nat.le_refl _)
      have outcomes := abreast.outcomes parametric alikeFront fuel
      have settles :=
        @Steady.ends _ _ (steady_runProgram host (statementsOf line) scope) fuel machine
      rw [reached] at outcomes
      revert outcomes settles
      generalize runProgram host fuel (statementsOf line) scope machine = outcome
      intro outcomes settles
      cases outcomes with
      | outOfFuel => exact absurd rfl endsFront.1
      | @failed _ error _ after _ _ _ _ =>
          obtain ⟨-, enough, all⟩ := settles (by simp)
          refine ⟨enough, fun more le => ?_⟩
          have runs : runProgram host more (statementsOf line) scope machine =
              .failed error after := all more le
          rw [linesEnding_cons here abreast.idle, runs]
          simp
      | @done later _ _ after after' within machines _ =>
          obtain ⟨-, enough, all⟩ := settles (by simp)
          have restEnds : Terminates (fun fuel => runProgram host fuel tail scope) after' :=
            @Terminates.rest _ _ _ (fun fuel _ => runProgram host fuel tail scope)
              _ _ _ endsFront inParts
          obtain ⟨enoughRest, allRest⟩ :=
            ih others alikeRest (abreast.next within machines) restEnds
          refine ⟨max enough enoughRest, fun more le => ?_⟩
          have runs : runProgram host more (statementsOf line) scope machine = .done () after :=
            all more (by omega)
          rw [linesEnding_cons here abreast.idle, runs]
          simpa using allRest more (by omega)

end Runs

/-! ### New sessions -/

/-- The interpreter of a new session, in which its frame has been made. -/
def Session.opened (interpreter : Interpreter) : Interpreter :=
  { interpreter with machine := { interpreter.machine with
      store := (interpreter.machine.store.addChild globals).2 } }

section Fresh

variable (clock : Nat → Float)

/-- The machine of a new session and that of a run in a new interpreter begin as one. -/
theorem abreast_opened {interpreter : Interpreter}
    (fresh : interpreter = .build [] clock defaultMaxCallDepth) :
    Abreast interpreter.machine.store.nextRef
      (Store.view (Session.opened interpreter).machine.store
        (Session.opened interpreter).machine.store
        fun ref => ref.index < (Session.opened interpreter).machine.store.frames.size)
      (Session.opened interpreter).machine (Session.opened interpreter).machine := by
  have root : globals.index < interpreter.machine.store.frames.size := by
    rw [fresh]
    change 0 < (register Store.empty.addRoot.2 0 [HostFunction.clock]).frames.size
    decide
  have before : interpreter.machine.store.Sound := fresh ▸ sound_build [] clock defaultMaxCallDepth
  have sound : (Session.opened interpreter).machine.store.Sound :=
    before.addFrame (by rintro _ ⟨⟩; exact root)
  have anywhere (line : Nat) : anyLines line line := trivial
  have closed := Store.closed_all sound.toWellFormed
  refine ⟨Store.view_stores anywhere sound sound closed fun _ _ => rfl, ⟨rfl, ?_⟩, ?_, ?_, ?_, rfl⟩
  · simp [Session.opened, Store.addChild, Store.nextRef]
  all_goals
    rw [fresh]
    rfl

/-- How a text runs as a whole in which nothing is wrong. -/
theorem sourceEnding_clean {text : String} (clean : CleanText text) {interpreter : Interpreter}
    (fresh : interpreter = .build [] clock defaultMaxCallDepth) (fuel : Nat) :
    sourceEnding fuel clock text = (runProgram interpreter.host fuel (statementsOf text)
      interpreter.machine.store.nextRef (Session.opened interpreter).machine).telling := by
  have idle : (Session.opened interpreter).machine.callDepth = 0 := by
    rw [fresh]
    rfl
  rw [sourceEnding, if_pos clean.noFaults, ← fresh, ending_telling]
  exact congrArg Outcome.telling (executeIn_eq _ fuel _ _ idle)

theorem parametric_build {interpreter : Interpreter}
    (fresh : interpreter = .build [] clock defaultMaxCallDepth) :
    ∀ function ∈ interpreter.host.functions, function.Parametric anyLines := by
  rw [fresh]
  simp [build, HostFunction.parametric_clock]

section Endings

variable {lines : List String} (clean : ∀ line ∈ lines, CleanText line) {interpreter : Interpreter}
  (fresh : interpreter = .build [] clock defaultMaxCallDepth)
include clean fresh

/-- What a new session is told of the lines, a new interpreter is told of the whole. -/
theorem sourceEnding_of_lines {fuel : Nat} {status : Status} {last : Interpreter}
    {told : List (List Event)}
    (ends : linesEnding fuel (Session.opened interpreter) interpreter.machine.store.nextRef lines =
      some (status, last, told)) :
    ∃ enough events, sourceEnding enough clock (joined lines) = some (status, events) ∧
      List.Forall₂ Event.Alike told.flatten events := by
  obtain ⟨cleanWhole, alike⟩ := Parser.parse_joined clean
  have abreast := abreast_opened clock fresh
  obtain ⟨outcome, events, ⟨-, enough, all⟩, tells, reports⟩ :=
    whole_of_lines (parametric_build clock fresh) clean alike abreast ends
  refine ⟨enough, events, ?_, reports⟩
  rw [abreast.silent] at tells
  rw [sourceEnding_clean clock cleanWhole fresh]
  exact (congrArg Outcome.telling (all enough (Nat.le_refl _))).trans tells

/-- If a run of the whole comes to an end, so do the lines in a new session, and what is told is the
same. -/
theorem linesEnding_of_source {fuel : Nat} {status : Status} {events : List Event}
    (ends : sourceEnding fuel clock (joined lines) = some (status, events)) :
    ∃ enough last told,
      linesEnding enough (Session.opened interpreter) interpreter.machine.store.nextRef lines =
      some (status, last, told) ∧ List.Forall₂ Event.Alike told.flatten events := by
  obtain ⟨cleanWhole, alike⟩ := Parser.parse_joined clean
  have parametric := parametric_build clock fresh
  have abreast := abreast_opened clock fresh
  rw [sourceEnding_clean clock cleanWhole fresh] at ends
  have settles := @Steady.ends _ _ (steady_runProgram interpreter.host (statementsOf (joined lines))
    interpreter.machine.store.nextRef) fuel (Session.opened interpreter).machine
  revert settles ends
  generalize runProgram interpreter.host fuel _ _ _ = outcome
  intro ends settles
  have ended : outcome ≠ .outOfFuel := by
    rintro rfl
    cases ends
  obtain ⟨enough, all⟩ := lines_of_whole parametric clean alike abreast ⟨outcome, settles ended⟩
  obtain ⟨⟨status', last, told⟩, runs⟩ := Option.ne_none_iff_exists'.mp (all enough (Nat.le_refl _))
  obtain ⟨other, events', endsOther, tells, reports⟩ :=
    whole_of_lines parametric clean alike abreast runs
  obtain rfl := endsOther.unique (settles ended)
  rw [abreast.silent, ends] at tells
  cases tells
  exact ⟨enough, last, told, runs, reports⟩

end Endings

end Fresh

/-- What reporters were told of a run of a whole program and of one line by line is the same, but
for the lines that diagnostics name. -/
def SameReports {ρ : Type} [Reporter ρ] (before whole pieces : ρ) : Prop :=
  ∃ events told, whole = Reporter.replay before events ∧ pieces = Reporter.replayLines before told ∧
    List.Forall₂ Event.Alike told.flatten events

theorem Transcript.output_replay {transcript other : Transcript} {events events' : List Event}
    (same : transcript.output = other.output) (alike : List.Forall₂ Event.Alike events events') :
    (Reporter.replay transcript events).output = (Reporter.replay other events').output := by
  induction alike generalizing transcript other with
  | nil => exact same
  | cons first rest ih =>
      refine ih ?_
      cases first with
      | printed text => simp only [Reporter.tell, Reporter.print, same]
      | reported phase location message => exact same

theorem Transcript.output_replayLines {transcript other : Transcript} {told : List (List Event)}
    {events : List Event} (same : transcript.output = other.output)
    (alike : List.Forall₂ Event.Alike told.flatten events) :
    (Reporter.replayLines transcript told).output = (Reporter.replay other events).output := by
  induction told generalizing transcript other events with
  | nil =>
      cases alike
      exact same
  | cons here rest ih =>
      obtain ⟨front, tail, rfl, alikeFront, alikeRest⟩ := forall₂_append_left alike
      rw [Reporter.replay_append]
      have reset : (Reporter.reset transcript).output = other.output := same
      exact ih (output_replay reset alikeFront) alikeRest

/-- In transcripts the same reports are the same output. -/
theorem SameReports.output {before whole pieces : Transcript}
    (same : SameReports before whole pieces) :
    whole.output = pieces.output := by
  obtain ⟨events, told, rfl, rfl, alike⟩ := same
  exact (Transcript.output_replayLines rfl alike).symm

/-- **A program may be given line by line.** If nothing is wrong with some lines when each is taken
by itself, nothing is wrong with them when they are joined. Then a run of the joined text comes to
an end exactly if the lines do in a new session, up to the first that fails at run time; both have
the same status, and both print the same lines and report the same error, but for the line it
names. -/
theorem lines_as_whole (clock : Nat → Float) {lines : List String}
    (clean : ∀ line ∈ lines, CleanText line) :
    CleanText (joined lines) ∧
    ∀ (ρ : Type) [Reporter ρ] [LawfulReporter ρ] (reporter : ρ),
      Reporter.hadSourceError reporter = false →
      let session := Session.start (.build [] clock defaultMaxCallDepth) reporter
      (∀ fuel status whole, runSource fuel clock (joined lines) reporter = some (status, whole) →
        ∃ enough last, session.runLines enough lines = some (status, last) ∧
          SameReports reporter whole last.reporter) ∧
      ∀ fuel status last, session.runLines fuel lines = some (status, last) →
        ∃ enough whole, runSource enough clock (joined lines) reporter = some (status, whole) ∧
          SameReports reporter whole last.reporter := by
  refine ⟨(Parser.parse_joined clean).1, fun ρ _ _ reporter clear => ?_⟩
  intro session
  obtain ⟨interpreter, fresh⟩ : ∃ interpreter,
      interpreter = Interpreter.build [] clock defaultMaxCallDepth :=
    ⟨_, rfl⟩
  have same :
      session = ⟨Session.opened interpreter, interpreter.machine.store.nextRef, reporter⟩ := by
    rw [fresh]
    rfl
  refine ⟨fun fuel status whole ran => ?_, fun fuel status last ran => ?_⟩
  · rw [runSource_eq fuel clock (joined lines) clear, Option.map_eq_some_iff] at ran
    obtain ⟨⟨_, events⟩, ends, told⟩ := ran
    cases told
    obtain ⟨enough, last, told, endsLines, reports⟩ := linesEnding_of_source clock clean fresh ends
    refine ⟨enough, ⟨last, session.scope, Reporter.replayLines reporter told⟩, ?_, events, told,
      rfl, rfl, reports⟩
    rw [runLines_eq, same, endsLines]
    rfl
  · rw [runLines_eq, same, Option.map_eq_some_iff] at ran
    obtain ⟨⟨_, last, told⟩, ends, same⟩ := ran
    cases same
    obtain ⟨enough, events, endsSource, reports⟩ := sourceEnding_of_lines clock clean fresh ends
    refine ⟨enough, Reporter.replay reporter events, ?_, events, told, rfl, rfl, reports⟩
    rw [runSource_eq enough clock (joined lines) clear, endsSource]
    rfl

/-- The third of four lines fails, so the last is not run. -/
theorem lines_as_whole_failing :
    let lines := ["fun f() \x7b print \"a\"; \x7d", "f(); // and on", "nil();", "print \"b\";"]
    (∀ line ∈ lines, CleanText line) ∧ CleanText (joined lines) ∧ ∃ enough last,
      (Session.start (.build [] (fun _ => 0) defaultMaxCallDepth) Transcript.empty).runLines
        enough lines =
        some (.runtimeError, last) ∧ last.reporter.output = "a\n" := by
  intro lines
  have scans : ∀ line ∈ lines, (scan line).diagnostics = [] := by decide +kernel
  have parses : ∀ line ∈ lines, (parse (scan line).tokens false).errorCount = 0 := by decide +kernel
  have clean (line) (member : line ∈ lines) : CleanText line :=
    ⟨scans line member, parses line member⟩
  obtain ⟨cleanWhole, runs⟩ := lines_as_whole (fun _ => 0) clean
  obtain ⟨whole, ran, output⟩ : ∃ whole,
      runSource 100 (fun _ => 0) (joined lines) Transcript.empty =
      some (.runtimeError, whole) ∧ whole.output = "a\n" := by
    have result : (runSource 100 (fun _ => 0) (joined lines) Transcript.empty).map
        (fun (status, whole) => (status, whole.output)) = some (.runtimeError, "a\n") := by
      decide +kernel
    obtain ⟨⟨status, whole⟩, ran, same⟩ := Option.map_eq_some_iff.mp result
    obtain ⟨rfl, output⟩ := Prod.mk.inj same
    exact ⟨whole, ran, output⟩
  obtain ⟨enough, last, runsLines, reports⟩ :=
    (runs Transcript Transcript.empty rfl).1 100 _ whole ran
  exact ⟨clean, cleanWhole, enough, last, runsLines, reports.output ▸ output⟩

end Lox
