import Lox.Proofs.Interpreter.Course
import Lox.Proofs.Interpreter.Limits

/-!
Calls in progress.

A machine counts the calls of closures that are in progress. However code ends, the count is what it
was when the code began. A call runs the body of its closure with one more in progress, and takes
that away again (`callValue_entered`); so in the course of a run the count has grown by the number
of calls that the run is inside of (`Course.continues`). A call is refused if the count has come to
the limit, and for no other reason; to refuse it is to fail before anything is done. Functions of
the host neither count nor are refused.

A program begins with a count of nothing, whatever the machine has gone through before, so each may
nest as many calls as the limit says.
-/

namespace Lox.Interpreter

open Exec

/-- A call is refused for the limit: it fails at once, and leaves the machine as it is. -/
def Refused (host : Host) (callee : Value) (arguments : List Value) (line : Nat)
    (machine : Machine) : Prop :=
  Ends (fun fuel => callValue host fuel callee arguments line) machine
    (.failed ⟨.stackOverflow host.maxCallDepth, line⟩ machine)

variable {host : Host} {closure : Closure} {arguments : List Value} {line : Nat} {machine : Machine}

/-- Where one more call is in progress, to take one away is to go back to the count from before
it. -/
theorem over_eq {α : Type} {depth : Nat} {outcome : Outcome α}
    (inside : outcome.AllMachines fun after => after.callDepth = depth + 1) :
    Outcome.mapMachine (fun after => { after with callDepth := after.callDepth - 1 }) outcome =
      Outcome.mapMachine (fun after => { after with callDepth := depth }) outcome := by
  cases outcome with
  | outOfFuel => rfl
  | done value after | failed error after =>
      have counted : after.callDepth = depth + 1 := inside
      simp only [Outcome.mapMachine, counted, Nat.add_sub_cancel]

/-- Below the limit, an action is nested with one more call in progress, and that call is over when
it ends. -/
theorem nested_of_room {α : Type} {action : Exec α} (continues : action.Continues) {limit : Nat}
    (room : machine.callDepth < limit) : nested limit line action machine =
      Outcome.mapMachine (fun after => { after with callDepth := machine.callDepth })
        (action { machine with callDepth := machine.callDepth + 1 }) := by
  rw [nested, if_neg (Nat.not_le_of_lt room)]
  exact over_eq ((continues { machine with callDepth := machine.callDepth + 1 }).imp
    fun after more => more.callDepth)

theorem nested_of_full {α : Type} (action : Exec α) {limit : Nat}
    (full : limit ≤ machine.callDepth) :
    nested limit line action machine = .failed ⟨.stackOverflow limit, line⟩ machine := by
  rw [nested, if_pos full]

theorem continues_callResult (flow : Flow) : (callResult flow).Continues :=
  (Continues.congruence ⟨#[], fun _ => 0, 0⟩).callResult flow

/-- Entering a closure adds a frame to those there are. -/
theorem enter_adds (closure : Closure) (arguments : List Value) (machine : Machine) :
    (enter closure arguments machine).AllMachines fun after =>
      machine.store.frames.size < after.store.frames.size := by
  have parts := Continues.congruence ⟨#[], fun _ => 0, 0⟩
  have rest : (bindParameters machine.store.nextRef closure.decl.parameters arguments >>= fun _ =>
      pure machine.store.nextRef).Continues := .bind (parts.bindParameters _ _ _) fun _ =>
        parts.pure _
  have all := rest { machine with store := (machine.store.addChild closure.scope).2 }
  refine all.imp fun after more => Nat.lt_of_lt_of_le ?_ more.size
  simp [Store.addChild]

theorem runClosure_adds (fuel : Nat) (machine : Machine) :
    (runClosure host fuel closure arguments machine).AllMachines fun after =>
      machine.store.frames.size < after.store.frames.size := by
  cases fuel with
  | zero => trivial
  | succ fuel =>
      rw [runClosure_eq]
      apply allMachines_bind (enter_adds closure arguments machine)
      intro ref after _ entered
      have body := (continues_runs host fuel).executeAll closure.decl.body ref after
      exact body.imp fun last more => Nat.lt_of_lt_of_le entered more.size

/-- A call that is not refused enters the closure, and that shows in the machine. -/
theorem callValue_adds (fits : arguments.length = closure.decl.arity)
    (room : machine.callDepth < host.maxCallDepth) (fuel : Nat) :
    (callValue host fuel (.function (.closure closure)) arguments line machine).AllMachines
      fun after =>
      machine.store.frames.size < after.store.frames.size := by
  cases fuel with
  | zero => trivial
  | succ fuel =>
      rw [callValue_closure fits]
      have entered :
          (nested host.maxCallDepth line (runClosure host fuel closure arguments)
            machine).AllMachines
          fun after => machine.store.frames.size < after.store.frames.size := by
        apply allMachines_nested line fun full => absurd room (Nat.not_lt_of_le full)
        intro _
        exact runClosure_adds fuel _
      apply allMachines_bind entered
      intro flow after _ entered
      exact (continues_callResult flow after).imp fun last more =>
        Nat.lt_of_lt_of_le entered more.size

/-- A call that fits fails at the limit. Below it, what the call comes to is what the body of the
closure comes to with one more call in progress, and that call is over then. -/
theorem callValue_entered (within : machine.callDepth ≤ host.maxCallDepth)
    (fits : arguments.length = closure.decl.arity) (fuel : Nat) :
    callValue host (fuel + 1) (.function (.closure closure)) arguments line machine =
      if machine.callDepth = host.maxCallDepth then
        .failed ⟨.stackOverflow host.maxCallDepth, line⟩ machine
      else Outcome.mapMachine (fun after => { after with callDepth := machine.callDepth })
        ((runClosure host fuel closure arguments >>= callResult)
          { machine with callDepth := machine.callDepth + 1 }) := by
  rw [callValue_closure fits]
  by_cases full : machine.callDepth = host.maxCallDepth
  · rw [if_pos full]
    exact bind_failed (nested_of_full _ (Nat.le_of_eq full.symm))
  · have room : machine.callDepth < host.maxCallDepth := Nat.lt_of_le_of_ne within full
    have entered :=
      @nested_of_room line machine _ _
        ((continues_runs host fuel).runClosure closure arguments) _ room
    rw [if_neg full]
    cases run : runClosure host fuel closure arguments
      { machine with callDepth := machine.callDepth + 1 } with
    | outOfFuel =>
        rw [run] at entered
        rw [bind_outOfFuel entered, bind_outOfFuel run]
        rfl
    | failed error after =>
        rw [run] at entered
        rw [bind_failed entered, bind_failed run]
        rfl
    | done flow after =>
        rw [run] at entered
        rw [bind_done entered, bind_done run]
        -- What a call gives back by how the body ends has nothing to do with the machine.
        cases flow <;> rfl

/-- A call that fits is refused exactly if the limit has been reached. -/
theorem refused_iff (within : machine.callDepth ≤ host.maxCallDepth)
    (fits : arguments.length = closure.decl.arity) :
    Refused host (.function (.closure closure)) arguments line machine ↔
      machine.callDepth = host.maxCallDepth := by
  constructor
  · rintro ⟨-, enough, all⟩
    by_contra apart
    have adds := @callValue_adds host closure arguments line machine fits (by omega) enough
    have refused : callValue host enough (.function (.closure closure)) arguments line machine =
      .failed ⟨.stackOverflow host.maxCallDepth, line⟩ machine := all enough (Nat.le_refl _)
    rw [refused] at adds
    exact Nat.lt_irrefl _ adds
  · intro full
    have refused (fuel : Nat) :
        callValue host (fuel + 1) (.function (.closure closure)) arguments line machine =
        .failed ⟨.stackOverflow host.maxCallDepth, line⟩ machine := by
      rw [callValue_entered within fits, if_pos full]
    exact Ends.step.mp ⟨by simp, 0, fun fuel _ => refused fuel⟩

/-- What a function of the host does depends neither on the limit nor on the calls in progress. -/
theorem callValue_native (limit depth fuel : Nat) (native : Native) :
    callValue (host.withLimit limit) fuel (.function (.native native)) arguments line
        { machine with callDepth := depth } =
      Outcome.mapMachine (fun after => { after with callDepth := depth })
        (callValue host fuel (.function (.native native)) arguments line machine) := by
  cases fuel with
  | zero => rfl
  | succ fuel =>
      simp only [callValue]
      by_cases misfit : arguments.length ≠ (Function.native native).arity
      · rw [if_pos misfit, if_pos misfit]
        rfl
      · simp only [if_neg misfit, callNative, Host.withLimit]
        cases host.functions[native.id]? with
        | none => rfl
        | some function =>
            simp only
            cases function.action with
            | readClock => rfl
            | compute result =>
                simp only
                cases result arguments with
                | ok value => rfl
                | error fault => rfl

/-- A program leaves no calls in progress behind. -/
theorem executeIn_idle (fuel : Nat) (program : List Stmt) (ref : FrameRef) :
    (executeIn host fuel program ref machine).AllMachines fun after => after.callDepth = 0 := by
  have continues : (runProgram host fuel program ref).Continues :=
    .bind ((continues_runs host fuel).executeAll program ref) continues_finish
  exact (continues { machine with callDepth := 0 }).imp fun after more => more.callDepth

/-- How the calls in progress are counted from a machine on. -/
structure CallsCounted (host : Host) (machine : Machine) : Prop where
  /-- However the evaluation of an expression ends, as many calls are in progress as before it. -/
  evaluated : ∀ fuel expr ref, (evaluate host fuel expr ref machine).AllMachines fun after =>
    after.callDepth = machine.callDepth
  /-- However the execution of a statement ends, as many calls are in progress as before it. -/
  executed : ∀ fuel stmt ref, (execute host fuel stmt ref machine).AllMachines fun after =>
    after.callDepth = machine.callDepth
  /-- Whatever is run in the course of a run has as many calls in progress as there were at its
  beginning and have been entered since, and never more than the limit allows. -/
  counted : ∀ calls task next after, Course host calls task machine next after →
    after.callDepth = machine.callDepth + calls ∧ after.callDepth ≤ host.maxCallDepth
  /-- When the body of a closure is run that something else asked for, at least one call is in
  progress. -/
  entered : ∀ calls task closure arguments after, task.calls = 0 →
    Course host calls task machine (.runClosure closure arguments) after → 1 ≤ after.callDepth
  /-- A call fails at the limit. Below it, it comes to what the body of the closure comes to with
  one more call in progress, and then that call is over. -/
  called : ∀ closure arguments line fuel, arguments.length = closure.decl.arity →
    callValue host (fuel + 1) (.function (.closure closure)) arguments line machine =
      if machine.callDepth = host.maxCallDepth then
        .failed ⟨.stackOverflow host.maxCallDepth, line⟩ machine
      else Outcome.mapMachine (fun after => { after with callDepth := machine.callDepth })
        ((runClosure host fuel closure arguments >>= callResult)
          { machine with callDepth := machine.callDepth + 1 })
  /-- A call that gives as many arguments as the closure takes is refused exactly if the limit is
  reached. -/
  refused : ∀ closure arguments line, arguments.length = closure.decl.arity →
    (Refused host (.function (.closure closure)) arguments line machine ↔
      machine.callDepth = host.maxCallDepth)
  /-- A call of a function of the host does the same however many calls are in progress and whatever
  the limit. -/
  natives : ∀ native arguments line fuel limit depth,
    callValue (host.withLimit limit) fuel (.function (.native native)) arguments line
        { machine with callDepth := depth } =
      Outcome.mapMachine (fun after => { after with callDepth := depth })
        (callValue host fuel (.function (.native native)) arguments line machine)
  /-- A program begins with no calls in progress, however many there were before it. -/
  begun : ∀ program ref fuel depth,
    executeIn host fuel program ref { machine with callDepth := depth } =
    runProgram host fuel program ref { machine with callDepth := 0 }
  /-- However a program ends, no calls are in progress then. -/
  idle : ∀ program ref fuel, (executeIn host fuel program ref machine).AllMachines fun after =>
    after.callDepth = 0
  /-- In the course of a program a call is refused exactly if the program is inside of as many calls
  as the limit allows. -/
  nesting : ∀ program ref calls closure arguments line after,
    Course host calls (.executeAll program ref)
      { machine with callDepth := 0 }
      (.callValue (.function (.closure closure)) arguments line) after →
    arguments.length = closure.decl.arity →
      (Refused host (.function (.closure closure)) arguments line after ↔ calls = host.maxCallDepth)

/-- **Calls in progress are counted exactly.** What a task asks to be run, and in which machine, is
what the evaluator spends its fuel on, and nothing else is. From a machine with no more calls in
progress than the limit allows, the calls are counted as `CallsCounted` says: along the requests of
a run, at each call, and at the beginning and the end of expressions, statements and programs. -/
theorem calls_counted (host : Host) :
    (∀ fuel task machine, Starves host (fuel + 1) machine task ↔
      AsksTooMuch host fuel task machine) ∧
      ∀ machine : Machine, machine.callDepth ≤ host.maxCallDepth → CallsCounted host machine := by
  refine ⟨fun fuel task machine => starves_iff, fun machine within => ?_⟩
  have depth {calls : Nat} {task next : Task} {after : Machine}
      (course : Course host calls task machine next after) :
        after.callDepth = machine.callDepth + calls :=
    course.continues.callDepth
  exact {
    evaluated := fun fuel expr ref => ((continues_runs host fuel).evaluate expr ref machine).imp
      fun _ more => more.callDepth
    executed := fun fuel stmt ref => ((continues_runs host fuel).execute stmt ref machine).imp
      fun _ more => more.callDepth
    counted := fun calls task next after course => ⟨depth course, course.within_limit within⟩
    entered := by
      intro calls task closure arguments after apart course
      have entered : 1 ≤ calls + task.calls := course.entered
      have counted := depth course
      omega
    called := fun closure arguments line fuel fits => callValue_entered within fits fuel
    refused := fun closure arguments line fits => refused_iff within fits
    natives :=
      fun native arguments line fuel limit depth => callValue_native limit depth fuel native
    begun := fun program ref fuel depth => rfl
    idle := fun program ref fuel => executeIn_idle fuel program ref
    nesting := by
      intro program ref calls closure arguments line after course fits
      have counted : after.callDepth = 0 + calls := course.continues.callDepth
      rw [refused_iff (course.within_limit (Nat.zero_le _)) fits, counted, Nat.zero_add] }

/-- A function that calls itself. -/
def endless : FunctionDecl :=
  ⟨⟨"endless", 1⟩, [], [.expression (.call (.variable ⟨"endless", 1⟩) [] 1)]⟩

/-- The first call is let through and the second, which is made in its course, is refused. -/
theorem calls_counted_endless :
    let host : Host := ⟨#[.clock], fun _ => 0, 1⟩
    let closure : Closure := ⟨0, endless, globals⟩
    let machine : Machine :=
      ⟨Store.empty.addRoot.2.define globals "endless"
        (some (.function (.closure closure))), 0, #[], 0⟩
    ∃ calls after, Course host calls (.executeAll endless.body globals) machine
        (.callValue (.function (.closure closure)) [] 1) after ∧
      machine.callDepth ≤ host.maxCallDepth ∧
        ¬ Refused host (.function (.closure closure)) [] 1 machine ∧
      after.callDepth = 1 ∧ Refused host (.function (.closure closure)) [] 1 after := by
  intro host closure machine
  let inside : Machine :=
    { machine with store := (machine.store.addChild globals).2, callDepth := 1 }
  -- The name of the function is found from both frames, and there are no arguments to evaluate.
  have found : evaluate host 1 (.variable ⟨"endless", 1⟩) globals machine =
    .done (.function (.closure closure)) machine := rfl
  have foundInside : evaluate host 1 (.variable ⟨"endless", 1⟩) ⟨1⟩ inside =
    .done (.function (.closure closure)) inside := rfl
  have none (ref : FrameRef) (machine : Machine) :
      evaluateAll host 1 [] ref machine = .done [] machine := rfl
  have entered : enter closure [] { machine with callDepth := 1 } = .done ⟨1⟩ inside := rfl
  have second : Course host 0 (.executeAll endless.body ⟨1⟩) inside
      (.callValue (.function (.closure closure)) [] 1) inside :=
    .step .firstStmt <| .step .expression <| .step (.call foundInside (none _ inside)) .here
  have first : Course host 1 (.executeAll endless.body globals) machine
      (.callValue (.function (.closure closure)) [] 1) inside :=
    .step .firstStmt <| .step .expression <| .step (.call found (none _ machine)) <|
      .step (.closure rfl (by decide)) <| .step (.body entered) second
  have counted := (calls_counted host).2 machine (by decide)
  refine ⟨1, inside, first, by decide, ?_, (counted.counted _ _ _ _ first).1, ?_⟩
  · rw [counted.refused closure [] 1 rfl]
    decide
  · exact (counted.nesting endless.body globals 1 closure [] 1 inside first rfl).mpr rfl

end Lox.Interpreter
