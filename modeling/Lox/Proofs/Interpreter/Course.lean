import Lox.Proofs.Interpreter.Congruence

/-!
The course of a run.

Running a piece of code means running others: a statement has the expressions in it evaluated, a
block has its statements executed, a call has the body of a closure executed. `Asks` says what a run
asks for and in which machine that begins; what had to be done before has ended by then. A `Course`
leads through such requests from a run to anything that is run in its course, whether the whole ever
ends or not. It counts the bodies of closures that it enters, which are the calls in progress.

Nothing is left out and nothing is made up: with some fuel a task comes to no end exactly if it asks
for one that comes to no end with one less (`starves_iff`). So the requests, and the machines in
which they begin, are those of the evaluator.
-/

namespace Lox.Interpreter

open Exec

/-- Something that the evaluator is asked to run. -/
inductive Task where
  | evaluate (expr : Expr) (ref : FrameRef)
  | evaluateAll (exprs : List Expr) (ref : FrameRef)
  | callValue (callee : Value) (arguments : List Value) (line : Nat)
  | runClosure (closure : Closure) (arguments : List Value)
  | execute (stmt : Stmt) (ref : FrameRef)
  | executeAll (body : List Stmt) (ref : FrameRef)
  | repeatWhile (condition : Expr) (body : Stmt) (ref : FrameRef)

/-- How many calls of closures begin with a task. -/
def Task.calls : Task → Nat
  | .runClosure _ _ => 1
  | _ => 0

/-- Make the frame that the body of a closure is executed in. -/
def enter (closure : Closure) (arguments : List Value) : Exec FrameRef := do
  let ref ← newChild closure.scope
  bindParameters ref closure.decl.parameters arguments
  return ref

theorem runClosure_eq (host : Host) (fuel : Nat) (closure : Closure) (arguments : List Value) :
    runClosure host (fuel + 1) closure arguments =
      enter closure arguments >>= executeAll host fuel closure.decl.body := by
  rw [runClosure, enter, Exec.bind_assoc]
  congr 1
  funext ref
  rw [Exec.bind_assoc]
  rfl

theorem callValue_closure {host : Host} {closure : Closure} {arguments : List Value}
    (fits : arguments.length = closure.decl.arity) (line fuel : Nat) :
    callValue host (fuel + 1) (.function (.closure closure)) arguments line =
      nested host.maxCallDepth line (runClosure host fuel closure arguments) >>= callResult := by
  have same : ¬ arguments.length ≠ (Function.closure closure).arity := fun other => other fits
  simp only [callValue, if_neg same]

/-- What a task asks to be run, and in which machine. -/
inductive Asks (host : Host) : Task → Machine → Task → Machine → Prop where
  | inner {inner ref machine} :
      Asks host (.evaluate (.group inner) ref) machine (.evaluate inner ref) machine
  | operand {op line operand ref machine} :
      Asks host (.evaluate (.unary op line operand) ref) machine (.evaluate operand ref) machine
  | left {op line left right ref machine} :
      Asks host (.evaluate (.binary op line left right) ref) machine (.evaluate left ref) machine
  | right {op line left right ref machine fuel first after}
      (before : evaluate host fuel left ref machine = .done first after) :
      Asks host (.evaluate (.binary op line left right) ref) machine (.evaluate right ref) after
  | deciding {op left right ref machine} :
      Asks host (.evaluate (.logical op left right) ref) machine (.evaluate left ref) machine
  | undecided {op left right ref machine fuel first after}
      (before : evaluate host fuel left ref machine = .done first after)
      (goesOn : ¬ decides op first) :
      Asks host (.evaluate (.logical op left right) ref) machine (.evaluate right ref) after
  | assigned {name value ref machine} :
      Asks host (.evaluate (.assign name value) ref) machine (.evaluate value ref) machine
  | callee {callee arguments line ref machine} :
      Asks host (.evaluate (.call callee arguments line) ref) machine (.evaluate callee ref) machine
  | arguments {callee arguments line ref machine fuel function after}
      (before : evaluate host fuel callee ref machine = .done function after) :
      Asks host (.evaluate (.call callee arguments line) ref) machine
        (.evaluateAll arguments ref) after
  | call {callee arguments line ref machine fuel function middle values after}
      (before : evaluate host fuel callee ref machine = .done function middle)
      (given : evaluateAll host fuel arguments ref middle = .done values after) :
      Asks host (.evaluate (.call callee arguments line) ref) machine
        (.callValue function values line) after
  | firstExpr {expr rest ref machine} :
      Asks host (.evaluateAll (expr :: rest) ref) machine (.evaluate expr ref) machine
  | otherExprs {expr rest ref machine fuel value after}
      (before : evaluate host fuel expr ref machine = .done value after) :
      Asks host (.evaluateAll (expr :: rest) ref) machine (.evaluateAll rest ref) after
  | closure {closure arguments line machine} (fits : arguments.length = closure.decl.arity)
      (room : machine.callDepth < host.maxCallDepth) :
      Asks host (.callValue (.function (.closure closure)) arguments line) machine
        (.runClosure closure arguments) { machine with callDepth := machine.callDepth + 1 }
  | body {closure arguments machine ref after}
      (entered : enter closure arguments machine = .done ref after) :
      Asks host (.runClosure closure arguments) machine (.executeAll closure.decl.body ref) after
  | expression {value ref machine} :
      Asks host (.execute (.expression value) ref) machine (.evaluate value ref) machine
  | printed {value ref machine} :
      Asks host (.execute (.print value) ref) machine (.evaluate value ref) machine
  | defined {name first ref machine} :
      Asks host (.execute (.define name (some first)) ref) machine (.evaluate first ref) machine
  | block {body ref machine} :
      Asks host (.execute (.block body) ref) machine (.executeAll body machine.store.nextRef)
        { machine with store := (machine.store.addChild ref).2 }
  | condition {condition thenBranch elseBranch ref machine} :
      Asks host (.execute (.conditional condition thenBranch elseBranch) ref) machine
        (.evaluate condition ref) machine
  | thenBranch {condition thenBranch elseBranch ref machine fuel value after}
      (before : evaluate host fuel condition ref machine = .done value after)
      (holds : value.isTruthy) :
      Asks host (.execute (.conditional condition thenBranch elseBranch) ref) machine
        (.execute thenBranch ref) after
  | elseBranch {condition thenBranch elseBranch ref machine fuel value after}
      (before : evaluate host fuel condition ref machine = .done value after)
      (fails : ¬ value.isTruthy) :
      Asks host (.execute (.conditional condition thenBranch (some elseBranch)) ref) machine
        (.execute elseBranch ref) after
  | loop {condition body ref machine} :
      Asks host (.execute (.loop condition body) ref) machine
        (.repeatWhile condition body ref) machine
  | labelled {label body ref machine} :
      Asks host (.execute (.labelled label body) ref) machine (.execute body ref) machine
  | continuePoint {label body ref machine} :
      Asks host (.execute (.continuePoint label body) ref) machine (.execute body ref) machine
  | returned {line value ref machine} :
      Asks host (.execute (.returning line value) ref) machine (.evaluate value ref) machine
  | firstStmt {stmt rest ref machine} :
      Asks host (.executeAll (stmt :: rest) ref) machine (.execute stmt ref) machine
  | otherStmts {stmt rest ref machine fuel after}
      (before : execute host fuel stmt ref machine = .done .normal after) :
      Asks host (.executeAll (stmt :: rest) ref) machine (.executeAll rest ref) after
  | loopCondition {condition body ref machine} :
      Asks host (.repeatWhile condition body ref) machine (.evaluate condition ref) machine
  | loopBody {condition body ref machine fuel value after}
      (before : evaluate host fuel condition ref machine = .done value after)
      (holds : value.isTruthy) :
      Asks host (.repeatWhile condition body ref) machine (.execute body ref) after
  | nextRound {condition body ref machine fuel value middle after}
      (before : evaluate host fuel condition ref machine = .done value middle)
      (holds : value.isTruthy)
      (round : execute host fuel body ref middle = .done .normal after) :
      Asks host (.repeatWhile condition body ref) machine (.repeatWhile condition body ref) after

/-- What is run in the course of a task and in which machine, with so many calls of closures in
between. -/
inductive Course (host : Host) : (calls : Nat) → Task → Machine → Task → Machine → Prop where
  | here {task machine} : Course host 0 task machine task machine
  | step {calls task machine next middle last after} (asks : Asks host task machine next middle)
      (rest : Course host calls next middle last after) :
      Course host (next.calls + calls) task machine last after

/-! ### Machines in the course of a run -/

theorem continues_enter (closure : Closure) (arguments : List Value) :
    (enter closure arguments).Continues := by
  -- Entering a closure does not depend on the host.
  have parts := Continues.congruence ⟨#[], fun _ => 0, 0⟩
  refine .bind (parts.newChild closure.scope) fun ref => ?_
  exact .bind (parts.bindParameters ref _ arguments) fun _ => parts.pure ref

theorem continues_of_done {α : Type} {action : Exec α} {machine after : Machine} {value : α}
    (continues : action.Continues) (run : action machine = .done value after) :
    machine.Continues after := by
  have all := continues machine
  rw [run] at all
  exact all

variable {host : Host} {task next : Task} {before after : Machine} {calls : Nat}

/-- What is asked for begins in a machine that goes on from that of the task, with one more call in
progress if a closure is entered. -/
theorem Asks.continues (asks : Asks host task before next after) :
    Machine.Continues { before with callDepth := before.callDepth + next.calls } after := by
  have runs (fuel : Nat) := continues_runs host fuel
  cases asks with
  | right done | undecided done _ | arguments done | otherExprs done | thenBranch done _
  | elseBranch done _ | loopBody done _ => exact continues_of_done ((runs _).evaluate _ _) done
  | otherStmts done => exact continues_of_done ((runs _).execute _ _) done
  | call done given =>
      have first := continues_of_done ((runs _).evaluate _ _) done
      exact first.trans (continues_of_done ((runs _).evaluateAll _ _) given)
  | nextRound done _ round =>
      have first := continues_of_done ((runs _).evaluate _ _) done
      exact first.trans (continues_of_done ((runs _).execute _ _) round)
  | body entered => exact continues_of_done (continues_enter _ _) entered
  | block => exact ⟨rfl, List.prefix_rfl, by simp [Store.addChild]⟩
  | _ => exact .refl _

theorem Course.continues (course : Course host calls task before next after) :
    Machine.Continues { before with callDepth := before.callDepth + calls } after := by
  induction course with
  | here => exact .refl _
  | @step calls task machine next middle last after asks rest ih =>
      have begun := asks.continues
      refine ⟨?_, begun.printed.trans ih.printed, Nat.le_trans begun.size ih.size⟩
      rw [ih.callDepth, begun.callDepth, Nat.add_assoc]

/-- Whoever gets to the body of a closure has entered it, unless that is where it began. -/
theorem Course.entered (course : Course host calls task before next after) :
    next.calls ≤ calls + task.calls := by
  induction course with
  | here => exact Nat.le_add_left _ _
  | step asks rest ih => omega

/-- No more calls are in progress than the limit allows. -/
theorem Course.within_limit (course : Course host calls task before next after)
    (within : before.callDepth ≤ host.maxCallDepth) : after.callDepth ≤ host.maxCallDepth := by
  induction course with
  | here => exact within
  | @step calls task machine next middle last after asks rest ih =>
      apply ih
      have begun := asks.continues.callDepth
      cases asks with
      | closure fits room => exact room
      | _ => exact begun ▸ within

/-! ### What fuel is spent on -/

/-- A task comes to no end with so much fuel. -/
def Starves (host : Host) (fuel : Nat) (machine : Machine) : Task → Prop
  | .evaluate expr ref => evaluate host fuel expr ref machine = .outOfFuel
  | .evaluateAll exprs ref => evaluateAll host fuel exprs ref machine = .outOfFuel
  | .callValue callee arguments line =>
      callValue host fuel callee arguments line machine = .outOfFuel
  | .runClosure closure arguments => runClosure host fuel closure arguments machine = .outOfFuel
  | .execute stmt ref => execute host fuel stmt ref machine = .outOfFuel
  | .executeAll body ref => executeAll host fuel body ref machine = .outOfFuel
  | .repeatWhile condition body ref => repeatWhile host fuel condition body ref machine = .outOfFuel

/-- A task asks for one that comes to no end with so much fuel. -/
def AsksTooMuch (host : Host) (fuel : Nat) (task : Task) (machine : Machine) : Prop :=
  ∃ next middle, Asks host task machine next middle ∧ Starves host fuel middle next

section Starving

variable {fuel : Nat} {machine : Machine}

/-- If two actions in a row come to no end, the first does not, or the second does not after it. -/
theorem bind_starves {α β : Type} {action : Exec α} {rest : α → Exec β}
    (starves : (action >>= rest) machine = .outOfFuel) : action machine = .outOfFuel ∨
      ∃ value after, action machine = .done value after ∧ rest value after = .outOfFuel := by
  cases run : action machine with
  | done value after =>
      rw [bind_done run] at starves
      exact .inr ⟨value, after, rfl, starves⟩
  | failed error after =>
      rw [bind_failed run] at starves
      cases starves
  | outOfFuel => exact .inl rfl

theorem ofExcept_ends (line : Nat) (result : Except Fault Value) :
    ofExcept line result machine ≠ .outOfFuel := by
  intro starves
  cases result <;> cases starves

theorem assign_ends (ref : FrameRef) (name : Name) (value : Value) :
    assign ref name value machine ≠ .outOfFuel := by
  intro starves
  rw [assign] at starves
  split at starves <;> cases starves

theorem callNative_ends (native : Native) (arguments : List Value) (line : Nat) :
    callNative host native arguments line machine ≠ .outOfFuel := by
  rw [callNative]
  intro starves
  cases function : host.functions[native.id]? with
  | none =>
      rw [function] at starves
      cases starves
  | some given =>
      rw [function] at starves
      cases action : given.action with
      | readClock =>
          simp only [action] at starves
          cases starves
      | compute result =>
          simp only [action] at starves
          exact ofExcept_ends line (result arguments) starves

theorem bindParameters_ends (ref : FrameRef) (parameters : List Name) (arguments : List Value) :
    bindParameters ref parameters arguments machine ≠ .outOfFuel := by
  induction parameters generalizing arguments machine with
  | nil =>
      intro starves
      cases starves
  | cons parameter parameters ih =>
      cases arguments with
      | nil =>
          intro starves
          cases starves
      | cons argument arguments => exact ih arguments

theorem enter_ends (closure : Closure) (arguments : List Value) :
    enter closure arguments machine ≠ .outOfFuel := by
  intro starves
  rcases bind_starves starves with made | ⟨ref, middle, -, rest⟩
  · cases made
  rcases bind_starves rest with bound | ⟨_, after, -, rest⟩
  · exact bindParameters_ends _ _ _ bound
  · cases rest

theorem asks_of_evaluate {expr : Expr} {ref : FrameRef}
    (starves : evaluate host (fuel + 1) expr ref machine = .outOfFuel) :
    AsksTooMuch host fuel (.evaluate expr ref) machine := by
  cases expr with
  | literal value => cases starves
  | group inner =>
      rw [evaluate] at starves
      exact ⟨_, _, .inner, starves⟩
  | unary op line operand =>
      rw [evaluate] at starves
      rcases bind_starves starves with first | ⟨value, after, -, rest⟩
      · exact ⟨_, _, .operand, first⟩
      · exact absurd rest (ofExcept_ends _ _)
  | binary op line left right =>
      rw [evaluate] at starves
      rcases bind_starves starves with first | ⟨value, middle, run, rest⟩
      · exact ⟨_, _, .left, first⟩
      rcases bind_starves rest with second | ⟨other, after, -, rest⟩
      · exact ⟨_, _, .right run, second⟩
      · exact absurd rest (ofExcept_ends _ _)
  | logical op left right =>
      rw [evaluate] at starves
      rcases bind_starves starves with first | ⟨value, after, run, rest⟩
      · exact ⟨_, _, .deciding, first⟩
      by_cases decided : decides op value
      · rw [if_pos decided] at rest
        cases rest
      · rw [if_neg decided] at rest
        exact ⟨_, _, .undecided run decided, rest⟩
  | «variable» name =>
      rw [evaluate, lookup] at starves
      split at starves <;> cases starves
  | assign name value =>
      rw [evaluate] at starves
      rcases bind_starves starves with first | ⟨result, after, -, rest⟩
      · exact ⟨_, _, .assigned, first⟩
      rcases bind_starves rest with second | ⟨_, last, -, rest⟩
      · exact absurd second (assign_ends _ _ _)
      · cases rest
  | call callee arguments closeLine =>
      rw [evaluate] at starves
      rcases bind_starves starves with first | ⟨function, middle, run, rest⟩
      · exact ⟨_, _, .callee, first⟩
      rcases bind_starves rest with second | ⟨values, after, given, rest⟩
      · exact ⟨_, _, .arguments run, second⟩
      · exact ⟨_, _, .call run given, rest⟩

theorem asks_of_callValue {callee : Value} {arguments : List Value} {line : Nat}
    (starves : callValue host (fuel + 1) callee arguments line machine = .outOfFuel) :
    AsksTooMuch host fuel (.callValue callee arguments line) machine := by
  cases callee with
  | function callee =>
      simp only [callValue] at starves
      by_cases misfit : arguments.length ≠ callee.arity
      · rw [if_pos misfit] at starves
        cases starves
      · rw [if_neg misfit] at starves
        cases callee with
        | native native => exact absurd starves (callNative_ends native arguments line)
        | closure closure =>
            rcases bind_starves starves with inside | ⟨flow, after, -, rest⟩
            · by_cases full : host.maxCallDepth ≤ machine.callDepth
              · rw [nested, if_pos full] at inside
                cases inside
              · rw [nested, if_neg full] at inside
                refine ⟨_, _, .closure (Decidable.of_not_not misfit) (Nat.lt_of_not_le full), ?_⟩
                rw [Starves]
                revert inside
                generalize runClosure host fuel closure arguments _ = outcome
                intro inside
                cases outcome <;> first | rfl | cases inside
            · cases flow <;> cases rest
  | nil | bool value | number value | text value => cases starves

theorem asks_of_execute {stmt : Stmt} {ref : FrameRef}
    (starves : execute host (fuel + 1) stmt ref machine = .outOfFuel) :
    AsksTooMuch host fuel (.execute stmt ref) machine := by
  cases stmt with
  | expression value =>
      rw [execute] at starves
      rcases bind_starves starves with first | ⟨_, after, -, rest⟩
      · exact ⟨_, _, .expression, first⟩
      · cases rest
  | print value =>
      rw [execute] at starves
      rcases bind_starves starves with first | ⟨_, after, -, rest⟩
      · exact ⟨_, _, .printed, first⟩
      · cases rest
  | define name first =>
      cases first with
      | none => cases starves
      | some first =>
          rw [execute] at starves
          rcases bind_starves starves with first | ⟨_, after, -, rest⟩
          · exact ⟨_, _, .defined, first⟩
          · cases rest
  | block body =>
      rw [execute] at starves
      exact ⟨_, _, .block, starves⟩
  | conditional condition thenBranch elseBranch =>
      cases elseBranch with
      | none =>
          rw [execute] at starves
          rcases bind_starves starves with first | ⟨value, after, run, rest⟩
          · exact ⟨_, _, .condition, first⟩
          by_cases holds : value.isTruthy
          · rw [if_pos holds] at rest
            exact ⟨_, _, .thenBranch run holds, rest⟩
          · rw [if_neg holds] at rest
            cases rest
      | some elseBranch =>
          rw [execute] at starves
          rcases bind_starves starves with first | ⟨value, after, run, rest⟩
          · exact ⟨_, _, .condition, first⟩
          by_cases holds : value.isTruthy
          · rw [if_pos holds] at rest
            exact ⟨_, _, .thenBranch run holds, rest⟩
          · rw [if_neg holds] at rest
            exact ⟨_, _, .elseBranch run holds, rest⟩
  | loop condition body =>
      rw [execute] at starves
      exact ⟨_, _, .loop, starves⟩
  | breakOut line label => cases starves
  | continueOn line label => cases starves
  | labelled label body =>
      rw [execute] at starves
      rcases bind_starves starves with first | ⟨_, after, -, rest⟩
      · exact ⟨_, _, .labelled, first⟩
      · cases rest
  | continuePoint label body =>
      rw [execute] at starves
      rcases bind_starves starves with first | ⟨_, after, -, rest⟩
      · exact ⟨_, _, .continuePoint, first⟩
      · cases rest
  | function name parameters body => cases starves
  | returning line value =>
      rw [execute] at starves
      rcases bind_starves starves with first | ⟨_, after, -, rest⟩
      · exact ⟨_, _, .returned, first⟩
      · cases rest

theorem asks_of_repeatWhile {condition : Expr} {body : Stmt} {ref : FrameRef}
    (starves : repeatWhile host (fuel + 1) condition body ref machine = .outOfFuel) :
    AsksTooMuch host fuel (.repeatWhile condition body ref) machine := by
  rw [repeatWhile] at starves
  rcases bind_starves starves with first | ⟨value, middle, run, rest⟩
  · exact ⟨_, _, .loopCondition, first⟩
  by_cases holds : value.isTruthy
  · rw [if_pos holds] at rest
    rcases bind_starves rest with round | ⟨flow, after, round, rest⟩
    · exact ⟨_, _, .loopBody run holds, round⟩
    split at rest
    · exact ⟨_, _, .nextRound run holds round, rest⟩
    · cases rest
    · cases rest
  · rw [if_neg holds] at rest
    cases rest

end Starving

/-- A task that comes to no end with some fuel asks for one that comes to no end with one less. -/
theorem asks_of_starves {fuel : Nat} {task : Task} {machine : Machine}
    (starves : Starves host (fuel + 1) machine task) : AsksTooMuch host fuel task machine := by
  cases task with
  | evaluate expr ref => exact asks_of_evaluate starves
  | evaluateAll exprs ref =>
      cases exprs with
      | nil => cases starves
      | cons expr rest =>
          rw [Starves, evaluateAll] at starves
          rcases bind_starves starves with first | ⟨value, middle, run, rest⟩
          · exact ⟨_, _, .firstExpr, first⟩
          rcases bind_starves rest with others | ⟨values, after, -, rest⟩
          · exact ⟨_, _, .otherExprs run, others⟩
          · cases rest
  | callValue callee arguments line => exact asks_of_callValue starves
  | runClosure closure arguments =>
      rw [Starves, runClosure_eq] at starves
      rcases bind_starves starves with entering | ⟨ref, after, entered, rest⟩
      · exact absurd entering (enter_ends closure arguments)
      · exact ⟨_, _, .body entered, rest⟩
  | execute stmt ref => exact asks_of_execute starves
  | executeAll body ref =>
      cases body with
      | nil => cases starves
      | cons stmt rest =>
          rw [Starves, executeAll] at starves
          rcases bind_starves starves with first | ⟨flow, after, run, rest⟩
          · exact ⟨_, _, .firstStmt, first⟩
          cases flow with
          | normal => exact ⟨_, _, .otherStmts run, rest⟩
          | breaking signal | continuing signal | returning value line => cases rest
  | repeatWhile condition body ref => exact asks_of_repeatWhile starves

/-- Behind an action that ends with some fuel there is no end to come to if what follows it has
none. -/
theorem bind_starves_after {α β : Type} {run : Nat → Exec α} {rest : α → Exec β}
    {machine after : Machine} {spent : Nat} {value : α} (steady : Steady run)
    (before : run spent machine = .done value after) (starves : rest value after = .outOfFuel)
    (fuel : Nat) : (run fuel >>= rest) machine = .outOfFuel := by
  by_cases first : run fuel machine = .outOfFuel
  · exact bind_outOfFuel first
  · have same := (steady.ends first).unique (steady.ends (by rw [before]; simp))
    rw [bind_done (same.trans before), starves]

/-- A task that asks for one that comes to no end with some fuel comes to none itself with one
more. -/
theorem Asks.starves {task next : Task} {machine middle : Machine}
    (asks : Asks host task machine next middle) {fuel : Nat}
    (starves : Starves host fuel middle next) : Starves host (fuel + 1) machine task := by
  have evaluated (expr : Expr) (ref : FrameRef) : Steady fun fuel => evaluate host fuel expr ref :=
    fun fuel => (moreFuel host fuel).evaluate expr ref
  have listed (exprs : List Expr) (ref : FrameRef) :
      Steady fun fuel => evaluateAll host fuel exprs ref :=
    fun fuel => (moreFuel host fuel).evaluateAll exprs ref
  have executed (stmt : Stmt) (ref : FrameRef) : Steady fun fuel => execute host fuel stmt ref :=
    fun fuel => (moreFuel host fuel).execute stmt ref
  cases asks with
  | inner | loop | block => exact starves
  | operand | left | deciding | assigned | callee =>
      rw [Starves, evaluate]
      exact bind_outOfFuel starves
  | right before =>
      rw [Starves, evaluate]
      exact bind_starves_after (evaluated _ _) before (bind_outOfFuel starves) fuel
  | undecided before goesOn =>
      rw [Starves, evaluate]
      refine bind_starves_after (evaluated _ _) before ?_ fuel
      rw [if_neg goesOn]
      exact starves
  | arguments before =>
      rw [Starves, evaluate]
      exact bind_starves_after (evaluated _ _) before (bind_outOfFuel starves) fuel
  | call before given =>
      rw [Starves, evaluate]
      refine bind_starves_after (evaluated _ _) before ?_ fuel
      refine bind_starves_after (listed _ _) given ?_ fuel
      exact starves
  | firstExpr =>
      rw [Starves, evaluateAll]
      exact bind_outOfFuel starves
  | otherExprs before =>
      rw [Starves, evaluateAll]
      exact bind_starves_after (evaluated _ _) before (bind_outOfFuel starves) fuel
  | closure fits room =>
      rw [Starves, callValue_closure fits]
      apply bind_outOfFuel
      rw [nested, if_neg (Nat.not_le_of_lt room), starves]
      rfl
  | body entered =>
      rw [Starves, runClosure_eq, bind_done entered]
      exact starves
  | expression | printed | defined | labelled | continuePoint | returned =>
      rw [Starves, execute]
      exact bind_outOfFuel starves
  | @condition condition thenBranch elseBranch =>
      cases elseBranch with
      | none | some branch =>
          rw [Starves, execute]
          exact bind_outOfFuel starves
  | @thenBranch condition thenBranch elseBranch _ _ _ _ _ before holds =>
      cases elseBranch with
      | none | some branch =>
          rw [Starves, execute]
          refine bind_starves_after (evaluated _ _) before ?_ fuel
          rw [if_pos holds]
          exact starves
  | elseBranch before fails =>
      rw [Starves, execute]
      refine bind_starves_after (evaluated _ _) before ?_ fuel
      rw [if_neg fails]
      exact starves
  | firstStmt =>
      rw [Starves, executeAll]
      exact bind_outOfFuel starves
  | otherStmts before =>
      rw [Starves, executeAll]
      refine bind_starves_after (executed _ _) before ?_ fuel
      exact starves
  | loopCondition =>
      rw [Starves, repeatWhile]
      exact bind_outOfFuel starves
  | loopBody before holds =>
      rw [Starves, repeatWhile]
      refine bind_starves_after (evaluated _ _) before ?_ fuel
      rw [if_pos holds]
      exact bind_outOfFuel starves
  | nextRound before holds round =>
      rw [Starves, repeatWhile]
      refine bind_starves_after (evaluated _ _) before ?_ fuel
      rw [if_pos holds]
      refine bind_starves_after (executed _ _) round ?_ fuel
      exact starves

/-- **Fuel is spent on what is asked for, and on nothing else.** -/
theorem starves_iff {fuel : Nat} {task : Task} {machine : Machine} :
    Starves host (fuel + 1) machine task ↔ AsksTooMuch host fuel task machine := by
  constructor
  · exact asks_of_starves
  · rintro ⟨next, middle, asks, starves⟩
    exact asks.starves starves

end Lox.Interpreter
