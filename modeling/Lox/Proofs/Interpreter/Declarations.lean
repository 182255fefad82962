import Lox.Proofs.Interpreter.Course
import Lox.Proofs.Store.Growth
import Lox.Session

/-!
Where a run may declare names.

All frames that are there when a run begins grow by what the run executes in them and by nothing
else (`grown_runs`): a call executes the body of a closure in a frame that it makes for that, as a
block does, and an assignment finds the name declared. What is executed in a frame that is there
already is therefore the statement that is run or a part of it outside of every block and function
body (`Executes.holds`), and an expression executes nothing there.

Programs run in frames below that of the global names, so these stay as the host has registered
them.
-/

namespace Lox

/-- A statement is part of another if executing the whole may execute it in the same frame: the
whole itself and what is in it outside of its blocks and function bodies. -/
inductive Stmt.Part (part : Stmt) : Stmt → Prop where
  | self : Part part part
  | thenBranch {condition thenBranch elseBranch} (inside : Part part thenBranch) :
      Part part (.conditional condition thenBranch elseBranch)
  | elseBranch {condition thenBranch elseBranch} (inside : Part part elseBranch) :
      Part part (.conditional condition thenBranch (some elseBranch))
  | loop {condition body} (inside : Part part body) : Part part (.loop condition body)
  | labelled {label body} (inside : Part part body) : Part part (.labelled label body)
  | continuePoint {label body} (inside : Part part body) : Part part (.continuePoint label body)

namespace Interpreter

open Exec

variable {α β : Type} {host : Host} {task next : Task} {machine middle : Machine}

/-! ### What a task executes -/

/-- In the course of a task a statement is executed in a frame. -/
def Executes (host : Host) (task : Task) (machine : Machine) (there : FrameRef) (stmt : Stmt) :
    Prop :=
  ∃ calls middle, Course host calls task machine (.execute stmt there) middle

theorem Executes.of_asks {there : FrameRef} {stmt : Stmt}
    (asks : Asks host task machine next middle) (executes : Executes host next middle there stmt) :
    Executes host task machine there stmt := by
  obtain ⟨calls, last, course⟩ := executes
  exact ⟨_, last, .step asks course⟩

/-- A task has a statement in it that it may execute in a frame that is there before. -/
def Task.Holds (there : FrameRef) (part : Stmt) : Task → Prop
  | .execute stmt ref => there = ref ∧ part.Part stmt
  | .executeAll body ref => there = ref ∧ ∃ stmt ∈ body, part.Part stmt
  | .repeatWhile _ body ref => there = ref ∧ part.Part body
  | .evaluate _ _ | .evaluateAll _ _ | .callValue _ _ _ | .runClosure _ _ => False

/-- Binding parameters in a new frame leaves the older ones as they are. -/
theorem grows_bindParameters {executed : FrameRef → Stmt → Prop} {store : Store} {ref : FrameRef}
    (new : store.frames.size ≤ ref.index) (parameters : List Name) (arguments : List Value)
    (grows : store.GrowsBy executed machine.store) :
    ∃ after, bindParameters ref parameters arguments machine = .done () after ∧
      store.GrowsBy executed after.store := by
  induction parameters generalizing arguments machine with
  | nil => exact ⟨machine, rfl, grows⟩
  | cons parameter parameters ih =>
      cases arguments with
      | nil => exact ⟨machine, rfl, grows⟩
      | cons argument arguments =>
          exact ih arguments (grows.define fun _ _ old => absurd old (Nat.not_lt_of_le new))

theorem grows_enter (executed : FrameRef → Stmt → Prop) (closure : Closure) (arguments : List Value)
    (machine : Machine) :
    ∃ after, enter closure arguments machine = .done machine.store.nextRef after ∧
      machine.store.GrowsBy executed after.store := by
  have made : machine.store.GrowsBy executed (machine.store.addChild closure.scope).2 :=
    (Store.GrowsBy.refl machine.store).addFrame (some closure.scope)
  obtain ⟨after, bound, grows⟩ := @grows_bindParameters
    { machine with store := (machine.store.addChild closure.scope).2 } executed machine.store
    machine.store.nextRef (Nat.le_refl _) closure.decl.parameters arguments made
  refine ⟨after, ?_, grows⟩
  have opened : newChild closure.scope machine =
    .done machine.store.nextRef
      { machine with store := (machine.store.addChild closure.scope).2 } := rfl
  rw [enter, bind_done opened, bind_done bound]
  rfl

/-- What is asked for holds no statement for an older frame that is not in the task. -/
theorem Asks.holds {there : FrameRef} {part : Stmt} (asks : Asks host task machine next middle)
    (old : there.index < machine.store.frames.size) (holds : next.Holds there part) :
    task.Holds there part := by
  cases asks with
  | @body closure arguments machine ref after entered =>
      -- The body of a closure is executed in a frame that is made for it.
      obtain ⟨after', made, -⟩ := grows_enter (fun _ _ => False) closure arguments machine
      rw [entered] at made
      cases made
      obtain ⟨rfl, -⟩ := holds
      exact absurd old (Nat.lt_irrefl _)
  | block =>
      obtain ⟨rfl, -⟩ := holds
      exact absurd old (Nat.lt_irrefl _)
  | thenBranch => exact ⟨holds.1, .thenBranch holds.2⟩
  | elseBranch => exact ⟨holds.1, .elseBranch holds.2⟩
  | loop => exact ⟨holds.1, .loop holds.2⟩
  | labelled => exact ⟨holds.1, .labelled holds.2⟩
  | continuePoint => exact ⟨holds.1, .continuePoint holds.2⟩
  | firstStmt => exact ⟨holds.1, _, List.mem_cons_self, holds.2⟩
  | otherStmts =>
      obtain ⟨same, stmt, member, inside⟩ := holds
      exact ⟨same, stmt, List.mem_cons_of_mem _ member, inside⟩
  | loopBody | nextRound => exact holds
  | _ => exact holds.elim

/-- What is executed in a frame that is there when a task begins is in the task itself. -/
theorem Executes.holds {there : FrameRef} {part : Stmt}
    (executes : Executes host task machine there part)
    (old : there.index < machine.store.frames.size) : task.Holds there part := by
  obtain ⟨calls, last, course⟩ := executes
  generalize same : Task.execute part there = final at course
  induction course with
  | here =>
      subst same
      exact ⟨rfl, .self⟩
  | step asks _ ih => exact asks.holds old (ih (Nat.lt_of_lt_of_le old asks.continues.size) same)

/-! ### What a task declares -/

/-- However an action ends in the course of a task, the frames that were there when it began have
grown by what has been executed in them. -/
def Grown (host : Host) (task : Task) (machine : Machine) (outcome : Outcome α) : Prop :=
  outcome.AllMachines fun after => machine.store.GrowsBy (Executes host task machine) after.store

namespace Grown

theorem bind {action : Exec α} {rest : α → Exec β} (first : Grown host task machine (action middle))
    (second : ∀ value after, action middle = .done value after →
      machine.store.GrowsBy (Executes host task machine) after.store →
      Grown host task machine (rest value after)) :
    Grown host task machine ((action >>= rest) middle) :=
  allMachines_bind first second

/-- What a task asks for grows the frames in the course of the task. -/
theorem asked {outcome : Outcome α} (asks : Asks host task machine next middle)
    (sofar : machine.store.GrowsBy (Executes host task machine) middle.store)
    (grown : Grown host next middle outcome) : Grown host task machine outcome :=
  grown.imp fun _ grows => sofar.trans (grows.imp fun _ _ _ => .of_asks asks)

theorem first {outcome : Outcome α} (asks : Asks host task machine next machine)
    (grown : Grown host next machine outcome) : Grown host task machine outcome :=
  grown.asked asks (.refl machine.store)

theorem ofExcept (line : Nat) (result : Except Fault Value)
    (sofar : machine.store.GrowsBy (Executes host task machine) middle.store) :
    Grown host task machine (ofExcept line result middle) := by
  cases result with
  | ok value => exact sofar
  | error fault => exact sofar

theorem callNative (native : Native) (arguments : List Value) (line : Nat) :
    Grown host task machine (callNative host native arguments line machine) := by
  have sofar : machine.store.GrowsBy (Executes host task machine) machine.store :=
    .refl machine.store
  rw [Exec.callNative]
  cases host.functions[native.id]? with
  | none => exact sofar
  | some function =>
      simp only
      cases function.action with
      | readClock => exact sofar
      | compute result => exact ofExcept line (result arguments) sofar

theorem callResult (flow : Flow)
    (sofar : machine.store.GrowsBy (Executes host task machine) middle.store) :
    Grown host task machine (callResult flow middle) := by
  cases flow <;> exact sofar

end Grown

/-- Every run grows frames only by what it executes. -/
structure RunsGrow (host : Host) (fuel : Nat) : Prop where
  evaluate : ∀ expr ref machine,
    Grown host (.evaluate expr ref) machine (evaluate host fuel expr ref machine)
  evaluateAll : ∀ exprs ref machine,
    Grown host (.evaluateAll exprs ref) machine (evaluateAll host fuel exprs ref machine)
  callValue : ∀ callee arguments line machine,
    Grown host (.callValue callee arguments line) machine
      (callValue host fuel callee arguments line machine)
  runClosure : ∀ closure arguments machine,
    Grown host (.runClosure closure arguments) machine
      (runClosure host fuel closure arguments machine)
  execute : ∀ stmt ref machine,
    Grown host (.execute stmt ref) machine (execute host fuel stmt ref machine)
  executeAll : ∀ body ref machine,
    Grown host (.executeAll body ref) machine (executeAll host fuel body ref machine)
  repeatWhile : ∀ condition body ref machine,
    Grown host (.repeatWhile condition body ref) machine
      (repeatWhile host fuel condition body ref machine)

section Step

variable {fuel : Nat} (ih : RunsGrow host fuel)
include ih

theorem grown_evaluate (expr : Expr) (ref : FrameRef) (machine : Machine) :
    Grown host (.evaluate expr ref) machine (evaluate host (fuel + 1) expr ref machine) := by
  cases expr with
  | literal value => exact .refl machine.store
  | group inner =>
      rw [evaluate]
      exact .first .inner (ih.evaluate inner ref machine)
  | unary op line operand =>
      rw [evaluate]
      refine .bind (.first .operand (ih.evaluate operand ref machine)) fun value after _ sofar => ?_
      exact .ofExcept line _ sofar
  | binary op line left right =>
      rw [evaluate]
      refine .bind (.first .left (ih.evaluate left ref machine)) fun first middle run sofar => ?_
      refine .bind (.asked (.right run) sofar (ih.evaluate right ref middle))
        fun second after _ sofar => ?_
      exact .ofExcept line _ sofar
  | logical op left right =>
      rw [evaluate]
      refine .bind (.first .deciding (ih.evaluate left ref machine))
        fun first middle run sofar => ?_
      by_cases decided : decides op first
      · rw [if_pos decided]
        exact sofar
      · rw [if_neg decided]
        exact .asked (.undecided run decided) sofar (ih.evaluate right ref middle)
  | «variable» name =>
      rw [evaluate, lookup]
      split <;> exact .refl machine.store
  | assign name source =>
      rw [evaluate]
      refine .bind (.first .assigned (ih.evaluate source ref machine))
        fun value middle run sofar => ?_
      have assigned : Grown host (.evaluate (.assign name source) ref) machine
          (assign ref name value middle) := by
        rw [assign]
        split
        · rename_i owner slot found
          exact sofar.assign value found
        · exact sofar
      exact .bind assigned fun _ after _ sofar => sofar
  | call callee arguments closeLine =>
      rw [evaluate]
      refine .bind (.first .callee (ih.evaluate callee ref machine))
        fun function middle run sofar => ?_
      refine .bind (.asked (.arguments run) sofar (ih.evaluateAll arguments ref middle)) ?_
      intro values after given sofar
      exact .asked (.call run given) sofar (ih.callValue function values closeLine after)

theorem grown_evaluateAll (exprs : List Expr) (ref : FrameRef) (machine : Machine) :
    Grown host (.evaluateAll exprs ref) machine
      (evaluateAll host (fuel + 1) exprs ref machine) := by
  cases exprs with
  | nil => exact .refl machine.store
  | cons expr rest =>
      rw [evaluateAll]
      refine .bind (.first .firstExpr (ih.evaluate expr ref machine))
        fun value middle run sofar => ?_
      refine .bind (.asked (.otherExprs run) sofar (ih.evaluateAll rest ref middle)) ?_
      exact fun values after _ sofar => sofar

theorem grown_callValue (callee : Value) (arguments : List Value) (line : Nat) (machine : Machine) :
    Grown host (.callValue callee arguments line) machine
      (callValue host (fuel + 1) callee arguments line machine) := by
  cases callee with
  | function callee =>
      simp only [callValue]
      by_cases misfit : arguments.length ≠ callee.arity
      · rw [if_pos misfit]
        exact .refl machine.store
      · rw [if_neg misfit]
        cases callee with
        | native native => exact .callNative native arguments line
        | closure closure =>
            have called :
                Grown host (.callValue (.function (.closure closure)) arguments line) machine
                (nested host.maxCallDepth line
                  (runClosure host fuel closure arguments) machine) := by
              apply allMachines_nested line fun _ => .refl machine.store
              intro room
              have asks :
                  Asks host (.callValue (.function (.closure closure)) arguments line) machine
                  (.runClosure closure arguments)
                  { machine with callDepth := machine.callDepth + 1 } :=
                .closure (Decidable.of_not_not misfit) room
              exact Grown.asked asks (.refl machine.store) (ih.runClosure closure arguments _)
            exact .bind called fun flow after _ sofar => .callResult flow sofar
  | nil | bool value | number value | text value => exact .refl machine.store

theorem grown_runClosure (closure : Closure) (arguments : List Value) (machine : Machine) :
    Grown host (.runClosure closure arguments) machine
      (runClosure host (fuel + 1) closure arguments machine) := by
  obtain ⟨after, entered, sofar⟩ :=
    grows_enter (Executes host (.runClosure closure arguments) machine) closure arguments machine
  rw [runClosure_eq, bind_done entered]
  exact .asked (.body entered) sofar (ih.executeAll closure.decl.body _ after)

theorem grown_execute (stmt : Stmt) (ref : FrameRef) (machine : Machine) :
    Grown host (.execute stmt ref) machine (execute host (fuel + 1) stmt ref machine) := by
  -- The statement itself is executed in the frame.
  have here : Executes host (.execute stmt ref) machine ref stmt := ⟨0, machine, .here⟩
  cases stmt with
  | expression value =>
      rw [execute]
      exact .bind (.first .expression (ih.evaluate value ref machine)) fun _ _ _ sofar => sofar
  | print value =>
      rw [execute]
      exact .bind (.first .printed (ih.evaluate value ref machine)) fun _ _ _ sofar => sofar
  | define name first =>
      cases first with
      | none => exact (Store.GrowsBy.refl machine.store).define fun frame _ _ =>
          .insert_uninitialized here
      | some first =>
          rw [execute]
          refine .bind (.first .defined (ih.evaluate first ref machine))
            fun value after _ sofar => ?_
          exact sofar.define fun frame _ _ => .insert_bound value (.inr ⟨_, here, rfl⟩)
  | block body =>
      have made : machine.store.GrowsBy (Executes host (.execute (.block body) ref) machine)
          (machine.store.addChild ref).2 := (Store.GrowsBy.refl machine.store).addFrame (some ref)
      rw [execute]
      exact .asked .block made (ih.executeAll body _ _)
  | conditional condition thenBranch elseBranch =>
      cases elseBranch with
      | none =>
          rw [execute]
          refine .bind (.first .condition (ih.evaluate condition ref machine))
            fun value after run sofar => ?_
          by_cases holds : value.isTruthy
          · rw [if_pos holds]
            exact .asked (.thenBranch run holds) sofar (ih.execute thenBranch ref after)
          · rw [if_neg holds]
            exact sofar
      | some elseBranch =>
          rw [execute]
          refine .bind (.first .condition (ih.evaluate condition ref machine))
            fun value after run sofar => ?_
          by_cases holds : value.isTruthy
          · rw [if_pos holds]
            exact .asked (.thenBranch run holds) sofar (ih.execute thenBranch ref after)
          · rw [if_neg holds]
            exact .asked (.elseBranch run holds) sofar (ih.execute elseBranch ref after)
  | loop condition body =>
      rw [execute]
      exact .first .loop (ih.repeatWhile condition body ref machine)
  | breakOut line label => exact .refl machine.store
  | continueOn line label => exact .refl machine.store
  | labelled label body =>
      rw [execute]
      exact .bind (.first .labelled (ih.execute body ref machine)) fun _ _ _ sofar => sofar
  | continuePoint label body =>
      rw [execute]
      exact .bind (.first .continuePoint (ih.execute body ref machine)) fun _ _ _ sofar => sofar
  | function name parameters body =>
      have made : machine.store.GrowsBy
          (Executes host (.execute (.function name parameters body) ref) machine)
          (machine.store.makeClosure ⟨name, parameters, body⟩ ref).2 := .refl machine.store
      exact made.define fun frame _ _ => .insert_bound _ (.inr ⟨_, here, rfl⟩)
  | returning line value =>
      rw [execute]
      exact .bind (.first .returned (ih.evaluate value ref machine)) fun _ _ _ sofar => sofar

theorem grown_executeAll (body : List Stmt) (ref : FrameRef) (machine : Machine) :
    Grown host (.executeAll body ref) machine (executeAll host (fuel + 1) body ref machine) := by
  cases body with
  | nil => exact .refl machine.store
  | cons stmt rest =>
      rw [executeAll]
      refine .bind (.first .firstStmt (ih.execute stmt ref machine)) fun flow after run sofar => ?_
      cases flow with
      | normal => exact .asked (.otherStmts run) sofar (ih.executeAll rest ref after)
      | breaking signal | continuing signal | returning value line => exact sofar

theorem grown_repeatWhile (condition : Expr) (body : Stmt) (ref : FrameRef) (machine : Machine) :
    Grown host (.repeatWhile condition body ref) machine
      (repeatWhile host (fuel + 1) condition body ref machine) := by
  rw [repeatWhile]
  refine .bind (.first .loopCondition (ih.evaluate condition ref machine))
    fun value middle run sofar => ?_
  by_cases holds : value.isTruthy
  · rw [if_pos holds]
    refine .bind (.asked (.loopBody run holds) sofar (ih.execute body ref middle)) ?_
    intro flow after round sofar
    split
    · exact .asked (.nextRound run holds round) sofar (ih.repeatWhile condition body ref after)
    · exact sofar
    · exact sofar
  · rw [if_neg holds]
    exact sofar

end Step

theorem grown_runs (host : Host) : ∀ fuel, RunsGrow host fuel
  | 0 => by constructor <;> intros <;> trivial
  | fuel + 1 =>
      have ih := grown_runs host fuel
      { evaluate := grown_evaluate ih
        evaluateAll := grown_evaluateAll ih
        callValue := grown_callValue ih
        runClosure := grown_runClosure ih
        execute := grown_execute ih
        executeAll := grown_executeAll ih
        repeatWhile := grown_repeatWhile ih }

section Course

variable {calls : Nat}

theorem Grown.of_done {action : Exec α} {value : α} {after : Machine}
    (grown : Grown host task machine (action middle)) (run : action middle = .done value after) :
    machine.store.GrowsBy (Executes host task machine) after.store := by
  rw [Grown, run] at grown
  exact grown

theorem Asks.grows (asks : Asks host task machine next middle) :
    machine.store.GrowsBy (Executes host task machine) middle.store := by
  have runs (fuel : Nat) := grown_runs host fuel
  cases asks with
  | right done => exact (Grown.first .left ((runs _).evaluate _ _ _)).of_done done
  | undecided done _ => exact (Grown.first .deciding ((runs _).evaluate _ _ _)).of_done done
  | arguments done => exact (Grown.first .callee ((runs _).evaluate _ _ _)).of_done done
  | call done given =>
      refine (Grown.asked (.arguments done) ?_ ((runs _).evaluateAll _ _ _)).of_done given
      exact (Grown.first .callee ((runs _).evaluate _ _ _)).of_done done
  | otherExprs done => exact (Grown.first .firstExpr ((runs _).evaluate _ _ _)).of_done done
  | thenBranch done _ | elseBranch done _ =>
      exact (Grown.first .condition ((runs _).evaluate _ _ _)).of_done done
  | otherStmts done => exact (Grown.first .firstStmt ((runs _).execute _ _ _)).of_done done
  | loopBody done _ => exact (Grown.first .loopCondition ((runs _).evaluate _ _ _)).of_done done
  | nextRound done holds round =>
      refine (Grown.asked (.loopBody done holds) ?_ ((runs _).execute _ _ _)).of_done round
      exact (Grown.first .loopCondition ((runs _).evaluate _ _ _)).of_done done
  | @body closure arguments _ _ _ entered =>
      obtain ⟨after, made, grows⟩ := grows_enter _ closure arguments machine
      rw [entered] at made
      cases made
      exact grows
  | block => exact (Store.GrowsBy.refl machine.store).addFrame _
  | _ => exact .refl _

/-- What holds of ended runs holds at every moment of a run. -/
theorem Course.grows (course : Course host calls task machine next middle) :
    machine.store.GrowsBy (Executes host task machine) middle.store := by
  induction course with
  | here => exact .refl _
  | step asks _ ih => exact asks.grows.trans (ih.imp fun _ _ _ => .of_asks asks)

end Course

/-- Evaluating an expression declares nothing in the frames that are there. -/
theorem grows_evaluate (host : Host) (fuel : Nat) (expr : Expr) (ref : FrameRef)
    (machine : Machine) :
    (evaluate host fuel expr ref machine).AllMachines fun after =>
      machine.store.GrowsBy (fun _ _ => False) after.store :=
  ((grown_runs host fuel).evaluate expr ref machine).imp fun _ grows =>
    grows.imp fun _ _ old executes => executes.holds old

/-- A row of statements declares nothing in other frames that are there than the one it is executed
in. -/
theorem grows_executeAll (host : Host) (fuel : Nat) (body : List Stmt) (ref : FrameRef)
    (machine : Machine) :
    (executeAll host fuel body ref machine).AllMachines fun after =>
      machine.store.GrowsBy (fun there _ => there = ref) after.store :=
  ((grown_runs host fuel).executeAll body ref machine).imp fun _ grows =>
    grows.imp fun _ _ old executes => (executes.holds old).1

/-- Neither does a program that is run in a frame. -/
theorem grows_executeIn (host : Host) (fuel : Nat) (program : List Stmt) (ref : FrameRef)
    (machine : Machine) :
    (executeIn host fuel program ref machine).AllMachines fun after =>
      machine.store.GrowsBy (fun there _ => there = ref) after.store := by
  apply allMachines_bind (grows_executeAll host fuel program ref { machine with callDepth := 0 })
  intro flow after _ grows
  cases flow <;> exact grows

/-! ### The global names -/

/-- The frame of the global names is one without a parent that declares the given names and has a
value for each. -/
def GlobalNames (names : List String) (store : Store) : Prop :=
  ∃ frame, store.frame? globals = some frame ∧ frame.parent = none ∧
    ∀ name, (frame.declares name ↔ name ∈ names) ∧ (frame.Binds name ↔ name ∈ names)

/-- The global names stay as they are if nothing is executed in their frame. -/
theorem GlobalNames.grows {names : List String} {store store' : Store}
    {executed : FrameRef → Stmt → Prop} (global : GlobalNames names store)
    (grows : store.GrowsBy executed store') (apart : ∀ stmt, ¬ executed globals stmt) :
    GlobalNames names store' := by
  obtain ⟨frame, found, root, holds⟩ := global
  obtain ⟨frame', found', grows⟩ := grows globals frame found
  refine ⟨frame', found', grows.parent.trans root, fun name => ?_⟩
  obtain ⟨declares, binds⟩ := holds name
  have declares' : frame'.declares name ↔ name ∈ names := by
    constructor
    · intro here
      rcases grows.added name here with before | ⟨stmt, run, -⟩
      · exact declares.mp before
      · exact absurd run (apart stmt)
    · exact fun member => grows.kept name (declares.mpr member)
  refine ⟨declares', fun here => declares'.mp here.declares, fun member => ?_⟩
  rcases grows.bound name (binds.mpr member) with still | ⟨line, run⟩
  · exact still
  · exact absurd run (apart _)

theorem globalNames_define {names : List String} {store : Store} (global : GlobalNames names store)
    (name : String) (value : Value) :
    GlobalNames (names ++ [name]) (store.define globals name (some value)) := by
  obtain ⟨frame, found, root, holds⟩ := global
  refine ⟨frame.insert name (.bound value), ?_, root, fun other => ?_⟩
  · rw [Store.frame?_define, found, Option.map_some, if_pos rfl]
    rfl
  · obtain ⟨declares, binds⟩ := holds other
    rw [Frame.declares_insert, Frame.binds_insert, declares, binds, List.mem_append,
      List.mem_singleton, or_comm]
    exact ⟨Iff.rfl, Iff.rfl⟩

theorem globalNames_register {names : List String} {store : Store}
    (global : GlobalNames names store) (id : Nat) (functions : List HostFunction) :
    GlobalNames (names ++ functions.map (·.name)) (register store id functions) := by
  induction functions generalizing names store id with
  | nil => simpa [register] using global
  | cons function rest ih =>
      rw [List.map_cons, List.append_cons]
      exact ih (globalNames_define global function.name _) (id + 1)

/-- The names that a new interpreter registers. -/
def registered (functions : List HostFunction) : List String :=
  (HostFunction.clock :: functions).map (·.name)

theorem globalNames_build (functions : List HostFunction) (clock : Nat → Float) (limit : Nat) :
    GlobalNames (registered functions) (build functions clock limit).machine.store := by
  have root : GlobalNames [] Store.empty.addRoot.2 := by
    refine ⟨⟨[], none⟩, rfl, rfl, fun name => ?_⟩
    simp [Frame.declares, Frame.Binds, Frame.find?]
  exact globalNames_register root 0 (HostFunction.clock :: functions)

/-- An interpreter in the lifetime of a new one: programs are run by it, sessions with it are
opened, and lines or rows of statements are run in frames other than that of the global names. -/
inductive Lifetime (functions : List HostFunction) (clock : Nat → Float) (limit : Nat) :
    Interpreter → Prop where
  | built : Lifetime functions clock limit (build functions clock limit)
  | opened {ρ : Type} [Reporter ρ] {interpreter : Interpreter}
      (before : Lifetime functions clock limit interpreter)
      (reporter : ρ) :
        Lifetime functions clock limit (Session.start interpreter reporter).interpreter
  | interpreted {ρ : Type} [Reporter ρ] {interpreter after : Interpreter} {reporter reporter' : ρ}
      {fuel : Nat}
      {program : List Stmt} {result : Except RuntimeError Unit}
      (before : Lifetime functions clock limit interpreter)
      (run : interpreter.performReporting reporter (fun host => interpret host fuel program) =
        some (result, after, reporter')) : Lifetime functions clock limit after
  | executed {ρ : Type} [Reporter ρ] {interpreter after : Interpreter} {reporter reporter' : ρ}
      {fuel : Nat}
      {program : List Stmt} {scope : FrameRef} {result : Except RuntimeError Unit}
      (before : Lifetime functions clock limit interpreter) (apart : scope ≠ globals)
      (run : interpreter.performReporting reporter (fun host => executeIn host fuel program scope) =
        some (result, after, reporter')) : Lifetime functions clock limit after
  | line {ρ : Type} [Reporter ρ] {session after : Session ρ} {fuel : Nat} {line : String}
      {status : Status}
      (before : Lifetime functions clock limit session.interpreter)
      (apart : session.scope ≠ globals)
      (run : session.runLine fuel line = some (status, after)) :
        Lifetime functions clock limit after.interpreter

/-- What holds of the store however an action ends holds of the store of the interpreter that is
left. -/
theorem store_of_performReporting {ρ : Type} [Reporter ρ] {interpreter after : Interpreter}
    {reporter reporter' : ρ} {action : Host → Exec α} {result : Except RuntimeError α}
    {holds : Store → Prop}
    (run : interpreter.performReporting reporter action = some (result, after, reporter'))
    (all : (action interpreter.host interpreter.machine).AllMachines fun last => holds last.store) :
    holds after.machine.store := by
  unfold performReporting perform at run
  cases ended : action interpreter.host interpreter.machine with
  | done value last =>
      rw [ended] at run all
      cases run
      exact all
  | failed error last =>
      rw [ended] at run all
      cases run
      exact all
  | outOfFuel =>
      rw [ended] at run
      cases run

section Global

variable {names : List String} {interpreter after : Interpreter}

theorem GlobalNames.opened {store : Store} (global : GlobalNames names store) :
    GlobalNames names (store.addChild globals).2 ∧ store.nextRef ≠ globals := by
  have grows : store.GrowsBy (fun _ _ => False) (store.addChild globals).2 :=
    .addFrame (.refl store) (some globals)
  refine ⟨global.grows grows fun _ => id, ?_⟩
  obtain ⟨frame, found, -⟩ := global
  intro same
  have inside := Store.lt_size found
  rw [← same] at inside
  exact Nat.lt_irrefl _ inside

/-- Running statements in another frame leaves the global names as they are. -/
theorem GlobalNames.executeIn {ρ : Type} [Reporter ρ] {reporter reporter' : ρ} {fuel : Nat}
    {program : List Stmt} {scope : FrameRef} {result : Except RuntimeError Unit}
    (global : GlobalNames names interpreter.machine.store) (apart : scope ≠ globals)
    (run : interpreter.performReporting reporter (fun host => executeIn host fuel program scope) =
      some (result, after, reporter')) :
    GlobalNames names after.machine.store := by
  refine store_of_performReporting run ?_
  exact (grows_executeIn interpreter.host fuel program scope interpreter.machine).imp
    fun last grows =>
    global.grows grows fun _ same => apart same.symm

/-- Programs run in a frame of their own. -/
theorem GlobalNames.interpret {ρ : Type} [Reporter ρ] {reporter reporter' : ρ} {fuel : Nat}
    {program : List Stmt} {result : Except RuntimeError Unit}
    (global : GlobalNames names interpreter.machine.store)
    (run : interpreter.performReporting reporter (fun host => interpret host fuel program) =
      some (result, after, reporter')) :
    GlobalNames names after.machine.store := by
  obtain ⟨begun, apart⟩ := global.opened
  refine store_of_performReporting run ?_
  exact (grows_executeIn interpreter.host fuel program _ _).imp fun last grows =>
    begun.grows grows fun _ same => apart same.symm

/-- A line of a session is run in the frame of the session. -/
theorem GlobalNames.runLine {ρ : Type} [Reporter ρ] {session last : Session ρ} {fuel : Nat}
    {line : String} {status : Status} (global : GlobalNames names session.interpreter.machine.store)
    (apart : session.scope ≠ globals) (run : session.runLine fuel line = some (status, last)) :
    GlobalNames names last.interpreter.machine.store := by
  unfold Session.runLine at run
  split at run
  · cases run
    exact global
  · obtain ⟨⟨result, after, reporter⟩, ran, same⟩ := Option.bind_eq_some_iff.mp run
    cases same
    exact global.executeIn apart ran

end Global

/-- The global names are those that were registered, whatever has been run. -/
theorem Lifetime.globalNames {functions : List HostFunction} {clock : Nat → Float} {limit : Nat}
    {interpreter : Interpreter} (lifetime : Lifetime functions clock limit interpreter) :
    GlobalNames (registered functions) interpreter.machine.store := by
  induction lifetime with
  | built => exact globalNames_build functions clock limit
  | opened _ _ ih => exact ih.opened.1
  | interpreted _ run ih => exact ih.interpret run
  | executed _ apart run ih => exact ih.executeIn apart run
  | line _ apart run ih => exact ih.runLine apart run

/-- **Names are declared only where they stand.** However evaluating an expression ends, the frames
that were there declare what they declared before, and what had a value has one. However executing a
statement ends, the frames that were there keep their names and their parents; only the frame that
the statement is executed in may declare more, by declarations in the statement outside of its
blocks and function bodies that have been executed, and a name may lose its value there by being
declared without one. The same is true at every moment of a run, whether it ever ends or not. So the
frame of the global names declares what was registered, with a value for each, whatever has been run
by an interpreter; for programs and the lines of sessions run in others. -/
theorem declarations_confined (host : Host) :
    (∀ fuel expr ref machine, (evaluate host fuel expr ref machine).AllMachines fun after =>
      machine.store.GrowsBy (fun _ _ => False) after.store) ∧
    (∀ fuel stmt ref machine, (execute host fuel stmt ref machine).AllMachines fun after =>
      machine.store.GrowsBy (fun there part => there = ref ∧ part.Part stmt ∧
        Executes host (.execute stmt ref) machine there part) after.store) ∧
    (∀ calls task machine next after, Course host calls task machine next after →
      machine.store.GrowsBy (fun there part =>
        task.Holds there part ∧ Executes host task machine there part)
        after.store) ∧
    ∀ functions clock limit interpreter, Lifetime functions clock limit interpreter →
      GlobalNames (registered functions) interpreter.machine.store ∧
      ∀ (ρ : Type) [Reporter ρ] (reporter : ρ),
        (Session.start interpreter reporter).scope ≠ globals := by
  refine ⟨grows_evaluate host, fun fuel stmt ref machine =>
    ?_, fun calls task machine next after course => ?_,
    fun functions clock limit interpreter lifetime => ?_⟩
  · refine ((grown_runs host fuel).execute stmt ref machine).imp fun after grows => ?_
    refine grows.imp fun there part old executes => ?_
    obtain ⟨same, inside⟩ := executes.holds old
    exact ⟨same, inside, executes⟩
  · exact course.grows.imp fun there part old executes => ⟨executes.holds old, executes⟩
  · exact ⟨lifetime.globalNames, fun ρ _ reporter => lifetime.globalNames.opened.2⟩

/-- A function gives a global name another value, and then the session declares that name for
itself. -/
theorem declarations_confined_clock :
    let line := "fun f() \x7b clock = nil; \x7d f(); var clock;"
    let session := Session.start (build [] (fun _ => 0) 4) Transcript.empty
    ∃ after, session.runLine 100 line = some (.ok, after) ∧
      Lifetime [] (fun _ => 0) 4 after.interpreter ∧
        GlobalNames ["clock"] after.interpreter.machine.store ∧
      after.dumpGlobals = "clock = nil" ∧ after.dump = "clock = <uninitialized>\nf = <fn f>" := by
  intro line session
  have result : (session.runLine 100 line).map
      (fun (status, after) => (status, after.dumpGlobals, after.dump)) =
      some (.ok, "clock = nil", "clock = <uninitialized>\nf = <fn f>") := by
    decide +kernel
  obtain ⟨⟨status, after⟩, ran, same⟩ := Option.map_eq_some_iff.mp result
  obtain ⟨rfl, dumps⟩ := Prod.mk.inj same
  obtain ⟨dumpGlobals, dump⟩ := Prod.mk.inj dumps
  have opened : Lifetime [] (fun _ => 0) 4 session.interpreter := .opened .built Transcript.empty
  have lifetime : Lifetime [] (fun _ => 0) 4 after.interpreter := .line opened (by decide) ran
  obtain ⟨-, -, -, global⟩ := declarations_confined session.interpreter.host
  exact ⟨after, ran, lifetime, (global [] _ 4 _ lifetime).1, dumpGlobals, dump⟩

end Interpreter

end Lox
