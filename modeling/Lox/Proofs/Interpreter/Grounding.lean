import Lox.Proofs.Interpreter.Course
import Lox.Proofs.Store.Founding
import Lox.Proofs.Value.Results

/-!
Frames that code has hold of.

Code gets hold of a frame by running in it and of closures, which have frames themselves, as values.
All these frames exist: a frame is there before its reference is handed out, and none is ever taken
away. So from a well-formed store every run leaves a well-formed store, with no fewer frames than
before, and all that it gives back is among them (`grounding`). A step of the evaluator that asks
for another does so in a well-formed store and about frames that are there (`Asks.grounds`), so this
is true at every moment of a run, also of one that never ends (`Course.grounds`).

Functions of the host are given values and give back one; they must not make up a frame.
-/

namespace Lox

/-- A function of the host that gives back no frame but those that it was given. -/
def HostFunction.Grounded (function : HostFunction) : Prop :=
  ∀ result size arguments value, function.action = .compute result →
    (∀ argument ∈ arguments, argument.Below size) → result arguments = .ok value → value.Below size

/-- A statement returns no frame but the first so many. -/
def Flow.Below (size : Nat) : Flow → Prop
  | .returning value _ => value.Below size
  | .normal | .breaking _ | .continuing _ => True

theorem Flow.Below.of_le {size more : Nat} {flow : Flow} (below : flow.Below size)
    (le : size ≤ more) :
    flow.Below more := by
  cases flow with
  | returning value line => exact Value.Below.of_le below le
  | normal | breaking signal | continuing signal => trivial

theorem Flow.Below.catchBreak {size : Nat} {flow : Flow} (below : flow.Below size) (label : Name) :
    (Interpreter.catchBreak label flow).Below size := by
  unfold Interpreter.catchBreak
  split
  · split <;> trivial
  · exact below

theorem Flow.Below.catchContinue {size : Nat} {flow : Flow} (below : flow.Below size)
    (label : Option Name) :
    (Interpreter.catchContinue label flow).Below size := by
  unfold Interpreter.catchContinue
  split
  · split <;> trivial
  · exact below

theorem Value.below_of_ne {size : Nat} {value : Value}
    (other : ∀ closure, value ≠ .function (.closure closure)) :
    value.Below size :=
  fun closure same => absurd same (other closure)

theorem Value.below_ofLiteral (size : Nat) (literal : Literal) :
    (Value.ofLiteral literal).Below size := by
  cases literal <;> exact Value.below_of_ne (by rintro _ ⟨⟩)

/-! ### Actions -/

/-- From every well-formed store with so many frames or more, an action leaves such a store, and its
value is as promised for the number of frames that there are then. -/
def Exec.Grounds {α : Type} (size : Nat) (done : Nat → α → Prop) (action : Exec α) : Prop :=
  ∀ machine, machine.store.WellFormed → size ≤ machine.store.frames.size →
    match action machine with
    | .done value after =>
      after.store.WellFormed ∧ size ≤ after.store.frames.size ∧ done after.store.frames.size value
    | .failed _ after => after.store.WellFormed ∧ size ≤ after.store.frames.size
    | .outOfFuel => True

namespace Exec.Grounds

open Exec

variable {α β : Type} {size : Nat} {done : Nat → α → Prop} {next : Nat → β → Prop} {ref : FrameRef}

theorem of_done {action : Exec α} {machine after : Machine} {value : α}
    (grounds : action.Grounds size done) (formed : machine.store.WellFormed)
    (enough : size ≤ machine.store.frames.size) (run : action machine = .done value after) :
    after.store.WellFormed ∧ size ≤ after.store.frames.size ∧
      done after.store.frames.size value := by
  have grounded := grounds machine formed enough
  rwa [run] at grounded

theorem outOfFuel : (outOfFuel : Exec α).Grounds size done :=
  fun _ _ _ => trivial

theorem pure {value : α} (holds : ∀ more, size ≤ more → done more value) :
    (Pure.pure value : Exec α).Grounds size done :=
  fun _ formed enough => ⟨formed, enough, holds _ enough⟩

theorem fail (error : RuntimeError) : (fail error : Exec α).Grounds size done :=
  fun _ formed enough => ⟨formed, enough⟩

/-- What the first action leaves is where the second begins, so that may rely on the frames added by
then. -/
theorem bind {action : Exec α} {rest : α → Exec β} (first : action.Grounds size done)
    (second : ∀ more value, size ≤ more → done more value → (rest value).Grounds more next) :
    (action >>= rest).Grounds size next := by
  intro machine formed enough
  have grounded := first machine formed enough
  cases run : action machine with
  | outOfFuel =>
      rw [bind_outOfFuel run]
      trivial
  | failed error after =>
      rw [run] at grounded
      rw [bind_failed run]
      exact grounded
  | done value after =>
      rw [run] at grounded
      rw [bind_done run]
      obtain ⟨formed, more, holds⟩ := grounded
      have ended := second _ value more holds after formed (Nat.le_refl _)
      cases outcome : rest value after with
      | outOfFuel => trivial
      | failed error last =>
          rw [outcome] at ended
          exact ⟨ended.1, Nat.le_trans more ended.2⟩
      | done given last =>
          rw [outcome] at ended
          exact ⟨ended.1, Nat.le_trans more ended.2.1, ended.2.2⟩

theorem ofExcept {result : Except Fault Value} (line : Nat)
    (below : ∀ value, result = .ok value → value.Below size) :
    (ofExcept line result).Grounds size Value.Below := by
  cases result with
  | ok value => exact .pure fun _ more => (below value rfl).of_le more
  | error fault => exact .fail ⟨fault, line⟩

/-- The result of an operator is no closure. -/
theorem ofOperator {result : Except Fault Value} (line : Nat) (plain : PlainResult [] result) :
    (Exec.ofExcept line result).Grounds size Value.Below := by
  refine .ofExcept line ?_
  rintro value rfl closure same
  exact absurd (plain closure same) List.not_mem_nil

theorem print (text : String) : (print text).Grounds size fun _ _ => True :=
  fun _ formed enough => ⟨formed, enough, trivial⟩

theorem lookup (name : Name) (ref : FrameRef) : (lookup name ref).Grounds size Value.Below := by
  intro machine formed enough
  rw [Exec.lookup, Store.get]
  cases found : machine.store.nearest? ref name.text with
  | none => exact ⟨formed, enough⟩
  | some entry =>
      obtain ⟨owner, slot⟩ := entry
      cases slot with
      | uninitialized => exact ⟨formed, enough⟩
      | bound value => exact ⟨formed, enough, formed.nearest found⟩

theorem define (ref : FrameRef) (name : Name) {value : Option Value}
    (below : ∀ given ∈ value, given.Below size) :
    (define ref name value).Grounds size fun _ _ => True := by
  intro machine formed enough
  refine ⟨formed.define ref name.text fun given member =>
    (below given member).of_le enough, ?_, trivial⟩
  rwa [Store.size_define]

theorem defineValue (ref : FrameRef) (name : Name) {value : Value} (below : value.Below size) :
    (Exec.define ref name (some value)).Grounds size fun _ _ => True :=
  define ref name fun _ same => Option.some.inj same ▸ below

theorem assign (ref : FrameRef) (name : Name) {value : Value} (below : value.Below size) :
    (assign ref name value).Grounds size fun _ _ => True := by
  intro machine formed enough
  rw [Exec.assign]
  cases machine.store.nearest? ref name.text with
  | none => exact ⟨formed, enough⟩
  | some entry => exact defineValue entry.1 name below machine formed enough

/-- A new frame is there when its reference is handed out. -/
theorem newChild (inside : ref.index < size) :
    (newChild ref).Grounds size fun size (inner : FrameRef) => inner.index < size := by
  intro machine formed enough
  have added : machine.store.frames.size < (machine.store.addChild ref).2.frames.size := by
    simp [Store.addChild]
  refine ⟨formed.addFrame ?_, Nat.le_trans enough (Nat.le_of_lt added), added⟩
  rintro _ ⟨⟩
  exact Nat.lt_of_lt_of_le inside enough

theorem makeClosure (decl : FunctionDecl) (inside : ref.index < size) :
    (makeClosure decl ref).Grounds size fun size closure =>
    (Value.function (.closure closure)).Below size := by
  intro machine formed enough
  refine ⟨⟨formed.older, formed.scopes⟩, enough, ?_⟩
  rintro closure ⟨⟩
  exact Nat.lt_of_lt_of_le inside enough

theorem bindParameters (ref : FrameRef) (parameters : List Name) {arguments : List Value}
    (all : ∀ argument ∈ arguments, argument.Below size) :
    (bindParameters ref parameters arguments).Grounds size fun _ _ => True := by
  induction parameters generalizing arguments size with
  | nil => exact .pure fun _ _ => trivial
  | cons parameter parameters ih =>
      cases arguments with
      | nil => exact .pure fun _ _ => trivial
      | cons argument arguments =>
          obtain ⟨below, all⟩ := List.forall_mem_cons.mp all
          refine .bind (.defineValue ref parameter below) fun more _ le _ => ?_
          exact ih fun argument member => (all argument member).of_le le

/-- The frame that the body of a closure is executed in is there when the parameters are bound. -/
theorem enter {closure : Closure} (inside : closure.scope.index < size) {arguments : List Value}
    (all : ∀ argument ∈ arguments, argument.Below size) :
    (Interpreter.enter closure arguments).Grounds size fun size (inner : FrameRef) =>
      inner.index < size := by
  refine .bind (.newChild inside) fun more inner le here => ?_
  refine .bind (.bindParameters inner _ fun argument member => (all argument member).of_le le)
    fun most _ le _ => ?_
  exact .pure fun _ le' => Nat.lt_of_lt_of_le here (Nat.le_trans le le')

theorem nested {action : Exec α} (limit line : Nat) (grounds : action.Grounds size done) :
    (nested limit line action).Grounds size done := by
  intro machine formed enough
  by_cases full : limit ≤ machine.callDepth
  · rw [Exec.nested, if_pos full]
    exact ⟨formed, enough⟩
  · rw [Exec.nested, if_neg full]
    have grounded := grounds { machine with callDepth := machine.callDepth + 1 } formed enough
    cases run : action { machine with callDepth := machine.callDepth + 1 } with
    | outOfFuel => trivial
    | failed error after =>
        rw [run] at grounded
        exact grounded
    | done value after =>
        rw [run] at grounded
        exact grounded

theorem callNative {host : Host} (grounded : ∀ function ∈ host.functions, function.Grounded)
    (native : Native) {arguments : List Value} (line : Nat)
    (all : ∀ argument ∈ arguments, argument.Below size) :
    (callNative host native arguments line).Grounds size Value.Below := by
  rw [Exec.callNative]
  cases found : host.functions[native.id]? with
  | none => exact .pure fun _ _ => Value.below_of_ne (by rintro _ ⟨⟩)
  | some function =>
      have makesNone := grounded function (Array.mem_of_getElem? found)
      simp only
      cases action : function.action with
      | compute result =>
          exact .ofExcept line fun value => makesNone result size arguments value action all
      | readClock =>
          exact fun _ formed enough =>
            ⟨⟨formed.older, formed.scopes⟩, enough, Value.below_of_ne (by rintro _ ⟨⟩)⟩

theorem callResult {flow : Flow} (below : flow.Below size) :
    (Interpreter.callResult flow).Grounds size Value.Below := by
  cases flow with
  | normal => exact .pure fun _ _ => Value.below_of_ne (by rintro _ ⟨⟩)
  | returning value line => exact .pure fun _ more => Value.Below.of_le below more
  | breaking signal => exact .fail _
  | continuing signal => exact .fail _

end Exec.Grounds

namespace Interpreter

open Exec

/-! ### The evaluator -/

/-- Code that runs in a frame of a well-formed store leaves such a store, and gives back nothing but
frames of it. -/
structure Grounding (host : Host) (fuel : Nat) : Prop where
  evaluate : ∀ size expr (ref : FrameRef), ref.index < size →
    (evaluate host fuel expr ref).Grounds size Value.Below
  evaluateAll : ∀ size exprs (ref : FrameRef), ref.index < size →
    (evaluateAll host fuel exprs ref).Grounds size fun size values =>
      ∀ value ∈ values, value.Below size
  callValue : ∀ size (callee : Value) (arguments : List Value) line, callee.Below size →
    (∀ argument ∈ arguments, argument.Below size) →
      (callValue host fuel callee arguments line).Grounds size Value.Below
  runClosure : ∀ size (closure : Closure) (arguments : List Value), closure.scope.index < size →
    (∀ argument ∈ arguments, argument.Below size) →
      (runClosure host fuel closure arguments).Grounds size Flow.Below
  execute : ∀ size stmt (ref : FrameRef), ref.index < size →
    (execute host fuel stmt ref).Grounds size Flow.Below
  executeAll : ∀ size body (ref : FrameRef), ref.index < size →
    (executeAll host fuel body ref).Grounds size Flow.Below
  repeatWhile : ∀ size condition body (ref : FrameRef), ref.index < size →
    (repeatWhile host fuel condition body ref).Grounds size Flow.Below

variable {host : Host} {size fuel : Nat} {ref : FrameRef}

section Step

variable (ih : Grounding host fuel)
include ih

theorem evaluate_grounds (expr : Expr) (inside : ref.index < size) :
    (evaluate host (fuel + 1) expr ref).Grounds size Value.Below := by
  cases expr with
  | literal value => exact .pure fun more _ => Value.below_ofLiteral more value
  | group inner => exact ih.evaluate size inner ref inside
  | unary op line operand =>
      rw [Interpreter.evaluate]
      refine .bind (ih.evaluate size operand ref inside) fun _ value _ _ => ?_
      exact .ofOperator line (op.apply_plain value [])
  | binary op line left right =>
      rw [Interpreter.evaluate]
      refine .bind (ih.evaluate size left ref inside) fun more first le _ => ?_
      refine .bind (ih.evaluate more right ref (Nat.lt_of_lt_of_le inside le))
        fun _ second _ _ => ?_
      exact .ofOperator line (op.apply_plain first second [])
  | logical op left right =>
      rw [Interpreter.evaluate]
      refine .bind (ih.evaluate size left ref inside) fun more first le below => ?_
      split
      · exact .pure fun _ le => below.of_le le
      · exact ih.evaluate more right ref (Nat.lt_of_lt_of_le inside le)
  | «variable» name => exact .lookup name ref
  | assign name value =>
      rw [Interpreter.evaluate]
      refine .bind (ih.evaluate size value ref inside) fun more given _ below => ?_
      exact .bind (.assign ref name below) fun _ _ le _ =>
        .pure fun _ le' => below.of_le (Nat.le_trans le le')
  | call callee arguments closeLine =>
      rw [Interpreter.evaluate]
      refine .bind (ih.evaluate size callee ref inside) fun more function le below => ?_
      refine .bind (ih.evaluateAll more arguments ref (Nat.lt_of_lt_of_le inside le))
        fun most values le all => ?_
      exact ih.callValue most function values closeLine (below.of_le le) all

theorem evaluateAll_grounds (exprs : List Expr) (inside : ref.index < size) :
    (evaluateAll host (fuel + 1) exprs ref).Grounds size fun size values =>
      ∀ value ∈ values, value.Below size := by
  cases exprs with
  | nil => exact .pure fun _ _ => List.forall_mem_nil _
  | cons expr rest =>
      rw [Interpreter.evaluateAll]
      refine .bind (ih.evaluate size expr ref inside) fun more value le below => ?_
      refine .bind (ih.evaluateAll more rest ref (Nat.lt_of_lt_of_le inside le))
        fun most values le all => ?_
      refine .pure fun last le' => List.forall_mem_cons.mpr ⟨below.of_le (Nat.le_trans le le'), ?_⟩
      exact fun value member => (all value member).of_le le'

theorem callValue_grounds (grounded : ∀ function ∈ host.functions, function.Grounded)
    {callee : Value} {arguments : List Value} (line : Nat) (below : callee.Below size)
    (all : ∀ argument ∈ arguments, argument.Below size) :
    (callValue host (fuel + 1) callee arguments line).Grounds size Value.Below := by
  cases callee with
  | function callee =>
      simp only [Interpreter.callValue]
      split
      · exact .fail _
      · cases callee with
        | native native => exact .callNative grounded native line all
        | closure closure =>
            have body := ih.runClosure size closure arguments (below closure rfl) all
            exact .bind (.nested _ line body) fun _ flow _ below => .callResult below
  | nil | bool value | number value | text value => exact .fail _

theorem runClosure_grounds {closure : Closure} {arguments : List Value}
    (inside : closure.scope.index < size) (all : ∀ argument ∈ arguments, argument.Below size) :
    (runClosure host (fuel + 1) closure arguments).Grounds size Flow.Below := by
  rw [runClosure_eq]
  exact .bind (.enter inside all) fun more inner _ here =>
    ih.executeAll more closure.decl.body inner here

theorem execute_grounds (stmt : Stmt) (inside : ref.index < size) :
    (execute host (fuel + 1) stmt ref).Grounds size Flow.Below := by
  cases stmt with
  | expression value =>
      rw [Interpreter.execute]
      exact .bind (ih.evaluate size value ref inside) fun _ _ _ _ => .pure fun _ _ => trivial
  | print value =>
      rw [Interpreter.execute]
      refine .bind (ih.evaluate size value ref inside) fun _ value _ _ => ?_
      exact .bind (.print value.render) fun _ _ _ _ => .pure fun _ _ => trivial
  | define name first =>
      cases first with
      | none =>
          rw [Interpreter.execute]
          exact .bind (.define ref name (by simp)) fun _ _ _ _ => .pure fun _ _ => trivial
      | some first =>
          rw [Interpreter.execute]
          refine .bind (ih.evaluate size first ref inside) fun more value _ below => ?_
          exact .bind (.defineValue ref name below) fun _ _ _ _ => .pure fun _ _ => trivial
  | block body =>
      rw [Interpreter.execute]
      exact .bind (.newChild inside) fun more inner _ here => ih.executeAll more body inner here
  | conditional condition thenBranch elseBranch =>
      cases elseBranch with
      | none =>
          rw [Interpreter.execute]
          refine .bind (ih.evaluate size condition ref inside) fun more value le _ => ?_
          split
          · exact ih.execute more thenBranch ref (Nat.lt_of_lt_of_le inside le)
          · exact .pure fun _ _ => trivial
      | some elseBranch =>
          rw [Interpreter.execute]
          refine .bind (ih.evaluate size condition ref inside) fun more value le _ => ?_
          split
          · exact ih.execute more thenBranch ref (Nat.lt_of_lt_of_le inside le)
          · exact ih.execute more elseBranch ref (Nat.lt_of_lt_of_le inside le)
  | loop condition body => exact ih.repeatWhile size condition body ref inside
  | breakOut line label => exact .pure fun _ _ => trivial
  | continueOn line label => exact .pure fun _ _ => trivial
  | labelled label body =>
      rw [Interpreter.execute]
      refine .bind (ih.execute size body ref inside) fun _ _ _ below => ?_
      exact .pure fun _ le => (below.catchBreak label).of_le le
  | continuePoint label body =>
      rw [Interpreter.execute]
      refine .bind (ih.execute size body ref inside) fun _ _ _ below => ?_
      exact .pure fun _ le => (below.catchContinue label).of_le le
  | function name parameters body =>
      rw [Interpreter.execute]
      refine .bind (.makeClosure ⟨name, parameters, body⟩ inside) fun more closure _ below => ?_
      exact .bind (.defineValue ref name below) fun _ _ _ _ => .pure fun _ _ => trivial
  | returning line value =>
      rw [Interpreter.execute]
      refine .bind (ih.evaluate size value ref inside) fun more result _ below => ?_
      exact .pure fun _ le => below.of_le le

theorem executeAll_grounds (body : List Stmt) (inside : ref.index < size) :
    (executeAll host (fuel + 1) body ref).Grounds size Flow.Below := by
  cases body with
  | nil => exact .pure fun _ _ => trivial
  | cons first rest =>
      rw [Interpreter.executeAll]
      refine .bind (ih.execute size first ref inside) fun more flow le below => ?_
      split
      · exact ih.executeAll more rest ref (Nat.lt_of_lt_of_le inside le)
      · exact .pure fun _ le => below.of_le le

theorem repeatWhile_grounds (condition : Expr) (body : Stmt) (inside : ref.index < size) :
    (repeatWhile host (fuel + 1) condition body ref).Grounds size Flow.Below := by
  rw [Interpreter.repeatWhile]
  refine .bind (ih.evaluate size condition ref inside) fun more value le _ => ?_
  split
  · refine .bind (ih.execute more body ref (Nat.lt_of_lt_of_le inside le))
      fun most flow le' below => ?_
    split
    · exact ih.repeatWhile most condition body ref (Nat.lt_of_lt_of_le inside (Nat.le_trans le le'))
    · exact .pure fun _ _ => trivial
    · exact .pure fun _ le => below.of_le le
  · exact .pure fun _ _ => trivial

end Step

theorem grounding (grounded : ∀ function ∈ host.functions, function.Grounded) :
    ∀ fuel, Grounding host fuel
  | 0 => by constructor <;> intros <;> exact .outOfFuel
  | fuel + 1 =>
      have ih := grounding grounded fuel
      { evaluate := fun _ expr _ => evaluate_grounds ih expr
        evaluateAll := fun _ exprs _ => evaluateAll_grounds ih exprs
        callValue := fun _ _ _ line => callValue_grounds ih grounded line
        runClosure := fun _ _ _ => runClosure_grounds ih
        execute := fun _ stmt _ => execute_grounds ih stmt
        executeAll := fun _ body _ => executeAll_grounds ih body
        repeatWhile := fun _ condition body _ => repeatWhile_grounds ih condition body }

/-! ### In the course of a run -/

/-- The frames that a task is about, and those of the closures in it, are among the first so
many. -/
def Task.Below (size : Nat) : Task → Prop
  | .evaluate _ ref | .evaluateAll _ ref | .execute _ ref | .executeAll _ ref
  | .repeatWhile _ _ ref =>
    ref.index < size
  | .callValue callee arguments _ => callee.Below size ∧ ∀ argument ∈ arguments, argument.Below size
  | .runClosure closure arguments =>
      closure.scope.index < size ∧ ∀ argument ∈ arguments, argument.Below size

section Course

variable {task next : Task} {machine middle after : Machine} {calls : Nat}
  (grounded : ∀ function ∈ host.functions, function.Grounded)
include grounded

/-- What is asked for is about frames that are there when it begins. -/
theorem Asks.grounds (asks : Asks host task machine next middle) (formed : machine.store.WellFormed)
    (below : task.Below machine.store.frames.size) :
    middle.store.WellFormed ∧ next.Below middle.store.frames.size := by
  have runs (fuel : Nat) := grounding grounded fuel
  have evaluated {fuel : Nat} {expr : Expr} {ref : FrameRef} {value : Value} {after : Machine}
      (inside : ref.index < machine.store.frames.size)
      (run : evaluate host fuel expr ref machine = .done value after) :=
    ((runs fuel).evaluate _ expr ref inside).of_done formed (Nat.le_refl _) run
  cases asks with
  | right done | undecided done _ | arguments done | otherExprs done | thenBranch done _
  | elseBranch done _
  | loopBody done _ =>
      obtain ⟨formed, le, -⟩ := evaluated below done
      exact ⟨formed, Nat.lt_of_lt_of_le below le⟩
  | call done given =>
      obtain ⟨formed, le, callee⟩ := evaluated below done
      have inside := Nat.lt_of_lt_of_le below le
      obtain ⟨formed, le, all⟩ :=
        ((runs _).evaluateAll _ _ _ inside).of_done formed (Nat.le_refl _) given
      exact ⟨formed, callee.of_le le, all⟩
  | closure fits room => exact ⟨formed, below.1 _ rfl, below.2⟩
  | body entered =>
      obtain ⟨formed, -, inside⟩ :=
        (Exec.Grounds.enter below.1 below.2).of_done formed (Nat.le_refl _) entered
      exact ⟨formed, inside⟩
  | block =>
      obtain ⟨formed, -, inside⟩ := (Exec.Grounds.newChild below).of_done formed (Nat.le_refl _) rfl
      exact ⟨formed, inside⟩
  | otherStmts done =>
      obtain ⟨formed, le, -⟩ := ((runs _).execute _ _ _ below).of_done formed (Nat.le_refl _) done
      exact ⟨formed, Nat.lt_of_lt_of_le below le⟩
  | nextRound done _ round =>
      obtain ⟨formed, le, -⟩ := evaluated below done
      have inside := Nat.lt_of_lt_of_le below le
      obtain ⟨formed, le, -⟩ := ((runs _).execute _ _ _ inside).of_done formed (Nat.le_refl _) round
      exact ⟨formed, Nat.lt_of_lt_of_le inside le⟩
  | _ => exact ⟨formed, below⟩

/-- So is whatever is run in the course of a run. -/
theorem Course.grounds (course : Course host calls task machine next after)
    (formed : machine.store.WellFormed) (below : task.Below machine.store.frames.size) :
    after.store.WellFormed ∧ next.Below after.store.frames.size := by
  induction course with
  | here => exact ⟨formed, below⟩
  | step asks _ ih =>
      obtain ⟨formed, below⟩ := asks.grounds grounded formed below
      exact ih formed below

end Course

end Interpreter

end Lox
