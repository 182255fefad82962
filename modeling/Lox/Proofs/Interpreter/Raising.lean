import Lox.Proofs.Interpreter.Escapes
import Lox.Proofs.Store.Frames
import Lox.Proofs.Syntax.Parts

/-!
Where run-time errors come from.

An expression raises the error of a name without a value, of an operator that its operands are not
for, and of a call that cannot be made; a statement raises the error of a signal that nothing takes.
In every case the error is on the line that the tree has for it (`Expr.Raises`, `Stmt.Raises`).

`asked` and `holds` are properties of expressions and statements. If all code that a run can come to
has them, that of the program and that of the closures in the store, then so has the code of all
closures that the run makes, and the error that it ends with is raised by such an expression or
statement. This is carried along the evaluator by one induction (`tracing`).
-/

namespace Lox

/-! ### What code raises -/

/-- The errors that an expression itself raises, the expressions in it apart. -/
inductive Expr.Raises : Expr → RuntimeError → Prop
  | lookup (name : Name) (fault : LookupFault) : Raises (.variable name) (fault.toError name)
  | assign (name : Name) (value : Expr) :
      Raises (.assign name value) (LookupFault.undefined.toError name)
  | unary {op : UnaryOp} {value : Value} {fault : Fault} (line : Nat) (operand : Expr)
      (wrong : op.apply value = .error fault) : Raises (.unary op line operand) ⟨fault, line⟩
  | binary {op : BinaryOp} {first second : Value} {fault : Fault} (line : Nat) (left right : Expr)
      (wrong : op.apply first second = .error fault) :
        Raises (.binary op line left right) ⟨fault, line⟩
  | notCallable (callee : Expr) (arguments : List Expr) (closeLine : Nat) (typeName : String) :
      Raises (.call callee arguments closeLine) ⟨.notCallable typeName, closeLine⟩
  | arityMismatch (callee : Expr) (arguments : List Expr) (closeLine expected got : Nat) :
      Raises (.call callee arguments closeLine) ⟨.arityMismatch expected got, closeLine⟩
  | stackOverflow (callee : Expr) (arguments : List Expr) (closeLine limit : Nat) :
      Raises (.call callee arguments closeLine) ⟨.stackOverflow limit, closeLine⟩

/-- The errors that a statement raises if nothing takes its signal. -/
inductive Stmt.Raises : Stmt → RuntimeError → Prop
  | breakOut (line : Nat) (label : Option Name) :
      Raises (.breakOut line label) (Signal.escape ⟨label.map (·.text), line⟩ "break")
  | continueOn (line : Nat) (label : Option Name) :
      Raises (.continueOn line label) (Signal.escape ⟨label.map (·.text), line⟩ "continue")
  | returning (line : Nat) (value : Expr) :
      Raises (.returning line value) ⟨.escapedSignal "return", line⟩

/-- An error that an expression or a statement with the properties raises. -/
def RuntimeError.RaisedBy (asked : Expr → Prop) (holds : Stmt → Prop) (error : RuntimeError) :
    Prop :=
  (∃ expr, asked expr ∧ expr.Raises error) ∨ ∃ stmt, holds stmt ∧ stmt.Raises error

/-! ### Code in values -/

/-- If a value is a closure, the parts of its body have the properties. -/
def Value.Coded (asked : Expr → Prop) (holds : Stmt → Prop) (value : Value) : Prop :=
  ∀ closure, value = .function (.closure closure) → ∀ stmt ∈ closure.decl.body, stmt.All asked holds

/-- All values in a store are such. -/
def Store.Coded (asked : Expr → Prop) (holds : Stmt → Prop) (store : Store) : Prop :=
  ∀ ref frame name value, store.frame? ref = some frame → (name, .bound value) ∈ frame.entries →
    value.Coded asked holds

/-- How a statement may end whose parts have the properties: a signal comes from one of them. -/
def Flow.Coded (asked : Expr → Prop) (holds : Stmt → Prop) : Flow → Prop
  | .normal => True
  | .breaking signal => ∃ stmt, holds stmt ∧ stmt.Raises (signal.escape "break")
  | .continuing signal => ∃ stmt, holds stmt ∧ stmt.Raises (signal.escape "continue")
  | .returning value line =>
    value.Coded asked holds ∧ ∃ stmt, holds stmt ∧ stmt.Raises ⟨.escapedSignal "return", line⟩

section Values

variable {asked : Expr → Prop} {holds : Stmt → Prop} {store : Store}

theorem Value.coded_of_ne {value : Value}
    (other : ∀ closure, value ≠ .function (.closure closure)) :
    value.Coded asked holds :=
  fun closure same => absurd same (other closure)

theorem Value.coded_ofLiteral (literal : Literal) :
    (Value.ofLiteral literal).Coded asked holds := by
  cases literal <;> exact Value.coded_of_ne (by rintro _ ⟨⟩)

theorem Store.Coded.define (coded : store.Coded asked holds) (owner : FrameRef) (name : String)
    {value : Option Value} (ofValue : ∀ given ∈ value, given.Coded asked holds) :
    (store.define owner name value).Coded asked holds := by
  intro ref frame other held found member
  rw [Store.frame?_define, Option.map_eq_some_iff] at found
  obtain ⟨before, found, rfl⟩ := found
  split at member
  · rcases Frame.mem_insert member with same | member
    · cases value with
      | none => cases same
      | some given =>
          cases same
          exact ofValue _ rfl
    · exact coded ref before other held found member
  · exact coded ref before other held found member

theorem Store.Coded.addFrame (coded : store.Coded asked holds) (parent : Option FrameRef) :
    (store.addFrame parent).2.Coded asked holds := by
  intro ref frame name value found member
  rw [Store.frame?_addFrame] at found
  split at found
  · cases found
    cases member
  · exact coded ref frame name value found member

theorem Store.Coded.nearest (coded : store.Coded asked holds) {ref owner : FrameRef} {name : String}
    {value : Value} (found : store.nearest? ref name = some (owner, .bound value)) :
    value.Coded asked holds := by
  obtain ⟨-, frame, here, member⟩ :=
    Store.search_within (fun _ => True) (fun _ _ _ _ _ _ => trivial) trivial found
  exact coded owner frame name value here member

end Values

/-! ### Actions -/

/-- From a store with such code an action comes to another, with a value as promised or with an
error that such code raises. -/
def Exec.Traces {α : Type} (asked : Expr → Prop) (holds : Stmt → Prop) (done : α → Prop)
    (action : Exec α) :
    Prop :=
  ∀ machine, machine.store.Coded asked holds →
    match action machine with
    | .done value after => after.store.Coded asked holds ∧ done value
    | .failed error after => after.store.Coded asked holds ∧ error.RaisedBy asked holds
    | .outOfFuel => True

namespace Exec.Traces

open Exec

variable {α β : Type} {asked : Expr → Prop} {holds : Stmt → Prop} {done : α → Prop}
    {next : β → Prop}

theorem outOfFuel : (outOfFuel : Exec α).Traces asked holds done :=
  fun _ _ => trivial

theorem pure {value : α} (given : done value) :
    (Pure.pure value : Exec α).Traces asked holds done :=
  fun _ coded => ⟨coded, given⟩

theorem fail {error : RuntimeError} (raised : error.RaisedBy asked holds) :
    (fail error : Exec α).Traces asked holds done :=
  fun _ coded => ⟨coded, raised⟩

theorem bind {action : Exec α} {rest : α → Exec β} (first : action.Traces asked holds done)
    (second : ∀ value, done value → (rest value).Traces asked holds next) :
    (action >>= rest).Traces asked holds next := by
  intro machine coded
  have traced := first machine coded
  change match andThen action rest machine with | .done .. => _ | .failed .. => _ | .outOfFuel => _
  rw [andThen]
  cases result : action machine with
  | outOfFuel => trivial
  | failed error after => rwa [result] at traced
  | done value after =>
      rw [result] at traced
      exact second value traced.2 after traced.1

/-- The result of an operator is no closure, and its fault is raised where the operator stands. -/
theorem ofExcept {result : Except Fault Value} {line : Nat} (plain : PlainResult [] result)
    (raised : ∀ fault, result = .error fault → RuntimeError.RaisedBy asked holds ⟨fault, line⟩) :
    (ofExcept line result).Traces asked holds (Value.Coded asked holds) := by
  cases result with
  | ok value => exact .pure fun closure same => absurd (plain closure same) List.not_mem_nil
  | error fault => exact .fail (raised fault rfl)

theorem print (text : String) : (print text).Traces asked holds fun _ => True :=
  fun _ coded => ⟨coded, trivial⟩

theorem lookup {name : Name} (ref : FrameRef) (ofName : asked (.variable name)) :
    (lookup name ref).Traces asked holds (Value.Coded asked holds) := by
  intro machine coded
  have raises (fault : LookupFault) : (fault.toError name).RaisedBy asked holds :=
    .inl ⟨_, ofName, .lookup name fault⟩
  rw [Exec.lookup, Store.get]
  cases found : machine.store.nearest? ref name.text with
  | none => exact ⟨coded, raises _⟩
  | some entry =>
      obtain ⟨owner, slot⟩ := entry
      cases slot with
      | uninitialized => exact ⟨coded, raises _⟩
      | bound value => exact ⟨coded, coded.nearest found⟩

theorem define (ref : FrameRef) (name : Name) {value : Option Value}
    (ofValue : ∀ given ∈ value, given.Coded asked holds) :
    (define ref name value).Traces asked holds fun _ => True :=
  fun _ coded => ⟨coded.define ref name.text ofValue, trivial⟩

theorem assign {name : Name} {expr : Expr} (ref : FrameRef) (ofName : asked (.assign name expr))
    {value : Value} (ofValue : value.Coded asked holds) :
    (assign ref name value).Traces asked holds fun _ => True := by
  intro machine coded
  rw [Exec.assign]
  cases machine.store.nearest? ref name.text with
  | none => exact ⟨coded, .inl ⟨_, ofName, .assign name expr⟩⟩
  | some entry =>
      refine ⟨coded.define entry.1 name.text ?_, trivial⟩
      rintro given ⟨⟩
      exact ofValue

theorem newChild (parent : FrameRef) : (newChild parent).Traces asked holds fun _ => True :=
  fun _ coded => ⟨coded.addFrame (some parent), trivial⟩

theorem makeClosure {decl : FunctionDecl} (scope : FrameRef)
    (ofBody : ∀ stmt ∈ decl.body, stmt.All asked holds) :
    (makeClosure decl scope).Traces asked holds fun closure =>
      (Value.function (.closure closure)).Coded asked holds := by
  intro machine coded
  refine ⟨coded, ?_⟩
  rintro closure ⟨⟩
  exact ofBody

theorem bindParameters (ref : FrameRef) (parameters : List Name) {arguments : List Value}
    (all : ∀ argument ∈ arguments, argument.Coded asked holds) :
    (bindParameters ref parameters arguments).Traces asked holds fun _ => True := by
  induction parameters generalizing arguments with
  | nil => exact .pure trivial
  | cons parameter parameters ih =>
      cases arguments with
      | nil => exact .pure trivial
      | cons argument arguments =>
          obtain ⟨ofFirst, all⟩ := List.forall_mem_cons.mp all
          refine .bind (.define ref parameter ?_) fun _ _ => ih all
          rintro given ⟨⟩
          exact ofFirst

/-- A call that is refused is an error of the call. -/
theorem nested {action : Exec α} (limit : Nat) {line : Nat}
    (refused : RuntimeError.RaisedBy asked holds ⟨.stackOverflow limit, line⟩)
    (traces : action.Traces asked holds done) :
    (nested limit line action).Traces asked holds done := by
  intro machine coded
  by_cases full : limit ≤ machine.callDepth
  · rw [Exec.nested, if_pos full]
    exact ⟨coded, refused⟩
  · rw [Exec.nested, if_neg full]
    have traced := traces { machine with callDepth := machine.callDepth + 1 } coded
    cases result : action { machine with callDepth := machine.callDepth + 1 } with
    | outOfFuel => trivial
    | failed error after =>
        rw [result] at traced
        exact traced
    | done value after =>
        rw [result] at traced
        exact traced

/-- Reading the clock makes no error. -/
theorem callNative {host : Host} (reads : ∀ function ∈ host.functions, function.action = .readClock)
    (native : Native) (arguments : List Value) (line : Nat) :
    (callNative host native arguments line).Traces asked holds (Value.Coded asked holds) := by
  rw [Exec.callNative]
  cases found : host.functions[native.id]? with
  | none => exact .pure (Value.coded_of_ne (by rintro _ ⟨⟩))
  | some function =>
      simp only [reads function (Array.mem_of_getElem? found)]
      exact fun _ coded => ⟨coded, Value.coded_of_ne (by rintro _ ⟨⟩)⟩

theorem callResult {flow : Flow} (coded : flow.Coded asked holds) :
    (Interpreter.callResult flow).Traces asked holds (Value.Coded asked holds) := by
  cases flow with
  | normal => exact .pure (Value.coded_of_ne (by rintro _ ⟨⟩))
  | breaking signal => exact .fail (.inr coded)
  | continuing signal => exact .fail (.inr coded)
  | returning value line => exact .pure coded.1

end Exec.Traces

/-! ### The evaluator -/

section Flows

variable {asked : Expr → Prop} {holds : Stmt → Prop} {flow : Flow}

theorem Flow.Coded.catchBreak (coded : flow.Coded asked holds) (label : Name) :
    (Interpreter.catchBreak label flow).Coded asked holds := by
  unfold Interpreter.catchBreak
  split
  · split
    · trivial
    · exact coded
  · exact coded

theorem Flow.Coded.catchContinue (coded : flow.Coded asked holds) (label : Option Name) :
    (Interpreter.catchContinue label flow).Coded asked holds := by
  unfold Interpreter.catchContinue
  split
  · split
    · trivial
    · exact coded
  · exact coded

end Flows

namespace Interpreter

open Exec

/-- The evaluator is traced, on code with the properties. A call is made for an expression that asks
for it. -/
structure Tracing (host : Host) (asked : Expr → Prop) (holds : Stmt → Prop) (fuel : Nat) :
    Prop where
  evaluate : ∀ (expr : Expr) ref, expr.All asked →
    (evaluate host fuel expr ref).Traces asked holds (Value.Coded asked holds)
  evaluateAll : ∀ (exprs : List Expr) ref, (∀ expr ∈ exprs, expr.All asked) →
    (evaluateAll host fuel exprs ref).Traces asked holds (∀ value ∈ ·, value.Coded asked holds)
  callValue : ∀ callee arguments line, callee.Coded asked holds →
    (∀ argument ∈ arguments, argument.Coded asked holds) →
    (∃ expr given, asked (.call expr given line)) →
      (callValue host fuel callee arguments line).Traces asked holds (Value.Coded asked holds)
  runClosure : ∀ closure arguments, (∀ stmt ∈ closure.decl.body, stmt.All asked holds) →
    (∀ argument ∈ arguments, argument.Coded asked holds) →
      (runClosure host fuel closure arguments).Traces asked holds (Flow.Coded asked holds)
  execute : ∀ (stmt : Stmt) ref, stmt.All asked holds →
    (execute host fuel stmt ref).Traces asked holds (Flow.Coded asked holds)
  executeAll : ∀ (body : List Stmt) ref, (∀ stmt ∈ body, stmt.All asked holds) →
    (executeAll host fuel body ref).Traces asked holds (Flow.Coded asked holds)
  repeatWhile : ∀ (condition : Expr) (body : Stmt) ref, condition.All asked → body.All asked holds →
    (repeatWhile host fuel condition body ref).Traces asked holds (Flow.Coded asked holds)

variable {host : Host} {asked : Expr → Prop} {holds : Stmt → Prop} {fuel : Nat}

theorem evaluate_traces (ih : Tracing host asked holds fuel) (expr : Expr) (ref : FrameRef)
    (all : expr.All asked) :
    (evaluate host (fuel + 1) expr ref).Traces asked holds (Value.Coded asked holds) := by
  cases all with
  | literal here => exact .pure (Value.coded_ofLiteral _)
  | group here ofInner => exact ih.evaluate _ ref ofInner
  | @unary op line operand here ofOperand =>
      rw [Interpreter.evaluate]
      refine .bind (ih.evaluate operand ref ofOperand) fun value _ => ?_
      exact .ofExcept (op.apply_plain value []) fun fault wrong =>
        .inl ⟨_, here, .unary line operand wrong⟩
  | @binary op line left right here ofLeft ofRight =>
      rw [Interpreter.evaluate]
      refine .bind (ih.evaluate left ref ofLeft) fun first _ => ?_
      refine .bind (ih.evaluate right ref ofRight) fun second _ => ?_
      exact .ofExcept (op.apply_plain first second []) fun fault wrong =>
        .inl ⟨_, here, .binary line left right wrong⟩
  | logical here ofLeft ofRight =>
      rw [Interpreter.evaluate]
      refine .bind (ih.evaluate _ ref ofLeft) fun first coded => ?_
      split
      · exact .pure coded
      · exact ih.evaluate _ ref ofRight
  | «variable» here =>
      rw [Interpreter.evaluate]
      exact .lookup ref here
  | assign here ofValue =>
      rw [Interpreter.evaluate]
      refine .bind (ih.evaluate _ ref ofValue) fun given coded => ?_
      exact .bind (.assign ref here coded) fun _ _ => .pure coded
  | call here ofCallee ofArguments =>
      rw [Interpreter.evaluate]
      refine .bind (ih.evaluate _ ref ofCallee) fun callee coded => ?_
      refine .bind (ih.evaluateAll _ ref ofArguments) fun arguments allCoded => ?_
      exact ih.callValue callee arguments _ coded allCoded ⟨_, _, here⟩

theorem callValue_traces (reads : ∀ function ∈ host.functions, function.action = .readClock)
    (ih : Tracing host asked holds fuel) {callee : Value} {arguments : List Value} {line : Nat}
    (coded : callee.Coded asked holds) (all : ∀ argument ∈ arguments, argument.Coded asked holds)
    (call : ∃ expr given, asked (.call expr given line)) :
    (callValue host (fuel + 1) callee arguments line).Traces asked holds
    (Value.Coded asked holds) := by
  obtain ⟨expr, given, here⟩ := call
  have notCallable (value : Value) :
      RuntimeError.RaisedBy asked holds ⟨.notCallable value.typeName, line⟩ :=
    .inl ⟨_, here, .notCallable expr given line _⟩
  cases callee with
  | function callee =>
      simp only [Interpreter.callValue]
      split
      · exact .fail (.inl ⟨_, here, .arityMismatch expr given line _ _⟩)
      · cases callee with
        | native native => exact .callNative reads native arguments line
        | closure closure =>
            have body := ih.runClosure closure arguments (coded closure rfl) all
            refine .bind (.nested _ (.inl ⟨_, here, .stackOverflow expr given line _⟩) body) ?_
            exact fun flow coded => .callResult coded
  | nil => exact .fail (notCallable .nil)
  | bool value => exact .fail (notCallable (.bool value))
  | number value => exact .fail (notCallable (.number value))
  | text value => exact .fail (notCallable (.text value))

theorem execute_traces (ih : Tracing host asked holds fuel) (stmt : Stmt) (ref : FrameRef)
    (all : stmt.All asked holds) :
    (execute host (fuel + 1) stmt ref).Traces asked holds (Flow.Coded asked holds) := by
  cases all with
  | expression here ofValue =>
      rw [Interpreter.execute]
      exact .bind (ih.evaluate _ ref ofValue) fun _ _ => .pure trivial
  | print here ofValue =>
      rw [Interpreter.execute]
      refine .bind (ih.evaluate _ ref ofValue) fun value _ => ?_
      exact .bind (.print value.render) fun _ _ => .pure trivial
  | @define name first here ofFirst =>
      cases first with
      | none =>
          rw [Interpreter.execute]
          exact .bind (.define ref name (by simp)) fun _ _ => .pure trivial
      | some first =>
          rw [Interpreter.execute]
          refine .bind (ih.evaluate first ref (ofFirst first rfl)) fun value coded => ?_
          refine .bind (.define ref name ?_) fun _ _ => .pure trivial
          rintro given ⟨⟩
          exact coded
  | block here ofBody =>
      rw [Interpreter.execute]
      exact .bind (.newChild ref) fun inner _ => ih.executeAll _ inner ofBody
  | @conditional condition thenBranch elseBranch here ofCondition ofThenBranch ofElseBranch =>
      cases elseBranch with
      | none =>
          rw [Interpreter.execute]
          refine .bind (ih.evaluate condition ref ofCondition) fun value _ => ?_
          split
          · exact ih.execute thenBranch ref ofThenBranch
          · exact .pure trivial
      | some elseBranch =>
          rw [Interpreter.execute]
          refine .bind (ih.evaluate condition ref ofCondition) fun value _ => ?_
          split
          · exact ih.execute thenBranch ref ofThenBranch
          · exact ih.execute elseBranch ref (ofElseBranch elseBranch rfl)
  | loop here ofCondition ofBody => exact ih.repeatWhile _ _ ref ofCondition ofBody
  | breakOut here => exact .pure ⟨_, here, .breakOut _ _⟩
  | continueOn here => exact .pure ⟨_, here, .continueOn _ _⟩
  | labelled here ofBody =>
      rw [Interpreter.execute]
      exact .bind (ih.execute _ ref ofBody) fun flow coded => .pure (coded.catchBreak _)
  | continuePoint here ofBody =>
      rw [Interpreter.execute]
      exact .bind (ih.execute _ ref ofBody) fun flow coded => .pure (coded.catchContinue _)
  | @function name parameters body here ofBody =>
      rw [Interpreter.execute]
      refine .bind (.makeClosure ref ofBody) fun closure coded => ?_
      refine .bind (.define ref name ?_) fun _ _ => .pure trivial
      rintro given ⟨⟩
      exact coded
  | @returning line value here ofValue =>
      rw [Interpreter.execute]
      refine .bind (ih.evaluate value ref ofValue) fun result coded => ?_
      exact .pure ⟨coded, _, here, .returning line value⟩

theorem tracing (reads : ∀ function ∈ host.functions, function.action = .readClock)
    (asked : Expr → Prop) (holds : Stmt → Prop) : ∀ fuel, Tracing host asked holds fuel
  | 0 => by constructor <;> intros <;> exact .outOfFuel
  | fuel + 1 => by
      have ih := tracing reads asked holds fuel
      constructor
      case evaluate => exact evaluate_traces ih
      case evaluateAll =>
        intro exprs ref all
        cases exprs with
        | nil => exact .pure (by simp)
        | cons expr rest =>
            obtain ⟨ofFirst, ofRest⟩ := List.forall_mem_cons.mp all
            rw [Interpreter.evaluateAll]
            refine .bind (ih.evaluate expr ref ofFirst) fun value coded => ?_
            refine .bind (ih.evaluateAll rest ref ofRest) fun values allCoded => ?_
            exact .pure (List.forall_mem_cons.mpr ⟨coded, allCoded⟩)
      case callValue => exact fun _ _ _ => callValue_traces reads ih
      case runClosure =>
        intro closure arguments ofBody all
        rw [Interpreter.runClosure]
        refine .bind (.newChild closure.scope) fun ref _ => ?_
        refine .bind (.bindParameters ref _ all) fun _ _ => ?_
        exact ih.executeAll closure.decl.body ref ofBody
      case execute => exact execute_traces ih
      case executeAll =>
        intro body ref all
        cases body with
        | nil => exact .pure trivial
        | cons first rest =>
            obtain ⟨ofFirst, ofRest⟩ := List.forall_mem_cons.mp all
            rw [Interpreter.executeAll]
            refine .bind (ih.execute first ref ofFirst) fun flow coded => ?_
            split
            · exact ih.executeAll rest ref ofRest
            · exact .pure coded
      case repeatWhile =>
        intro condition body ref ofCondition ofBody
        rw [Interpreter.repeatWhile]
        refine .bind (ih.evaluate condition ref ofCondition) fun value _ => ?_
        split
        · refine .bind (ih.execute body ref ofBody) fun flow coded => ?_
          split
          · exact ih.repeatWhile condition body ref ofCondition ofBody
          · exact .pure trivial
          · exact .pure coded
        · exact .pure trivial

/-! ### Runs -/

theorem executeIn_traces (reads : ∀ function ∈ host.functions, function.action = .readClock)
    {program : List Stmt} (all : ∀ stmt ∈ program, stmt.All asked holds) (fuel : Nat)
    (ref : FrameRef) :
    (executeIn host fuel program ref).Traces asked holds fun _ => True := by
  intro machine coded
  have runs := (tracing reads asked holds fuel).executeAll program ref all
  refine Exec.Traces.bind runs (fun flow coded => ?_) { machine with callDepth := 0 } coded
  cases flow with
  | normal => exact .pure trivial
  | breaking signal => exact .fail (.inr coded)
  | continuing signal => exact .fail (.inr coded)
  | returning value line => exact .fail (.inr coded.2)

theorem interpret_traces (reads : ∀ function ∈ host.functions, function.action = .readClock)
    {program : List Stmt} (all : ∀ stmt ∈ program, stmt.All asked holds) (fuel : Nat) :
    (interpret host fuel program).Traces asked holds fun _ => True :=
  .bind (.newChild globals) fun ref _ => executeIn_traces reads all fuel ref

/-- The error of a run with a new interpreter is raised by the program. -/
theorem interpret_raises {clock : Nat → Float} {limit fuel : Nat} {program : List Stmt}
    {error : RuntimeError} {after : Machine} (all : ∀ stmt ∈ program, stmt.All asked holds)
    (run : interpret (build [] clock limit).host fuel program (build [] clock limit).machine =
      .failed error after) :
    error.RaisedBy asked holds := by
  have empty : Store.empty.Coded asked holds := by
    intro ref frame name value found
    simp [Store.frame?, Store.empty] at found
  have coded : (build [] clock limit).machine.store.Coded asked holds := by
    refine (empty.addFrame none).define globals "clock" ?_
    rintro given ⟨⟩
    exact Value.coded_of_ne (by rintro _ ⟨⟩)
  have traced := interpret_traces (reads_build clock limit) all fuel _ coded
  rw [run] at traced
  exact traced.2

end Interpreter

end Lox
