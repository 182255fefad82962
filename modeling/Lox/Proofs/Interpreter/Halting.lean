import Lox.Proofs.Interpreter.Limits
import Lox.Proofs.Interpreter.Raising

/-!
Programs without loops.

A program in which nothing is repeated by a loop can repeat itself by calls only, and the limit on
calls in progress bounds these. `Halts` says of something that is run with fuel that it comes to an
end, and that no loops and no calls in progress have been added when it does. The induction has two
levels. The outer one is on the room that is left for calls: the body of a closure comes from the
store and may be larger than the code that calls it, or that code itself, but it runs with one call
less to spare (`executeAll_halts`). Within one call the code that runs becomes smaller
(`evaluate_halts`, `execute_halts`).

What makes the outer level work is what every run keeps: no closure in the store has a loop in its
body.
-/

namespace Lox

/-- A statement repeats nothing: neither it nor a statement in it is a loop, those in function
bodies included. -/
def Stmt.LoopFree (stmt : Stmt) : Prop :=
  stmt.All (fun _ => True) fun part => ∀ condition body, part ≠ .loop condition body

/-- If a value is a closure, its body has no loop. -/
def Value.LoopFree (value : Value) : Prop :=
  value.Coded (fun _ => True) fun part => ∀ condition body, part ≠ .loop condition body

/-- No closure that is bound in a store has a loop in its body. -/
def Store.LoopFree (store : Store) : Prop :=
  store.Coded (fun _ => True) fun part => ∀ condition body, part ≠ .loop condition body

/-- No value that a statement returns is a closure with a loop. -/
def Flow.LoopFree : Flow → Prop
  | .returning value _ => value.LoopFree
  | _ => True

/-- A function of the host makes no closure with a loop out of values that have none. -/
def HostFunction.LoopFree (function : HostFunction) : Prop :=
  ∀ result arguments value, function.action = .compute result →
    (∀ argument ∈ arguments, argument.LoopFree) → result arguments = .ok value → value.LoopFree

namespace Interpreter

open Exec

variable {α β : Type} {host : Host} {depth : Nat}

/-- How an action may end: without loops in the store, and with so many calls in progress. -/
def Outcome.Settled (depth : Nat) (done : α → Prop) : Outcome α → Prop
  | .done value after => after.store.LoopFree ∧ after.callDepth = depth ∧ done value
  | .failed _ after => after.store.LoopFree ∧ after.callDepth = depth
  | .outOfFuel => False

/-- From every machine without loops in its store and with so many calls in progress, an action
comes to an end with enough fuel. It leaves such a machine, and its value, if any, is as
promised. -/
def Halts (depth : Nat) (done : α → Prop) (run : Nat → Exec α) : Prop :=
  ∀ machine : Machine, machine.store.LoopFree → machine.callDepth = depth →
    ∃ outcome, Ends run machine outcome ∧ Outcome.Settled depth done outcome

namespace Halts

variable {done : α → Prop} {next : β → Prop}

/-- An action that takes no fuel. -/
theorem const {action : Exec α} (settled : ∀ machine : Machine, machine.store.LoopFree →
    machine.callDepth = depth → Outcome.Settled depth done (action machine)) :
    Halts depth done fun _ => action := by
  intro machine free calls
  have ends := settled machine free calls
  refine ⟨action machine, .const (fun starved => ?_) rfl, ends⟩
  rw [starved] at ends
  exact ends

theorem pure {value : α} (given : done value) :
    Halts depth done fun _ => (Pure.pure value : Exec α) :=
  const fun _ free calls => ⟨free, calls, given⟩

theorem fail (error : RuntimeError) : Halts depth done fun _ => (fail error : Exec α) :=
  const fun _ free calls => ⟨free, calls⟩

theorem step {run : Nat → Exec α} (halts : Halts depth done fun fuel => run (fuel + 1)) :
    Halts depth done run := by
  intro machine free calls
  obtain ⟨outcome, ends, settled⟩ := halts machine free calls
  exact ⟨outcome, Ends.step.mp ends, settled⟩

theorem bind {run : Nat → Exec α} {rest : Nat → α → Exec β} (first : Halts depth done run)
    (second : ∀ value, done value → Halts depth next (rest · value)) :
    Halts depth next fun fuel => run fuel >>= rest fuel := by
  intro machine free calls
  obtain ⟨outcome, ends, settled⟩ := first machine free calls
  cases outcome with
  | done value middle =>
      obtain ⟨free, calls, given⟩ := settled
      obtain ⟨outcome, endsRest, settled⟩ := second value given middle free calls
      exact ⟨outcome, ends.bind endsRest, settled⟩
  | failed error middle => exact ⟨_, ends.bindFailed, settled⟩
  | outOfFuel => exact settled.elim

theorem ofExcept {result : Except Fault Value} (line : Nat)
    (free : ∀ value, result = .ok value → value.LoopFree) :
    Halts depth Value.LoopFree fun _ => ofExcept line result := by
  cases result with
  | ok value => exact .pure (free value rfl)
  | error fault => exact .fail ⟨fault, line⟩

/-- The result of an operator is no closure. -/
theorem ofOperator {result : Except Fault Value} (line : Nat) (plain : PlainResult [] result) :
    Halts depth Value.LoopFree fun _ => Exec.ofExcept line result := by
  refine .ofExcept line ?_
  rintro value rfl closure same
  exact absurd (plain closure same) List.not_mem_nil

theorem print (text : String) : Halts depth (fun _ => True) fun _ => print text :=
  const fun _ free calls => ⟨free, calls, trivial⟩

theorem lookup (name : Name) (ref : FrameRef) :
    Halts depth Value.LoopFree fun _ => lookup name ref := by
  refine const fun machine free calls => ?_
  rw [Exec.lookup, Store.get]
  cases found : machine.store.nearest? ref name.text with
  | none => exact ⟨free, calls⟩
  | some entry =>
      obtain ⟨owner, slot⟩ := entry
      cases slot with
      | uninitialized => exact ⟨free, calls⟩
      | bound value => exact ⟨free, calls, free.nearest found⟩

theorem define (ref : FrameRef) (name : Name) {value : Option Value}
    (given : ∀ held ∈ value, held.LoopFree) :
    Halts depth (fun _ => True) fun _ => define ref name value :=
  const fun _ free calls => ⟨free.define ref name.text given, calls, trivial⟩

theorem defineValue (ref : FrameRef) (name : Name) {value : Value} (given : value.LoopFree) :
    Halts depth (fun _ => True) fun _ => Exec.define ref name (some value) :=
  define ref name fun _ same => Option.some.inj same ▸ given

theorem assign (ref : FrameRef) (name : Name) {value : Value} (given : value.LoopFree) :
    Halts depth (fun _ => True) fun _ => assign ref name value := by
  refine const fun machine free calls => ?_
  rw [Exec.assign]
  cases machine.store.nearest? ref name.text with
  | none => exact ⟨free, calls⟩
  | some entry =>
      exact ⟨free.define entry.1 name.text fun _ same =>
        Option.some.inj same ▸ given, calls, trivial⟩

theorem newChild (parent : FrameRef) : Halts depth (fun _ => True) fun _ => newChild parent :=
  const fun _ free calls => ⟨free.addFrame (some parent), calls, trivial⟩

theorem makeClosure {decl : FunctionDecl} (scope : FrameRef)
    (body : ∀ stmt ∈ decl.body, stmt.LoopFree) :
    Halts depth (fun closure => (Value.function (.closure closure)).LoopFree) fun _ =>
      makeClosure decl scope := by
  refine const fun machine free calls => ⟨free, calls, ?_⟩
  rintro closure ⟨⟩
  exact body

theorem bindParameters (ref : FrameRef) (parameters : List Name) {arguments : List Value}
    (given : ∀ argument ∈ arguments, argument.LoopFree) :
    Halts depth (fun _ => True) fun _ => bindParameters ref parameters arguments := by
  induction parameters generalizing arguments with
  | nil => exact .pure trivial
  | cons parameter parameters ih =>
      cases arguments with
      | nil => exact .pure trivial
      | cons argument arguments =>
          obtain ⟨ofFirst, ofRest⟩ := List.forall_mem_cons.mp given
          exact .bind (.defineValue ref parameter ofFirst) fun _ _ => ih ofRest

/-- A call is refused, or runs with one more in progress and is over afterwards. -/
theorem nested {run : Nat → Exec α} (limit line : Nat)
    (inside : depth < limit → Halts (depth + 1) done run) :
    Halts depth done fun fuel => nested limit line (run fuel) := by
  intro machine free calls
  by_cases full : limit ≤ machine.callDepth
  · refine ⟨.failed ⟨.stackOverflow limit, line⟩ machine, ⟨by rintro ⟨⟩, 0, fun _ _ => ?_⟩,
      free, calls⟩
    exact if_pos full
  · obtain ⟨outcome, ⟨ended, enough, all⟩, settled⟩ := inside (by omega)
      { machine with callDepth := machine.callDepth + 1 } free (congrArg (· + 1) calls)
    have same (fuel : Nat) (le : enough ≤ fuel) : Exec.nested limit line (run fuel) machine =
        Outcome.mapMachine (fun after => { after with callDepth := after.callDepth - 1 })
          outcome := by
      rw [Exec.nested, if_neg full, all fuel le]
    cases outcome with
    | done value after =>
        exact ⟨_, ⟨by rintro ⟨⟩, enough, same⟩, settled.1, congrArg (· - 1) settled.2.1,
          settled.2.2⟩
    | failed error after =>
        exact ⟨_, ⟨by rintro ⟨⟩, enough, same⟩, settled.1, congrArg (· - 1) settled.2⟩
    | outOfFuel => exact settled.elim

theorem callNative (natives : ∀ function ∈ host.functions, function.LoopFree) (native : Native)
    {arguments : List Value} (line : Nat) (given : ∀ argument ∈ arguments, argument.LoopFree) :
    Halts depth Value.LoopFree fun _ => callNative host native arguments line := by
  have plain {value : Value} (other : ∀ closure, value ≠ .function (.closure closure)) :
      value.LoopFree :=
    Value.coded_of_ne other
  simp only [Exec.callNative]
  cases found : host.functions[native.id]? with
  | none => exact .pure (plain (by rintro _ ⟨⟩))
  | some function =>
      simp only
      cases action : function.action with
      | readClock => exact const fun _ free calls => ⟨free, calls, plain (by rintro _ ⟨⟩)⟩
      | compute result =>
          have free := natives function (Array.mem_of_getElem? found)
          exact .ofExcept line fun value same => free result arguments value action given same

theorem callResult {flow : Flow} (free : flow.LoopFree) :
    Halts depth Value.LoopFree fun _ => callResult flow := by
  cases flow with
  | normal => exact .pure (Value.coded_of_ne (by rintro _ ⟨⟩))
  | breaking signal => exact .fail _
  | continuing signal => exact .fail _
  | returning value line => exact .pure free

end Halts

/-! ### Within a call -/

section Within

/-- Every call of a value halts, with so many calls in progress before it. -/
def CallsHalt (host : Host) (depth : Nat) : Prop :=
  ∀ callee arguments line, callee.LoopFree → (∀ argument ∈ arguments, argument.LoopFree) →
    Halts depth Value.LoopFree fun fuel => callValue host fuel callee arguments line

theorem evaluateAll_halts {exprs : List Expr} {ref : FrameRef}
    (each : ∀ expr ∈ exprs, Halts depth Value.LoopFree fun fuel => evaluate host fuel expr ref) :
    Halts depth (∀ value ∈ ·, Value.LoopFree value) fun fuel =>
      evaluateAll host fuel exprs ref := by
  induction exprs with
  | nil => exact .step (.pure (by simp))
  | cons expr rest ih =>
      obtain ⟨ofFirst, ofRest⟩ := List.forall_mem_cons.mp each
      refine .step (.bind ofFirst fun value free => ?_)
      exact .bind (ih ofRest) fun values all => .pure (List.forall_mem_cons.mpr ⟨free, all⟩)

theorem evaluate_halts (calls : CallsHalt host depth) {expr : Expr} (all : expr.All fun _ => True)
    (ref : FrameRef) : Halts depth Value.LoopFree fun fuel => evaluate host fuel expr ref := by
  induction all with
  | @literal value => exact .step (.pure (Value.coded_ofLiteral value))
  | group _ _ inner => exact .step inner
  | @unary op line _ _ _ operand =>
      exact .step (.bind operand fun value _ => .ofOperator line (op.apply_plain value []))
  | @binary op line _ _ _ _ _ left right =>
      refine .step (.bind left fun first _ => ?_)
      exact .bind right fun second _ => .ofOperator line (op.apply_plain first second [])
  | @logical op _ _ _ _ _ left right =>
      refine .step (.bind left fun first free => ?_)
      by_cases decided : decides op first
      · simp only [if_pos decided]
        exact .pure free
      · simp only [if_neg decided]
        exact right
  | @«variable» name => exact .step (.lookup name ref)
  | @assign name _ _ _ value =>
      refine .step (.bind value fun given free => ?_)
      exact .bind (.assign ref name free) fun _ _ => .pure free
  | @call _ _ closeLine _ _ _ callee arguments =>
      refine .step (.bind callee fun function free => ?_)
      exact .bind (evaluateAll_halts arguments) fun values all =>
        calls function values closeLine free all

theorem executeAll_halts_of_each {body : List Stmt} {ref : FrameRef}
    (each : ∀ stmt ∈ body, Halts depth Flow.LoopFree fun fuel => execute host fuel stmt ref) :
    Halts depth Flow.LoopFree fun fuel => executeAll host fuel body ref := by
  induction body with
  | nil => exact .step (.pure trivial)
  | cons stmt rest ih =>
      obtain ⟨ofFirst, ofRest⟩ := List.forall_mem_cons.mp each
      refine .step (.bind ofFirst fun flow free => ?_)
      cases flow with
      | normal => exact ih ofRest
      | breaking signal | continuing signal | returning value line => exact .pure free

theorem execute_halts (calls : CallsHalt host depth) {stmt : Stmt} (free : stmt.LoopFree)
    (ref : FrameRef) :
    Halts depth Flow.LoopFree fun fuel => execute host fuel stmt ref := by
  induction free generalizing ref with
  | expression _ ofValue =>
      exact .step (.bind (evaluate_halts calls ofValue ref) fun _ _ => .pure trivial)
  | print _ ofValue =>
      refine .step (.bind (evaluate_halts calls ofValue ref) fun value _ => ?_)
      exact .bind (.print value.render) fun _ _ => .pure trivial
  | @define name first _ ofFirst =>
      cases first with
      | none => exact .step (.bind (.define ref name (by simp)) fun _ _ => .pure trivial)
      | some first =>
          refine .step (.bind (evaluate_halts calls (ofFirst first rfl) ref) fun value free => ?_)
          exact .bind (.defineValue ref name free) fun _ _ => .pure trivial
  | block _ _ body =>
      refine .step (.bind (.newChild ref) fun inner _ => ?_)
      exact executeAll_halts_of_each fun stmt member => body stmt member inner
  | @conditional _ _ elseBranch _ ofCondition _ _ thenBranch ofElse =>
      cases elseBranch with
      | none =>
          refine .step (.bind (evaluate_halts calls ofCondition ref) fun value _ => ?_)
          cases value.isTruthy with
          | true => exact thenBranch ref
          | false => exact .pure trivial
      | some elseBranch =>
          refine .step (.bind (evaluate_halts calls ofCondition ref) fun value _ => ?_)
          cases value.isTruthy with
          | true => exact thenBranch ref
          | false => exact ofElse elseBranch rfl ref
  | loop here => exact absurd rfl (here _ _)
  | breakOut | continueOn => exact .step (.pure trivial)
  | @labelled label _ _ _ body =>
      refine .step (.bind (body ref) fun flow free => .pure ?_)
      unfold catchBreak
      split
      · split <;> trivial
      · exact free
  | @continuePoint label _ _ _ body =>
      refine .step (.bind (body ref) fun flow free => .pure ?_)
      unfold catchContinue
      split
      · split <;> trivial
      · exact free
  | @function name parameters _ _ ofBody _ =>
      refine .step (.bind (.makeClosure ref ofBody) fun closure free => ?_)
      exact .bind (.defineValue ref name free) fun _ _ => .pure trivial
  | returning _ ofValue =>
      exact .step (.bind (evaluate_halts calls ofValue ref) fun value free => .pure free)

end Within

/-! ### From call to call -/

/-- A call halts if the bodies of closures do with one more call in progress, where the limit allows
one. -/
theorem callsHalt_of_bodies (natives : ∀ function ∈ host.functions, function.LoopFree)
    (bodies : depth < host.maxCallDepth → ∀ (body : List Stmt) ref, (∀ stmt ∈ body, stmt.LoopFree) →
      Halts (depth + 1) Flow.LoopFree fun fuel => executeAll host fuel body ref) :
    CallsHalt host depth := by
  intro callee arguments line free given
  refine .step ?_
  cases callee with
  | function callee =>
      simp only [callValue]
      by_cases misfit : arguments.length ≠ callee.arity
      · simp only [if_pos misfit]
        exact .fail _
      · simp only [if_neg misfit]
        cases callee with
        | native native => exact .callNative natives native line given
        | closure closure =>
            refine .bind (.nested _ line fun room => .step ?_) fun flow free => .callResult free
            refine .bind (.newChild closure.scope) fun ref _ => ?_
            refine .bind (.bindParameters ref closure.decl.parameters given) fun _ _ => ?_
            exact bodies room closure.decl.body ref (free closure rfl)
  | nil | bool value | number value | text value =>
      simp only [callValue]
      exact .fail _

/-- The induction is on the room for calls: whatever is called has less of it. -/
theorem executeAll_halts (natives : ∀ function ∈ host.functions, function.LoopFree) (depth : Nat)
    (body : List Stmt) (ref : FrameRef) (free : ∀ stmt ∈ body, stmt.LoopFree) :
    Halts depth Flow.LoopFree fun fuel => executeAll host fuel body ref := by
  have calls : CallsHalt host depth := callsHalt_of_bodies natives fun room body ref free =>
    executeAll_halts natives (depth + 1) body ref free
  exact executeAll_halts_of_each fun stmt member => execute_halts calls (free stmt member) ref
termination_by host.maxCallDepth - depth

/-! ### Programs -/

/-- How a program ends that has no loops: no call is in progress any more, and the store is without
loops too. -/
def HaltsAt (machine : Machine) (run : Nat → Exec Unit) : Prop :=
  ∃ outcome, Ends run machine outcome ∧
    outcome.AllMachines fun after => after.store.LoopFree ∧ after.callDepth = 0

theorem executeIn_halts (natives : ∀ function ∈ host.functions, function.LoopFree)
    {program : List Stmt} (free : ∀ stmt ∈ program, stmt.LoopFree) {machine : Machine}
    (heap : machine.store.LoopFree) (ref : FrameRef) :
    HaltsAt machine fun fuel => executeIn host fuel program ref := by
  have runs : Halts 0 (fun _ => True) fun fuel => runProgram host fuel program ref := by
    refine .bind (executeAll_halts natives 0 program ref free) fun flow _ => ?_
    cases flow with
    | normal => exact .pure trivial
    | breaking signal | continuing signal | returning value line => exact .fail _
  obtain ⟨outcome, ends, settled⟩ := runs { machine with callDepth := 0 } heap rfl
  refine ⟨outcome, ends, ?_⟩
  cases outcome with
  | done value after => exact ⟨settled.1, settled.2.1⟩
  | failed error after => exact settled
  | outOfFuel => exact settled.elim

/-- **Programs without loops always halt.** Whatever the limit on calls in progress: a program
without loops, run on a machine whose closures have none, comes to an end, with or without an error,
however its functions call themselves and each other. It leaves such a machine, with no call in
progress. Functions of the host have a result for all arguments; they must not bring in closures
with loops. -/
theorem loopFree_halts (host : Host) (natives : ∀ function ∈ host.functions, function.LoopFree)
    (program : List Stmt) (free : ∀ stmt ∈ program, stmt.LoopFree) (machine : Machine)
    (heap : machine.store.LoopFree) :
    (∀ ref, HaltsAt machine fun fuel => executeIn host fuel program ref) ∧
      HaltsAt machine fun fuel => interpret host fuel program := by
  refine ⟨fun ref => executeIn_halts natives free heap ref, ?_⟩
  have inside :
      ({ machine with store := (machine.store.addChild globals).2 } : Machine).store.LoopFree :=
    heap.addFrame (some globals)
  exact executeIn_halts natives free inside machine.store.nextRef

/-- A function that calls itself inside an argument of a call of itself. -/
def inward : List Stmt :=
  [.function ⟨"f", 1⟩ [⟨"x", 1⟩]
    [.returning 1
      (.call (.variable ⟨"f", 1⟩) [.call (.variable ⟨"f", 1⟩) [.variable ⟨"x", 1⟩] 1] 1)],
    .expression (.call (.variable ⟨"f", 2⟩) [.literal (.bool true)] 2)]

theorem inward_loopFree : ∀ stmt ∈ inward, stmt.LoopFree := by
  have inner : (Expr.call (.variable ⟨"f", 1⟩) [.variable ⟨"x", 1⟩] 1).All fun _ => True :=
    .call trivial (.variable trivial) (List.forall_mem_singleton.mpr (.variable trivial))
  have outer :
      (Expr.call (.variable ⟨"f", 1⟩) [.call (.variable ⟨"f", 1⟩) [.variable ⟨"x", 1⟩] 1] 1).All
      fun _ => True := .call trivial (.variable trivial) (List.forall_mem_singleton.mpr inner)
  have first : (Expr.call (.variable ⟨"f", 2⟩) [.literal (.bool true)] 2).All fun _ => True :=
    .call trivial (.variable trivial) (List.forall_mem_singleton.mpr (.literal trivial))
  refine List.forall_mem_cons.mpr ⟨?_, List.forall_mem_singleton.mpr ?_⟩
  · refine .function (by rintro _ _ ⟨⟩) (List.forall_mem_singleton.mpr ?_)
    exact .returning (by rintro _ _ ⟨⟩) outer
  · exact .expression (by rintro _ _ ⟨⟩) first

/-- Its run ends with the call that is one too many. -/
theorem loopFree_halts_inward :
    let interpreter := build [] (fun _ => 0) 3
    let run (fuel : Nat) := interpret interpreter.host fuel inward
    HaltsAt interpreter.machine run ∧
      ∃ outcome, Ends run interpreter.machine outcome ∧
        outcome.error? = some ⟨.stackOverflow 3, 1⟩ := by
  intro interpreter run
  have empty : Store.empty.LoopFree := by
    intro ref frame name value found
    simp [Store.frame?, Store.empty] at found
  have heap : interpreter.machine.store.LoopFree := by
    refine (empty.addFrame none).define globals "clock" ?_
    rintro given ⟨⟩
    exact Value.coded_of_ne (by rintro _ ⟨⟩)
  have natives : ∀ function ∈ interpreter.host.functions, function.LoopFree := by
    intro function member result arguments value action
    rw [reads_build (fun _ => 0) 3 function member] at action
    cases action
  refine ⟨(loopFree_halts interpreter.host natives inward inward_loopFree interpreter.machine
    heap).2, ?_⟩
  have refused : (run 30 interpreter.machine).error? = some ⟨.stackOverflow 3, 1⟩ := by
    decide +kernel
  have steady : Steady run := .bind (.const _) fun ref => steady_executeIn _ inward ref
  refine ⟨_, steady.ends fun starved => ?_, refused⟩
  rw [starved] at refused
  cases refused

end Interpreter

end Lox
