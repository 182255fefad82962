import Lox.Proofs.Interpreter.Escapes
import Lox.Proofs.Store.Respelling

/-!
Runs of respelled programs.

Names are there to be compared, and nothing that a run does depends on how they are spelled, except
that a function shows its name when it is printed and an error names the variable without a value.
So if no two names are given the same text and the functions keep theirs, a respelled program goes
through the same steps as the program: with the same fuel it prints the same and ends in the same
way (`respelling`). On the way every machine is the same as that of the other run, with the store
respelled.
-/

namespace Lox

/-! ### What runs work on -/

/-- A signal with another label. -/
def Signal.respell (rename : String → String) (signal : Signal) : Signal :=
  ⟨signal.label.map rename, signal.line⟩

/-- A fault with another text for the name that is in it. -/
def Fault.respell (rename : String → String) : Fault → Fault
  | .undefinedVariable name => .undefinedVariable (rename name)
  | .uninitializedVariable name => .uninitializedVariable (rename name)
  | fault => fault

/-- An error with another text for the name that is in it. -/
def RuntimeError.respell (rename : String → String) (error : RuntimeError) : RuntimeError :=
  ⟨error.fault.respell rename, error.line⟩

section Relations

variable (rename : String → String)

/-- A machine and the same in a respelled run. -/
structure Machine.Respells (machine machine' : Machine) : Prop where
  store : machine.store.Respells rename machine'.store
  callDepth : machine'.callDepth = machine.callDepth
  printed : machine'.printed = machine.printed
  clockReadings : machine'.clockReadings = machine.clockReadings

/-- An error and that of a respelled run. The text of an escaped signal has its label in it. -/
inductive RuntimeError.Respells : RuntimeError → RuntimeError → Prop
  | kept {fault : Fault} (line : Nat) (kept : fault.respell rename = fault) :
      Respells ⟨fault, line⟩ ⟨fault, line⟩
  | lookup (fault : LookupFault) (name : Name) :
      Respells (fault.toError name) (fault.toError (name.respell rename))
  | escape (signal : Signal) (keyword : String) :
      Respells (signal.escape keyword) ((signal.respell rename).escape keyword)

/-- The end of a statement and that in a respelled run. -/
inductive Flow.Respells : Flow → Flow → Prop
  | normal : Respells .normal .normal
  | breaking (signal : Signal) : Respells (.breaking signal) (.breaking (signal.respell rename))
  | continuing (signal : Signal) :
      Respells (.continuing signal) (.continuing (signal.respell rename))
  | returning {value value' : Value} (line : Nat) (values : value.Respells rename value') :
      Respells (.returning value line) (.returning value' line)

/-- The outcome of an action and that in a respelled run. -/
inductive Outcome.Respells {α : Type} (values : α → α → Prop) : Outcome α → Outcome α → Prop
  | done {value value' : α} {after after' : Machine} (holds : values value value')
      (machines : after.Respells rename after') :
        Respells values (.done value after) (.done value' after')
  | failed {error error' : RuntimeError} {after after' : Machine}
      (errors : error.Respells rename error')
      (machines : after.Respells rename after') :
        Respells values (.failed error after) (.failed error' after')
  | outOfFuel : Respells values .outOfFuel .outOfFuel

/-- An action and what a respelled run does in its place. -/
def Exec.Respells {α : Type} (values : α → α → Prop) (action action' : Exec α) : Prop :=
  ∀ machine machine', machine.Respells rename machine' →
    (action machine).Respells rename values (action' machine')

end Relations

variable {rename : String → String}

/-! ### Errors -/

/-- Errors differ in the name that they are about. The text of an escaped signal would differ too if
the signal had a label, but then there is a space in it. -/
theorem RuntimeError.Respells.eq {error error' : RuntimeError}
    (errors : error.Respells rename error')
    (bare : ∀ signal, error.fault = .escapedSignal signal → signal = "break") :
    error' = error.respell rename := by
  cases errors with
  | kept line kept => rw [RuntimeError.respell, kept]
  | lookup fault name => cases fault <;> rfl
  | escape signal keyword =>
      rcases signal with ⟨_ | label, line⟩
      · rfl
      · have text : keyword ++ " " ++ label = "break" := bare _ rfl
        have spaced : ' ' ∈ (keyword ++ " " ++ label).toList := by simp
        rw [text] at spaced
        exact absurd spaced (by decide)

/-! ### Actions -/

namespace Exec.Respells

open Exec

variable {α β : Type} {values : α → α → Prop} {more : β → β → Prop} {action action' : Exec α}

theorem outOfFuel : (outOfFuel : Exec α).Respells rename values outOfFuel :=
  fun _ _ _ => .outOfFuel

theorem pure {value value' : α} (holds : values value value') :
    (Pure.pure value : Exec α).Respells rename values (Pure.pure value') :=
  fun _ _ machines => .done holds machines

theorem fail {error error' : RuntimeError} (errors : error.Respells rename error') :
    (fail error : Exec α).Respells rename values (fail error') :=
  fun _ _ machines => .failed errors machines

theorem bind {next next' : α → Exec β} (first : action.Respells rename values action')
    (second : ∀ value value', values value value' →
      (next value).Respells rename more (next' value')) :
    (action >>= next).Respells rename more (action' >>= next') := by
  intro machine machine' machines
  have outcomes := first machine machine' machines
  change Outcome.Respells rename more (andThen action next machine) (andThen action' next' machine')
  unfold andThen
  revert outcomes
  generalize action machine = outcome
  generalize action' machine' = outcome'
  intro outcomes
  cases outcomes with
  | done holds machines => exact second _ _ holds _ _ machines
  | failed errors machines => exact .failed errors machines
  | outOfFuel => exact .outOfFuel

/-- A result that is the same on both sides, has no closure in it and names no variable. -/
theorem ofExcept {result : Except Fault Value} (line : Nat) (plain : PlainResult [] result)
    (kept : ∀ fault, result = .error fault → fault.respell rename = fault) :
    (ofExcept line result).Respells rename (Value.Respells rename) (ofExcept line result) := by
  cases result with
  | ok value => exact .pure (.ofPlain plain)
  | error fault => exact .fail (.kept line (kept fault rfl))

theorem print (text : String) : (print text).Respells rename (fun _ _ => True) (print text) := by
  intro machine machine' machines
  exact .done trivial { machines with printed := congrArg (·.push text) machines.printed }

theorem lookup (name : Name) (ref : FrameRef) :
    (lookup name ref).Respells rename (Value.Respells rename)
    (lookup (name.respell rename) ref) := by
  intro machine machine' machines
  have found := machines.store.nearest ref name.text
  simp only [Exec.lookup, Store.get, Name.respell]
  revert found
  generalize machine.store.nearest? ref name.text = entry
  generalize machine'.store.nearest? ref (rename name.text) = entry'
  intro found
  cases found with
  | none => exact .failed (.lookup .undefined name) machines
  | @some entry entry' found =>
      obtain ⟨owner, slot⟩ := entry
      obtain ⟨owner', slot'⟩ := entry'
      obtain ⟨-, slots⟩ := found
      cases slots with
      | uninitialized => exact .failed (.lookup .uninitialized name) machines
      | bound values => exact .done values machines

theorem newChild (parent : FrameRef) : (newChild parent).Respells rename Eq (newChild parent) := by
  intro machine machine' machines
  have next : machine.store.nextRef = machine'.store.nextRef := by
    rw [Store.nextRef, Store.nextRef, machines.store.size]
  exact .done next { machines with store := machines.store.addFrame (some parent) }

/-- A new closure is the one that the other run makes. -/
theorem makeClosure {decl : FunctionDecl} (scope : FrameRef)
    (kept : ∀ name ∈ decl.functionNames, rename name = name) :
    (makeClosure decl scope).Respells rename
      (fun made made' =>
        (Value.function (.closure made)).Respells rename (.function (.closure made')))
      (makeClosure (decl.respell rename) scope) := by
  intro machine machine' machines
  have counts := machines.store.closureCount
  rw [Exec.makeClosure, Exec.makeClosure, Store.makeClosure, Store.makeClosure, counts]
  exact .done (.closure _ scope kept)
    { machines with store := { machines.store with closureCount := rfl } }

theorem nested (limit line : Nat) (respells : action.Respells rename values action') :
    (nested limit line action).Respells rename values (nested limit line action') := by
  intro machine machine' machines
  rw [Exec.nested, Exec.nested, machines.callDepth]
  split
  · exact .failed (.kept line rfl) machines
  · have outcomes := respells { machine with callDepth := machine.callDepth + 1 }
      { machine' with callDepth := machine.callDepth + 1 } { machines with callDepth := rfl }
    revert outcomes
    generalize action _ = outcome
    generalize action' _ = outcome'
    intro outcomes
    cases outcomes with
    | done holds machines =>
        exact .done holds { machines with callDepth := congrArg (· - 1) machines.callDepth }
    | failed errors machines =>
        exact .failed errors { machines with callDepth := congrArg (· - 1) machines.callDepth }
    | outOfFuel => exact .outOfFuel

/-- Both runs read the clock at the same time. -/
theorem callNative {host : Host} (reads : ∀ function ∈ host.functions, function.action = .readClock)
    (native : Native) (arguments arguments' : List Value) (line : Nat) :
    (callNative host native arguments line).Respells rename (Value.Respells rename)
      (callNative host native arguments' line) := by
  rw [Exec.callNative, Exec.callNative]
  cases found : host.functions[native.id]? with
  | none => exact .pure (.plain (by rintro _ ⟨⟩))
  | some function =>
      simp only [reads function (Array.mem_of_getElem? found)]
      intro machine machine' machines
      simp only [machines.clockReadings]
      exact .done (.plain (by rintro _ ⟨⟩)) { machines with clockReadings := rfl }

theorem callResult {flow flow' : Flow} (flows : flow.Respells rename flow') :
    (Interpreter.callResult flow).Respells rename (Value.Respells rename)
    (Interpreter.callResult flow') := by
  cases flows with
  | normal => exact .pure (.plain (by rintro _ ⟨⟩))
  | breaking signal => exact .fail (.escape signal "break")
  | continuing signal => exact .fail (.escape signal "continue")
  | returning line values => exact .pure values

section Writes

variable (injective : Function.Injective rename)
include injective

theorem define (ref : FrameRef) (name : Name) {value value' : Option Value}
    (values : Option.Rel (Value.Respells rename) value value') :
    (define ref name value).Respells rename (fun _ _ => True)
    (define ref (name.respell rename) value') := by
  intro machine machine' machines
  exact .done trivial
    { machines with store := machines.store.define injective ref name.text values }

theorem assign (ref : FrameRef) (name : Name) {value value' : Value}
    (values : value.Respells rename value') :
    (assign ref name value).Respells rename (fun _ _ => True)
    (assign ref (name.respell rename) value') := by
  intro machine machine' machines
  have found := machines.store.nearest ref name.text
  simp only [Exec.assign, Name.respell]
  revert found
  generalize machine.store.nearest? ref name.text = entry
  generalize machine'.store.nearest? ref (rename name.text) = entry'
  intro found
  cases found with
  | none => exact .failed (.lookup .undefined name) machines
  | @some entry entry' found =>
      obtain ⟨owner, slot⟩ := entry
      obtain ⟨owner', slot'⟩ := entry'
      obtain ⟨rfl, -⟩ := found
      exact .done trivial
        { machines with store := machines.store.define injective _ name.text (.some values) }

theorem bindParameters (ref : FrameRef) (parameters : List Name) {arguments arguments' : List Value}
    (values : List.Forall₂ (Value.Respells rename) arguments arguments') :
    (bindParameters ref parameters arguments).Respells rename (fun _ _ => True)
      (bindParameters ref (parameters.map (Name.respell rename)) arguments') := by
  induction parameters generalizing arguments arguments' with
  | nil => exact .pure trivial
  | cons parameter parameters ih =>
      cases values with
      | nil => exact .pure trivial
      | cons first rest =>
          rw [List.map_cons]
          exact .bind (.define injective ref parameter (.some first)) fun _ _ _ => ih rest

end Writes

end Exec.Respells

/-! ### Code -/

theorem labelText_respell (label : Option Name) :
    (label.map (Name.respell rename)).map (·.text) = (label.map (·.text)).map rename := by
  cases label <;> rfl

theorem Signal.targets_respell (injective : Function.Injective rename) (signal : Signal)
    (label : Option Name) :
    (signal.respell rename).targets ((label.map (Name.respell rename)).map (·.text)) =
      signal.targets (label.map (·.text)) := by
  rw [Signal.targets, Signal.targets, Signal.respell, labelText_respell, Bool.eq_iff_iff,
    beq_iff_eq, beq_iff_eq]
  exact (Option.map_injective injective).eq_iff

namespace Interpreter

open Exec

section Catching

variable (injective : Function.Injective rename) {flow flow' : Flow}
    (flows : flow.Respells rename flow')
include injective flows

theorem catchBreak_respells (label : Name) :
    (catchBreak label flow).Respells rename (catchBreak (label.respell rename) flow') := by
  cases flows with
  | normal => exact .normal
  | breaking signal =>
      have targets : (signal.respell rename).targets (some (label.respell rename).text) =
          signal.targets (some label.text) :=
        signal.targets_respell injective (some label)
      rw [catchBreak, catchBreak, targets]
      split
      · exact .normal
      · exact .breaking signal
  | continuing signal => exact .continuing signal
  | returning line values => exact .returning line values

theorem catchContinue_respells (label : Option Name) :
    (catchContinue label flow).Respells rename
    (catchContinue (label.map (Name.respell rename)) flow') := by
  cases flows with
  | normal => exact .normal
  | breaking signal => exact .breaking signal
  | continuing signal =>
      have resumed : resumes (signal.respell rename) (label.map (Name.respell rename)) =
          resumes signal label := by
        rw [resumes, resumes, signal.targets_respell injective, Signal.respell, Option.isNone_map]
      rw [catchContinue, catchContinue, resumed]
      split
      · exact .normal
      · exact .continuing signal
  | returning line values => exact .returning line values

end Catching

/-- With the same fuel, respelled code goes through the same steps as the code. -/
structure Respelling (rename : String → String) (host : Host) (fuel : Nat) : Prop where
  evaluate : ∀ expr ref, (evaluate host fuel expr ref).Respells rename (Value.Respells rename)
    (evaluate host fuel (expr.respell rename) ref)
  evaluateAll : ∀ exprs ref,
    (evaluateAll host fuel exprs ref).Respells rename (List.Forall₂ (Value.Respells rename))
      (evaluateAll host fuel (Expr.allRespelled rename exprs) ref)
  callValue : ∀ callee callee' arguments arguments' line, callee.Respells rename callee' →
    List.Forall₂ (Value.Respells rename) arguments arguments' →
      (callValue host fuel callee arguments line).Respells rename (Value.Respells rename)
        (callValue host fuel callee' arguments' line)
  runClosure : ∀ id decl scope arguments arguments',
    (∀ name ∈ decl.functionNames, rename name = name) →
    List.Forall₂ (Value.Respells rename) arguments arguments' →
      (runClosure host fuel ⟨id, decl, scope⟩ arguments).Respells rename (Flow.Respells rename)
        (runClosure host fuel ⟨id, decl.respell rename, scope⟩ arguments')
  execute : ∀ stmt ref, (∀ name ∈ stmt.functionNames, rename name = name) →
    (execute host fuel stmt ref).Respells rename (Flow.Respells rename)
    (execute host fuel (stmt.respell rename) ref)
  executeAll : ∀ body ref, (∀ name ∈ Stmt.allFunctionNames body, rename name = name) →
    (executeAll host fuel body ref).Respells rename (Flow.Respells rename)
      (executeAll host fuel (Stmt.allRespelled rename body) ref)
  repeatWhile : ∀ condition body ref, (∀ name ∈ body.functionNames, rename name = name) →
    (repeatWhile host fuel condition body ref).Respells rename (Flow.Respells rename)
      (repeatWhile host fuel (condition.respell rename) (body.respell rename) ref)

section Step

variable {host : Host} {fuel : Nat} (ih : Respelling rename host fuel)
include ih

theorem evaluate_respells (injective : Function.Injective rename) (expr : Expr) (ref : FrameRef) :
    (evaluate host (fuel + 1) expr ref).Respells rename (Value.Respells rename)
      (evaluate host (fuel + 1) (expr.respell rename) ref) := by
  cases expr with
  | literal value => exact .pure (.ofLiteral value)
  | group inner => exact ih.evaluate inner ref
  | unary op line operand =>
      rw [Expr.respell, Interpreter.evaluate, Interpreter.evaluate]
      refine .bind (ih.evaluate operand ref) fun value value' values => ?_
      rw [← values.looks.unary op]
      refine .ofExcept line (op.apply_plain value []) fun fault wrong => ?_
      obtain ⟨subject, expected, got, rfl⟩ := UnaryOp.fault_of_apply wrong
      rfl
  | binary op line left right =>
      rw [Expr.respell, Interpreter.evaluate, Interpreter.evaluate]
      refine .bind (ih.evaluate left ref) fun first first' firsts => ?_
      refine .bind (ih.evaluate right ref) fun second second' seconds => ?_
      rw [← firsts.looks.binary op seconds.looks (firsts.equal seconds)]
      refine .ofExcept line (op.apply_plain first second []) fun fault wrong => ?_
      rcases BinaryOp.fault_of_apply wrong with ⟨subject, expected, got, rfl⟩ | ⟨-, rfl⟩ <;> rfl
  | logical op left right =>
      rw [Expr.respell, Interpreter.evaluate, Interpreter.evaluate]
      refine .bind (ih.evaluate left ref) fun first first' firsts => ?_
      have decision : decides op first' = decides op first := by
        cases op <;> simp [decides, firsts.looks.isTruthy]
      rw [decision]
      split
      · exact .pure firsts
      · exact ih.evaluate right ref
  | «variable» name => exact .lookup name ref
  | assign name value =>
      rw [Expr.respell, Interpreter.evaluate, Interpreter.evaluate]
      refine .bind (ih.evaluate value ref) fun first first' firsts => ?_
      exact .bind (.assign injective ref name firsts) fun _ _ _ => .pure firsts
  | call callee arguments closeLine =>
      rw [Expr.respell, Interpreter.evaluate, Interpreter.evaluate]
      refine .bind (ih.evaluate callee ref) fun _ _ callees => ?_
      refine .bind (ih.evaluateAll arguments ref) fun _ _ values => ?_
      exact ih.callValue _ _ _ _ closeLine callees values

theorem callValue_respells (reads : ∀ function ∈ host.functions, function.action = .readClock)
    (callee callee' : Value) (arguments arguments' : List Value) (line : Nat)
    (callees : callee.Respells rename callee')
    (values : List.Forall₂ (Value.Respells rename) arguments arguments') :
    (callValue host (fuel + 1) callee arguments line).Respells rename (Value.Respells rename)
      (callValue host (fuel + 1) callee' arguments' line) := by
  have lengths := values.length_eq
  cases callees with
  | plain other =>
      cases callee with
      | function callee =>
          cases callee with
          | closure made => exact absurd rfl (other made)
          | native native =>
              rw [Interpreter.callValue, Interpreter.callValue, ← lengths]
              split
              · exact .fail (.kept line rfl)
              · exact .callNative reads native arguments arguments' line
      | nil | bool value | number value | text value => exact .fail (.kept line rfl)
  | @closure id decl scope kept =>
      have arities : (Function.closure ⟨id, decl.respell rename, scope⟩).arity =
          (Function.closure ⟨id, decl, scope⟩).arity :=
        List.length_map _
      rw [Interpreter.callValue, Interpreter.callValue, ← lengths, arities]
      split
      · exact .fail (.kept line rfl)
      · have runs := ih.runClosure id decl scope arguments arguments' kept values
        exact .bind (.nested host.maxCallDepth line runs) fun _ _ flows => .callResult flows

theorem execute_respells (injective : Function.Injective rename) (stmt : Stmt) (ref : FrameRef)
    (kept : ∀ name ∈ stmt.functionNames, rename name = name) :
    (execute host (fuel + 1) stmt ref).Respells rename (Flow.Respells rename)
      (execute host (fuel + 1) (stmt.respell rename) ref) := by
  cases stmt with
  | expression value =>
      rw [Stmt.respell, Interpreter.execute, Interpreter.execute]
      exact .bind (ih.evaluate value ref) fun _ _ _ => .pure .normal
  | print value =>
      rw [Stmt.respell, Interpreter.execute, Interpreter.execute]
      refine .bind (ih.evaluate value ref) fun value value' values => ?_
      rw [← values.looks.render]
      exact .bind (.print value.render) fun _ _ _ => .pure .normal
  | define name first =>
      cases first with
      | none =>
          rw [Stmt.respell, Option.map_none, Interpreter.execute, Interpreter.execute]
          exact .bind (.define injective ref name .none) fun _ _ _ => .pure .normal
      | some first =>
          rw [Stmt.respell, Option.map_some, Interpreter.execute, Interpreter.execute]
          refine .bind (ih.evaluate first ref) fun value value' values => ?_
          exact .bind (.define injective ref name (.some values)) fun _ _ _ => .pure .normal
  | block body =>
      rw [Stmt.respell, Interpreter.execute, Interpreter.execute]
      refine .bind (.newChild ref) fun inner _ same => ?_
      exact same ▸ ih.executeAll body inner kept
  | conditional condition thenBranch elseBranch =>
      cases elseBranch with
      | none =>
          rw [Stmt.respell, Interpreter.execute, Interpreter.execute]
          refine .bind (ih.evaluate condition ref) fun value value' values => ?_
          rw [← values.looks.isTruthy]
          split
          · exact ih.execute thenBranch ref kept
          · exact .pure .normal
      | some elseBranch =>
          rw [Stmt.functionNames, List.forall_mem_append] at kept
          rw [Stmt.respell, Interpreter.execute, Interpreter.execute]
          refine .bind (ih.evaluate condition ref) fun value value' values => ?_
          rw [← values.looks.isTruthy]
          split
          · exact ih.execute thenBranch ref kept.1
          · exact ih.execute elseBranch ref kept.2
  | loop condition body => exact ih.repeatWhile condition body ref kept
  | breakOut line label =>
      rw [Stmt.respell, Interpreter.execute, Interpreter.execute, labelText_respell]
      exact .pure (.breaking ⟨label.map (·.text), line⟩)
  | continueOn line label =>
      rw [Stmt.respell, Interpreter.execute, Interpreter.execute, labelText_respell]
      exact .pure (.continuing ⟨label.map (·.text), line⟩)
  | labelled label body =>
      rw [Stmt.respell, Interpreter.execute, Interpreter.execute]
      exact .bind (ih.execute body ref kept) fun _ _ flows =>
        .pure (catchBreak_respells injective flows label)
  | continuePoint label body =>
      rw [Stmt.respell, Interpreter.execute, Interpreter.execute]
      exact .bind (ih.execute body ref kept) fun _ _ flows =>
        .pure (catchContinue_respells injective flows label)
  | function name parameters body =>
      rw [Stmt.respell, Interpreter.execute, Interpreter.execute]
      have kept : ∀ text ∈ (FunctionDecl.mk name parameters body).functionNames,
          rename text = text := kept
      refine .bind (.makeClosure ref kept) fun _ _ made => ?_
      exact .bind (.define injective ref name (.some made)) fun _ _ _ => .pure .normal
  | returning line value =>
      rw [Stmt.respell, Interpreter.execute, Interpreter.execute]
      exact .bind (ih.evaluate value ref) fun _ _ values => .pure (.returning line values)

/-- A round of a loop: the condition, the body, and further rounds if both allow them. -/
theorem repeatWhile_respells (condition : Expr) (body : Stmt) (ref : FrameRef)
    (kept : ∀ name ∈ body.functionNames, rename name = name) :
    (repeatWhile host (fuel + 1) condition body ref).Respells rename (Flow.Respells rename)
      (repeatWhile host (fuel + 1) (condition.respell rename) (body.respell rename) ref) := by
  rw [Interpreter.repeatWhile, Interpreter.repeatWhile]
  refine .bind (ih.evaluate condition ref) fun value value' values => ?_
  rw [← values.looks.isTruthy]
  split
  · refine .bind (ih.execute body ref kept) fun flow flow' flows => ?_
    cases flows with
    | normal => exact ih.repeatWhile condition body ref kept
    | breaking signal =>
        rcases signal with ⟨_ | label, line⟩
        · exact .pure .normal
        · exact .pure (.breaking ⟨some label, line⟩)
    | continuing signal => exact .pure (.continuing signal)
    | returning line values => exact .pure (.returning line values)
  · exact .pure .normal

end Step

/-- By induction on the fuel. The relation of the machines is the invariant; that functions keep
their names is handed down to the parts of the code, and goes with the closures into the store. -/
theorem respelling {host : Host} (injective : Function.Injective rename)
    (reads : ∀ function ∈ host.functions, function.action = .readClock) :
    ∀ fuel, Respelling rename host fuel
  | 0 => by constructor <;> intros <;> exact .outOfFuel
  | fuel + 1 => by
      have ih := respelling injective reads fuel
      constructor
      case evaluate => exact evaluate_respells ih injective
      case evaluateAll =>
        intro exprs ref
        cases exprs with
        | nil => exact .pure .nil
        | cons expr rest =>
            rw [Expr.allRespelled, Interpreter.evaluateAll, Interpreter.evaluateAll]
            refine .bind (ih.evaluate expr ref) fun _ _ value => ?_
            exact .bind (ih.evaluateAll rest ref) fun _ _ values => .pure (.cons value values)
      case callValue => exact callValue_respells ih reads
      case runClosure =>
        intro id decl scope arguments arguments' kept values
        rw [Interpreter.runClosure, Interpreter.runClosure]
        refine .bind (.newChild scope) fun ref _ same => ?_
        subst same
        refine .bind (.bindParameters injective ref decl.parameters values) fun _ _ _ => ?_
        exact ih.executeAll decl.body ref fun name member =>
          kept name (List.mem_cons_of_mem _ member)
      case execute => exact execute_respells ih injective
      case executeAll =>
        intro body ref kept
        cases body with
        | nil => exact .pure .normal
        | cons first rest =>
            rw [Stmt.allFunctionNames, List.forall_mem_append] at kept
            rw [Stmt.allRespelled, Interpreter.executeAll, Interpreter.executeAll]
            refine .bind (ih.execute first ref kept.1) fun _ _ flows => ?_
            cases flows with
            | normal => exact ih.executeAll rest ref kept.2
            | breaking signal => exact .pure (.breaking signal)
            | continuing signal => exact .pure (.continuing signal)
            | returning line values => exact .pure (.returning line values)
      case repeatWhile => exact repeatWhile_respells ih

/-! ### Runs -/

theorem interpret_respells {host : Host} (injective : Function.Injective rename)
    (reads : ∀ function ∈ host.functions, function.action = .readClock) {program : List Stmt}
    (kept : ∀ name ∈ Stmt.allFunctionNames program, rename name = name) (fuel : Nat) :
    (interpret host fuel program).Respells rename (fun _ _ => True)
      (interpret host fuel (program.map (Stmt.respell rename))) := by
  refine .bind (.newChild globals) fun ref _ same => ?_
  subst same
  intro machine machine' machines
  have runs := (respelling injective reads fuel).executeAll program ref kept
  rw [Stmt.allRespelled_eq] at runs
  refine Exec.Respells.bind runs (fun flow flow' flows => ?_) { machine with callDepth := 0 }
    { machine' with callDepth := 0 } { machines with callDepth := rfl }
  cases flows with
  | normal => exact .pure trivial
  | breaking signal => exact .fail (.escape signal "break")
  | continuing signal => exact .fail (.escape signal "continue")
  | returning line values => exact .fail (.kept line rfl)

/-- A new interpreter is the same for both runs if the clock keeps its name. -/
theorem machine_respells (injective : Function.Injective rename)
    (clockKept : rename "clock" = "clock") (clock : Nat → Float) (limit : Nat) :
    (build [] clock limit).machine.Respells rename (build [] clock limit).machine where
  callDepth := rfl
  printed := rfl
  clockReadings := rfl
  store := by
    have empty : Store.empty.Respells rename Store.empty := ⟨rfl, fun ref => .none, rfl⟩
    have same : (Value.function (.native ⟨0, "clock", 0⟩)).Respells rename _ :=
      .plain (by rintro _ ⟨⟩)
    have defined := (empty.addFrame none).define injective globals "clock" (.some same)
    rwa [clockKept] at defined

end Interpreter

end Lox
