import Lox.Interpreter.Run
import Lox.Proofs.Store.Linking

/-!
Runs in stores parts of which are the same.

Code that is alike does the same in two machines whose stores hold the same in paired frames, if it
starts in a pair of frames (`mirroring`). It goes through the same steps with the same fuel, prints
the same, reads the clock equally often, and ends in the same way, with values that are the same
along the pairs. On the way new frames and new closures become pairs. No frame is looked at or
changed that is not paired, so this is both a statement on how code depends on the store and one on
what it leaves alone.

Both machines have as many calls in progress at the end as at the beginning, however the code ends.
-/

namespace Lox

/-- Two errors of one fault on related lines. -/
structure RuntimeError.Alike (lines : Nat → Nat → Prop) (error error' : RuntimeError) : Prop where
  fault : error.fault = error'.fault
  line : lines error.line error'.line

theorem RuntimeError.Alike.eq {error error' : RuntimeError} (errors : error.Alike Eq error') :
    error = error' := by
  cases error
  cases error'
  cases errors.fault
  cases errors.line
  rfl

theorem LookupFault.toError_alike {lines : Nat → Nat → Prop} {name name' : Name}
    (fault : LookupFault) (names : name.Alike lines name') :
    (fault.toError name).Alike lines (fault.toError name') := by
  cases fault with
  | undefined => exact ⟨congrArg Fault.undefinedVariable names.text, names.line⟩
  | uninitialized => exact ⟨congrArg Fault.uninitializedVariable names.text, names.line⟩

/-- Two signals with one label from related lines. -/
structure Signal.Alike (lines : Nat → Nat → Prop) (signal signal' : Signal) : Prop where
  label : signal.label = signal'.label
  line : lines signal.line signal'.line

namespace Link

variable {lines : Nat → Nat → Prop}

/-- The same end of a statement along a link. -/
inductive Flows (link : Link lines) : Flow → Flow → Prop where
  | normal : Flows link .normal .normal
  | breaking {signal signal'} (signals : signal.Alike lines signal') :
      Flows link (.breaking signal) (.breaking signal')
  | continuing {signal signal'} (signals : signal.Alike lines signal') :
      Flows link (.continuing signal) (.continuing signal')
  | returning {value value' line line'} (values : link.Values value value')
      (at_ : lines line line') :
      Flows link (.returning value line) (.returning value' line')

/-- Two machines at the beginning of a comparison, and what is paired then. -/
structure Beginning (lines : Nat → Nat → Prop) extends Moment lines where
  printed : List String
  printed' : List String

/-- Two machines in the course of a comparison: since its beginning they have printed the same
lines. -/
structure Machines (beginning : Beginning lines) (depth : Nat) (link : Link lines)
    (machine machine' : Machine) : Prop where
  since : Since beginning.toMoment link machine.store machine'.store
  callDepth : machine.callDepth = depth
  callDepth' : machine'.callDepth = depth
  printed : ∃ texts, machine.printed.toList = beginning.printed ++ texts ∧
    machine'.printed.toList = beginning.printed' ++ texts
  clockReadings : machine.clockReadings = machine'.clockReadings

/-- The beginning of a comparison of two machines as they are, with the pairs of a link. -/
def Beginning.at (link : Link lines) (machine machine' : Machine) : Beginning lines where
  link := link
  store := machine.store
  store' := machine'.store
  printed := machine.printed.toList
  printed' := machine'.printed.toList

theorem Machines.start {link : Link lines} {depth : Nat} {machine machine' : Machine}
    (stores : link.Stores machine.store machine'.store) (callDepth : machine.callDepth = depth)
    (callDepth' : machine'.callDepth = depth)
    (clockReadings : machine.clockReadings = machine'.clockReadings) :
    Machines (.at link machine machine') depth link machine machine' where
  since := .start stores
  callDepth := callDepth
  callDepth' := callDepth'
  printed := ⟨[], (List.append_nil _).symm, (List.append_nil _).symm⟩
  clockReadings := clockReadings

/-- Two outcomes that are the same, with pairs added to those of a link. -/
inductive Outcomes (beginning : Beginning lines) (depth : Nat) (link : Link lines) {α β : Type}
    (same : Link lines → α → β → Prop) : Outcome α → Outcome β → Prop where
  | done {later value value' after after'} (within : link.Within later)
      (machines : Machines beginning depth later after after') (holds : same later value value') :
      Outcomes beginning depth link same (.done value after) (.done value' after')
  | failed {later error error' after after'} (within : link.Within later)
      (machines : Machines beginning depth later after after') (errors : error.Alike lines error') :
      Outcomes beginning depth link same (.failed error after) (.failed error' after')
  | outOfFuel : Outcomes beginning depth link same .outOfFuel .outOfFuel

variable {beginning : Beginning lines} {depth : Nat} {link later : Link lines} {α β : Type}
  {same : Link lines → α → β → Prop} {outcome : Outcome α} {outcome' : Outcome β}

theorem Outcomes.of_within (within : link.Within later)
    (outcomes : Outcomes beginning depth later same outcome outcome') :
    Outcomes beginning depth link same outcome outcome' := by
  cases outcomes with
  | done more machines holds => exact .done (within.trans more) machines holds
  | failed more machines errors => exact .failed (within.trans more) machines errors
  | outOfFuel => exact .outOfFuel

end Link

/-! ### Actions -/

/-- In machines that hold the same in paired frames, two actions have the same outcome. -/
def Exec.Mirrors {lines : Nat → Nat → Prop} {α β : Type} (beginning : Link.Beginning lines)
    (depth : Nat) (link : Link lines) (same : Link lines → α → β → Prop) (action : Exec α)
    (action' : Exec β) : Prop :=
  ∀ before before', Link.Machines beginning depth link before before' →
    Link.Outcomes beginning depth link same (action before) (action' before')

namespace Exec.Mirrors

open Exec Link

variable {lines : Nat → Nat → Prop} {α β γ δ : Type} {beginning : Beginning lines} {depth : Nat}
  {link : Link lines} {same : Link lines → α → β → Prop} {sameNext : Link lines → γ → δ → Prop}
  {action : Exec α} {action' : Exec β} {ref ref' : FrameRef} {name name' : Name}

theorem outOfFuel :
    (outOfFuel : Exec α).Mirrors beginning depth link same (outOfFuel : Exec β) :=
  fun _ _ _ => .outOfFuel

theorem pure {value : α} {value' : β} (holds : same link value value') :
    (Pure.pure value : Exec α).Mirrors beginning depth link same (Pure.pure value' : Exec β) :=
  fun _ _ machines => .done (.refl link) machines holds

theorem fail {error error' : RuntimeError} (errors : error.Alike lines error') :
    (fail error : Exec α).Mirrors beginning depth link same (fail error' : Exec β) :=
  fun _ _ machines => .failed (.refl link) machines errors

theorem bind {next : α → Exec γ} {next' : β → Exec δ}
    (first : action.Mirrors beginning depth link same action')
    (second : ∀ later value value', link.Within later → same later value value' →
      (next value).Mirrors beginning depth later sameNext (next' value')) :
    (action >>= next).Mirrors beginning depth link sameNext (action' >>= next') := by
  intro before before' machines
  have outcomes := first before before' machines
  change Outcomes beginning depth link sameNext (andThen action next before)
    (andThen action' next' before')
  unfold andThen
  revert outcomes
  generalize action before = outcome
  generalize action' before' = outcome'
  intro outcomes
  cases outcomes with
  | done within machines holds => exact .of_within within (second _ _ _ within holds _ _ machines)
  | failed within machines errors => exact .failed within machines errors
  | outOfFuel => exact .outOfFuel

theorem ofExcept {result result' : Except Fault Value} {line line' : Nat} (at_ : lines line line')
    (results : link.Results result result') :
    (ofExcept line result).Mirrors beginning depth link Link.Values (ofExcept line' result') := by
  cases results with
  | ok values => exact .pure values
  | error fault => exact .fail ⟨rfl, at_⟩

/-- An action on the store alone, where it is known what becomes of both stores. -/
theorem onStores {value : α} {value' : β} {before before' : Machine} {store store' : Store}
    (machines : Machines beginning depth link before before') {later : Link lines}
    (within : link.Within later) (since : Since beginning.toMoment later store store')
    (holds : same later value value') :
    Outcomes beginning depth link same (.done value { before with store })
      (.done value' { before' with store := store' }) :=
  .done within { machines with since } holds

theorem print (text : String) :
    (print text).Mirrors beginning depth link (fun _ _ _ => True) (print text) := by
  intro before before' machines
  refine .done (.refl link) { machines with printed := ?_ } trivial
  obtain ⟨texts, printed, printed'⟩ := machines.printed
  refine ⟨texts ++ [text], ?_, ?_⟩
  · rw [Array.toList_push, printed, List.append_assoc]
  · rw [Array.toList_push, printed', List.append_assoc]

theorem lookup (names : name.Alike lines name') (pair : link.frames ref ref') :
    (lookup name ref).Mirrors beginning depth link Link.Values (lookup name' ref') := by
  intro before before' machines
  have found := machines.since.stores.nearest name.text pair
  simp only [Exec.lookup, Store.get, ← names.text]
  revert found
  generalize before.store.nearest? ref name.text = entry
  generalize before'.store.nearest? ref' name.text = entry'
  intro found
  cases found with
  | none => exact .failed (.refl link) machines (LookupFault.undefined.toError_alike names)
  | @some entry entry' found =>
      obtain ⟨owner, slot⟩ := entry
      obtain ⟨owner', slot'⟩ := entry'
      obtain ⟨-, slots⟩ := found
      cases slots with
      | uninitialized =>
          exact .failed (.refl link) machines (LookupFault.uninitialized.toError_alike names)
      | bound values => exact .done (.refl link) machines values

theorem define (names : name.Alike lines name') (pair : link.frames ref ref')
    {value value' : Option Value} (values : Option.Rel link.Values value value') :
    (define ref name value).Mirrors beginning depth link (fun _ _ _ => True)
    (define ref' name' value') := by
  intro before before' machines
  have since := machines.since.define pair name.text values
  rw [Exec.define, Exec.define, ← names.text]
  exact onStores machines (.refl link) since trivial

/-- The frame in which a name is found on one side is paired with that on the other. -/
theorem assign (names : name.Alike lines name') (pair : link.frames ref ref') {value value' : Value}
    (values : link.Values value value') :
    (assign ref name value).Mirrors beginning depth link (fun _ _ _ => True)
    (assign ref' name' value') := by
  intro before before' machines
  have found := machines.since.stores.nearest name.text pair
  simp only [Exec.assign, ← names.text]
  revert found
  generalize before.store.nearest? ref name.text = entry
  generalize before'.store.nearest? ref' name.text = entry'
  intro found
  cases found with
  | none => exact .failed (.refl link) machines (LookupFault.undefined.toError_alike names)
  | @some entry entry' found =>
      obtain ⟨owner, slot⟩ := entry
      obtain ⟨owner', slot'⟩ := entry'
      obtain ⟨owners, -⟩ := found
      exact onStores machines (.refl link)
        (machines.since.define owners name.text (.some values)) trivial

theorem newChild (pair : link.frames ref ref') :
    (newChild ref).Mirrors beginning depth link Link.frames (newChild ref') := by
  intro before before' machines
  exact onStores machines (within_addFrame _ _ _) (machines.since.addFrame (.some pair))
    (.inr ⟨rfl, rfl⟩)

theorem makeClosure {decl decl' : FunctionDecl} (decls : decl.Alike lines decl')
    (pair : link.frames ref ref') :
    (makeClosure decl ref).Mirrors beginning depth link
      (fun later made made' =>
        later.Values (.function (.closure made)) (.function (.closure made')))
      (makeClosure decl' ref') := by
  intro before before' machines
  exact onStores machines (within_addClosure _ _ _)
    (machines.since.makeClosure decl decl' ref ref') (.closure (.inr ⟨rfl, rfl⟩) decls pair)

theorem bindParameters {parameters parameters' : List Name} {values values' : List Value}
    (names : List.Forall₂ (Name.Alike lines) parameters parameters') (pair : link.frames ref ref')
    (same : List.Forall₂ link.Values values values') :
    (bindParameters ref parameters values).Mirrors beginning depth link (fun _ _ _ => True)
      (bindParameters ref' parameters' values') := by
  induction names generalizing link values values' with
  | nil => exact .pure trivial
  | cons first rest ih =>
      cases same with
      | nil => exact .pure trivial
      | cons value values =>
          refine .bind (.define first pair (.some value)) fun later _ _ within _ => ?_
          exact ih (within.frames pair) (values.imp fun _ _ values => values.mono within)

theorem nested {limit line line' : Nat} (at_ : lines line line')
    (mirrors : action.Mirrors beginning (depth + 1) link same action') :
    (nested limit line action).Mirrors beginning depth link same (nested limit line' action') := by
  intro before before' machines
  rw [Exec.nested, Exec.nested, machines.callDepth, machines.callDepth']
  split
  · exact .failed (.refl link) machines ⟨rfl, at_⟩
  · have outcomes :=
      mirrors { before with callDepth := depth + 1 } { before' with callDepth := depth + 1 }
      { machines with callDepth := rfl, callDepth' := rfl }
    revert outcomes
    generalize action _ = outcome
    generalize action' _ = outcome'
    intro outcomes
    cases outcomes with
    | done within after holds =>
        exact .done within { after with
          callDepth := congrArg (· - 1) after.callDepth
          callDepth' := congrArg (· - 1) after.callDepth' } holds
    | failed within after errors =>
        exact .failed within { after with
          callDepth := congrArg (· - 1) after.callDepth
          callDepth' := congrArg (· - 1) after.callDepth' } errors
    | outOfFuel => exact .outOfFuel

theorem callNative {host : Host}
    (parametric : ∀ function ∈ host.functions, function.Parametric lines) (native : Native)
    {values values' : List Value} {line line' : Nat} (at_ : lines line line')
    (same : List.Forall₂ link.Values values values') :
    (callNative host native values line).Mirrors beginning depth link Link.Values
      (callNative host native values' line') := by
  rw [Exec.callNative, Exec.callNative]
  cases found : host.functions[native.id]? with
  | none => exact .pure .nil
  | some function =>
      simp only
      cases action : function.action with
      | compute result =>
          intro before before' machines
          have results := parametric function (Array.mem_of_getElem? found) result action link
            machines.since.stores.oneOne values values' same
          exact ofExcept at_ results before before' machines
      | readClock =>
          intro before before' machines
          refine .done (.refl link) { machines with clockReadings := ?_ } ?_
          · exact congrArg (· + 1) machines.clockReadings
          · rw [machines.clockReadings]
            exact .number _

end Exec.Mirrors

/-! ### Code -/

theorem Signal.Alike.escape {lines : Nat → Nat → Prop} {signal signal' : Signal}
    (signals : signal.Alike lines signal') (keyword : String) :
    (signal.escape keyword).Alike lines (signal'.escape keyword) := by
  refine ⟨?_, signals.line⟩
  rw [Signal.escape, Signal.escape, signals.label]

theorem Signal.Alike.targets {lines : Nat → Nat → Prop} {signal signal' : Signal}
    (signals : signal.Alike lines signal') (label : Option String) :
    signal.targets label = signal'.targets label := by
  rw [Signal.targets, Signal.targets, signals.label]

theorem labelText_eq {lines : Nat → Nat → Prop} {label label' : Option Name}
    (labels : Option.Rel (Name.Alike lines) label label') :
    label.map (·.text) = label'.map (·.text) := by
  cases labels with
  | none => rfl
  | some names => exact congrArg some names.text

namespace Interpreter

open Exec Link

variable {lines : Nat → Nat → Prop} {link : Link lines}

theorem flows_catchBreak {label label' : Name} (labels : label.Alike lines label')
    {flow flow' : Flow} (flows : link.Flows flow flow') :
    link.Flows (catchBreak label flow) (catchBreak label' flow') := by
  cases flows with
  | normal => exact .normal
  | breaking signals =>
      have targets := signals.targets (some label.text)
      rw [catchBreak, catchBreak, ← labels.text, targets]
      split
      · exact .normal
      · exact .breaking signals
  | continuing signals => exact .continuing signals
  | returning values at_ => exact .returning values at_

theorem flows_catchContinue {label label' : Option Name}
    (labels : Option.Rel (Name.Alike lines) label label') {flow flow' : Flow}
    (flows : link.Flows flow flow') :
    link.Flows (catchContinue label flow) (catchContinue label' flow') := by
  cases flows with
  | normal => exact .normal
  | breaking signals => exact .breaking signals
  | continuing signals =>
      have targets := signals.targets (label.map (·.text))
      rw [catchContinue, catchContinue, resumes, resumes, ← labelText_eq labels, targets,
        signals.label]
      split
      · exact .normal
      · exact .continuing signals
  | returning values at_ => exact .returning values at_

theorem mirrors_callResult {beginning : Beginning lines} {depth : Nat} {flow flow' : Flow}
    (flows : link.Flows flow flow') :
    (callResult flow).Mirrors beginning depth link Link.Values (callResult flow') := by
  cases flows with
  | normal => exact .pure .nil
  | breaking signals => exact .fail (signals.escape "break")
  | continuing signals => exact .fail (signals.escape "continue")
  | returning values _ => exact .pure values

/-- With the same fuel code that is alike does the same in machines that hold the same in paired
frames. -/
structure Mirroring (lines : Nat → Nat → Prop) (host : Host) (fuel : Nat) : Prop where
  evaluate : ∀ (beginning : Beginning lines) depth (link : Link lines) expr expr' ref ref',
    expr.Alike lines expr' → link.frames ref ref' →
      (evaluate host fuel expr ref).Mirrors beginning depth link Link.Values
      (evaluate host fuel expr' ref')
  evaluateAll : ∀ (beginning : Beginning lines) depth (link : Link lines) exprs exprs' ref ref',
    List.Forall₂ (Expr.Alike lines) exprs exprs' → link.frames ref ref' →
      (evaluateAll host fuel exprs ref).Mirrors beginning depth link
      (fun later => List.Forall₂ later.Values)
        (evaluateAll host fuel exprs' ref')
  callValue :
    ∀ (beginning : Beginning lines) depth (link : Link
      lines) callee callee' values values' line line',
    link.Values callee callee' → List.Forall₂ link.Values values values' → lines line line' →
      (callValue host fuel callee values line).Mirrors beginning depth link Link.Values
        (callValue host fuel callee' values' line')
  runClosure :
    ∀ (beginning : Beginning lines) depth (link : Link lines) (closure closure' : Closure)
    values values', closure.decl.Alike lines closure'.decl →
      link.frames closure.scope closure'.scope →
      List.Forall₂ link.Values values values' →
      (runClosure host fuel closure values).Mirrors beginning depth link Link.Flows
        (runClosure host fuel closure' values')
  execute : ∀ (beginning : Beginning lines) depth (link : Link lines) stmt stmt' ref ref',
    stmt.Alike lines stmt' → link.frames ref ref' →
      (execute host fuel stmt ref).Mirrors beginning depth link Link.Flows
      (execute host fuel stmt' ref')
  executeAll : ∀ (beginning : Beginning lines) depth (link : Link lines) body body' ref ref',
    List.Forall₂ (Stmt.Alike lines) body body' → link.frames ref ref' →
      (executeAll host fuel body ref).Mirrors beginning depth link Link.Flows
      (executeAll host fuel body' ref')
  repeatWhile :
    ∀ (beginning : Beginning lines) depth (link : Link lines) condition condition' body body'
    ref ref', condition.Alike lines condition' → body.Alike lines body' → link.frames ref ref' →
      (repeatWhile host fuel condition body ref).Mirrors beginning depth link Link.Flows
        (repeatWhile host fuel condition' body' ref')

section Step

variable {host : Host} {fuel : Nat} (ih : Mirroring lines host fuel) (beginning : Beginning lines)
  (depth : Nat) (link : Link lines)
include ih

theorem evaluate_mirrors (expr expr' : Expr) (ref ref' : FrameRef) (exprs : expr.Alike lines expr')
    (pair : link.frames ref ref') :
    (evaluate host (fuel + 1) expr ref).Mirrors beginning depth link Link.Values
      (evaluate host (fuel + 1) expr' ref') := by
  cases exprs with
  | literal value => exact .pure (values_ofLiteral link value)
  | group inners => exact ih.evaluate beginning depth link _ _ ref ref' inners pair
  | unary op at_ operands =>
      rw [Interpreter.evaluate, Interpreter.evaluate]
      refine .bind (ih.evaluate beginning depth link _ _ ref ref' operands pair)
        fun later value value' _ values => ?_
      rw [← values.looks.unary op]
      exact .ofExcept at_ (results_of_plain later (op.apply_plain value []))
  | binary op at_ lefts rights =>
      rw [Interpreter.evaluate, Interpreter.evaluate]
      refine .bind (ih.evaluate beginning depth link _ _ ref ref' lefts pair)
        fun later first first' within firsts => ?_
      refine .bind (ih.evaluate beginning depth later _ _ ref ref' rights (within.frames pair))
        fun last second second' more seconds => ?_
      intro before before' machines
      have equally := (firsts.mono more).equal machines.since.stores.oneOne seconds
      rw [← firsts.looks.binary op seconds.looks equally]
      exact Mirrors.ofExcept at_ (results_of_plain last (op.apply_plain first second []))
        before before' machines
  | logical op lefts rights =>
      rw [Interpreter.evaluate, Interpreter.evaluate]
      refine .bind (ih.evaluate beginning depth link _ _ ref ref' lefts pair)
        fun later first first' within firsts => ?_
      have decision : decides op first' = decides op first := by
        cases op <;> simp [decides, firsts.looks.isTruthy]
      rw [decision]
      split
      · exact .pure firsts
      · exact ih.evaluate beginning depth later _ _ ref ref' rights (within.frames pair)
  | «variable» names =>
      rw [Interpreter.evaluate, Interpreter.evaluate]
      exact .lookup names pair
  | assign names values =>
      rw [Interpreter.evaluate, Interpreter.evaluate]
      refine .bind (ih.evaluate beginning depth link _ _ ref ref' values pair)
        fun later first first' within firsts => ?_
      refine .bind (.assign names (within.frames pair) firsts) fun last _ _ more _ => ?_
      exact .pure (firsts.mono more)
  | call callees given at_ =>
      rw [Interpreter.evaluate, Interpreter.evaluate]
      refine .bind (ih.evaluate beginning depth link _ _ ref ref' callees pair)
        fun later _ _ within callees => ?_
      refine .bind (ih.evaluateAll beginning depth later _ _ ref ref' given (within.frames pair))
        fun last _ _ more values => ?_
      exact ih.callValue beginning depth last _ _ _ _ _ _ (callees.mono more) values at_

theorem callValue_mirrors (callee callee' : Value) (values values' : List Value) (line line' : Nat)
    (callees : link.Values callee callee') (same : List.Forall₂ link.Values values values')
    (at_ : lines line line') (parametric : ∀ function ∈ host.functions, function.Parametric lines) :
    (callValue host (fuel + 1) callee values line).Mirrors beginning depth link Link.Values
      (callValue host (fuel + 1) callee' values' line') := by
  have lengths := same.length_eq
  cases callees with
  | native given =>
      rw [Interpreter.callValue, Interpreter.callValue]
      by_cases misfit : values.length ≠ (Function.native given).arity
      · rw [if_pos misfit, if_pos (lengths ▸ misfit), lengths]
        exact .fail ⟨rfl, at_⟩
      · rw [if_neg misfit, if_neg (lengths ▸ misfit)]
        exact .callNative parametric given at_ same
  | @closure made made' ids decls scopes =>
      have arities : (Function.closure made).arity = (Function.closure made').arity :=
        decls.parameters.length_eq
      rw [Interpreter.callValue, Interpreter.callValue]
      by_cases misfit : values.length ≠ (Function.closure made).arity
      · rw [if_pos misfit, if_pos (lengths ▸ arities ▸ misfit), lengths, arities]
        exact .fail ⟨rfl, at_⟩
      · rw [if_neg misfit, if_neg (lengths ▸ arities ▸ misfit)]
        have runs :=
          ih.runClosure beginning (depth + 1) link made made' values values' decls scopes same
        exact .bind (.nested at_ runs) fun later _ _ _ flows => mirrors_callResult flows
  | nil | bool value | number value | text value => exact .fail ⟨rfl, at_⟩

theorem execute_mirrors (stmt stmt' : Stmt) (ref ref' : FrameRef) (stmts : stmt.Alike lines stmt')
    (pair : link.frames ref ref') :
    (execute host (fuel + 1) stmt ref).Mirrors beginning depth link Link.Flows
      (execute host (fuel + 1) stmt' ref') := by
  cases stmts with
  | expression exprs =>
      rw [Interpreter.execute, Interpreter.execute]
      exact .bind (ih.evaluate beginning depth link _ _ ref ref' exprs pair) fun _ _ _ _ _ =>
        .pure .normal
  | print exprs =>
      rw [Interpreter.execute, Interpreter.execute]
      refine .bind (ih.evaluate beginning depth link _ _ ref ref' exprs pair)
        fun later value value' _ values => ?_
      rw [← values.looks.render]
      exact .bind (.print value.render) fun _ _ _ _ _ => .pure .normal
  | define names firsts =>
      cases firsts with
      | none =>
          rw [Interpreter.execute, Interpreter.execute]
          exact .bind (.define names pair .none) fun _ _ _ _ _ => .pure .normal
      | some exprs =>
          rw [Interpreter.execute, Interpreter.execute]
          refine .bind (ih.evaluate beginning depth link _ _ ref ref' exprs pair)
            fun later value value' within values => ?_
          exact .bind (.define names (within.frames pair) (.some values)) fun _ _ _ _ _ =>
            .pure .normal
  | block bodies =>
      rw [Interpreter.execute, Interpreter.execute]
      refine .bind (.newChild pair) fun later inner inner' _ inners => ?_
      exact ih.executeAll beginning depth later _ _ inner inner' bodies inners
  | conditional conditions thens elses =>
      cases elses with
      | none =>
          rw [Interpreter.execute, Interpreter.execute]
          refine .bind (ih.evaluate beginning depth link _ _ ref ref' conditions pair)
            fun later value value' within values => ?_
          rw [← values.looks.isTruthy]
          split
          · exact ih.execute beginning depth later _ _ ref ref' thens (within.frames pair)
          · exact .pure .normal
      | some elses =>
          rw [Interpreter.execute, Interpreter.execute]
          refine .bind (ih.evaluate beginning depth link _ _ ref ref' conditions pair)
            fun later value value' within values => ?_
          rw [← values.looks.isTruthy]
          split
          · exact ih.execute beginning depth later _ _ ref ref' thens (within.frames pair)
          · exact ih.execute beginning depth later _ _ ref ref' elses (within.frames pair)
  | loop conditions bodies =>
      exact ih.repeatWhile beginning depth link _ _ _ _ ref ref' conditions bodies pair
  | breakOut at_ labels => exact .pure (.breaking ⟨labelText_eq labels, at_⟩)
  | continueOn at_ labels => exact .pure (.continuing ⟨labelText_eq labels, at_⟩)
  | labelled labels bodies =>
      rw [Interpreter.execute, Interpreter.execute]
      exact .bind (ih.execute beginning depth link _ _ ref ref' bodies pair)
        fun _ _ _ _ flows => .pure (flows_catchBreak labels flows)
  | continuePoint labels bodies =>
      rw [Interpreter.execute, Interpreter.execute]
      exact .bind (ih.execute beginning depth link _ _ ref ref' bodies pair)
        fun _ _ _ _ flows => .pure (flows_catchContinue labels flows)
  | function names given bodies =>
      rw [Interpreter.execute, Interpreter.execute]
      refine .bind (.makeClosure ⟨names, given, bodies⟩ pair) fun later _ _ within made => ?_
      exact .bind (.define names (within.frames pair) (.some made)) fun _ _ _ _ _ => .pure .normal
  | returning at_ exprs =>
      rw [Interpreter.execute, Interpreter.execute]
      exact .bind (ih.evaluate beginning depth link _ _ ref ref' exprs pair)
        fun _ _ _ _ values => .pure (.returning values at_)

/-- A round of a loop: the condition, the body, and further rounds if both allow them. -/
theorem repeatWhile_mirrors (condition condition' : Expr) (body body' : Stmt) (ref ref' : FrameRef)
    (conditions : condition.Alike lines condition') (bodies : body.Alike lines body')
    (pair : link.frames ref ref') :
    (repeatWhile host (fuel + 1) condition body ref).Mirrors beginning depth link Link.Flows
      (repeatWhile host (fuel + 1) condition' body' ref') := by
  rw [Interpreter.repeatWhile, Interpreter.repeatWhile]
  refine .bind (ih.evaluate beginning depth link _ _ ref ref' conditions pair)
    fun later value value' within values => ?_
  rw [← values.looks.isTruthy]
  split
  · refine .bind (ih.execute beginning depth later _ _ ref ref' bodies (within.frames pair))
      fun last flow flow' more flows => ?_
    cases flows with
    | normal =>
        exact ih.repeatWhile beginning depth last _ _ _ _ ref ref' conditions bodies
          (more.frames (within.frames pair))
    | @breaking signal signal' signals =>
        obtain ⟨label, line⟩ := signal
        obtain ⟨label', line'⟩ := signal'
        obtain rfl : label = label' := signals.label
        cases label with
        | none => exact .pure .normal
        | some label => exact .pure (.breaking signals)
    | continuing signals => exact .pure (.continuing signals)
    | returning values at_ => exact .pure (.returning values at_)
  · exact .pure .normal

end Step

theorem mirroring {host : Host}
    (parametric : ∀ function ∈ host.functions, function.Parametric lines) :
    ∀ fuel, Mirroring lines host fuel
  | 0 => by constructor <;> intros <;> exact .outOfFuel
  | fuel + 1 => by
      have ih := mirroring parametric fuel
      constructor
      case evaluate => exact evaluate_mirrors ih
      case evaluateAll =>
        intro beginning depth link exprs exprs' ref ref' alike pair
        cases alike with
        | nil => exact .pure .nil
        | cons first rest =>
            rw [Interpreter.evaluateAll, Interpreter.evaluateAll]
            refine .bind (ih.evaluate beginning depth link _ _ ref ref' first pair)
              fun later _ _ within value => ?_
            refine .bind
              (ih.evaluateAll beginning depth later _ _ ref ref' rest (within.frames pair))
              fun last _ _ more values => ?_
            exact .pure (.cons (value.mono more) values)
      case callValue =>
        intro beginning depth link callee callee' values values' line line' callees same at_
        exact callValue_mirrors ih beginning depth link _ _ _ _ _ _ callees same at_ parametric
      case runClosure =>
        intro beginning depth link closure closure' values values' decls scopes same
        rw [Interpreter.runClosure, Interpreter.runClosure]
        refine .bind (.newChild scopes) fun later ref ref' within pair => ?_
        refine .bind
          (.bindParameters decls.parameters pair (same.imp fun _ _ values => values.mono within))
          fun last _ _ more _ => ?_
        exact ih.executeAll beginning depth last _ _ ref ref' decls.body (more.frames pair)
      case execute => exact execute_mirrors ih
      case executeAll =>
        intro beginning depth link body body' ref ref' alike pair
        cases alike with
        | nil => exact .pure .normal
        | cons first rest =>
            rw [Interpreter.executeAll, Interpreter.executeAll]
            refine .bind (ih.execute beginning depth link _ _ ref ref' first pair)
              fun later _ _ within flows => ?_
            cases flows with
            | normal =>
                exact ih.executeAll beginning depth later _ _ ref ref' rest (within.frames pair)
            | breaking signals => exact .pure (.breaking signals)
            | continuing signals => exact .pure (.continuing signals)
            | returning values at_ => exact .pure (.returning values at_)
      case repeatWhile => exact repeatWhile_mirrors ih

end Interpreter

/-- The clock is given nothing. -/
theorem HostFunction.parametric_clock (lines : Nat → Nat → Prop) :
    HostFunction.clock.Parametric lines := by
  rintro result ⟨⟩

end Lox
