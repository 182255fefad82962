import Lox.Interpreter.Run
import Lox.Proofs.Store.Frames
import Lox.Proofs.Syntax.Exits
import Lox.Proofs.Value.Results

/-!
What leaves a statement is stopped around it.

A run can come to some frames and, through the closures bound in them, to the code of some
functions. A `Reach` says which frames these are, and which loose breaks there may be in that code;
it is kept by everything that a run does (`Reach.Keeps`), since a closure made on the way has code
of the program that runs. So the statement that a run is in is always confined, and by one induction
along the evaluator how a statement ends is something that is stopped around it, and the error of a
signal that nothing stops is that of a loose break (`confining`).

Functions of the host are not code that was parsed, so something is asked of them
(`HostFunction.Plain`).
-/

namespace Lox

/-! ### What a run can come to -/

/-- The frames that a run can come to, and the lines of the loose breaks in the code it can come
to. -/
structure Reach where
  frames : FrameRef → Prop
  loose : Nat → Prop

namespace Reach

/-- A function that a run can come to has a confined body. -/
def Code (reach : Reach) (decl : FunctionDecl) : Prop :=
  Stmt.AllConfined reach.loose decl.body .functionBody

/-- A value that a run can come to: if it is a closure, the run can come to its code and its
frame. -/
def Holds (reach : Reach) (value : Value) : Prop :=
  ∀ closure, value = .function (.closure closure) → reach.Code closure.decl ∧
    reach.frames closure.scope

/-- A store in which a run from a frame within reach does not come to anything else. -/
structure Keeps (reach : Reach) (store : Store) : Prop where
  bound : ∀ ref frame name value, reach.frames ref → store.frame? ref = some frame →
    (name, .bound value) ∈ frame.entries → reach.Holds value
  parent : ∀ ref frame parent, reach.frames ref → store.frame? ref = some frame →
    frame.parent = some parent → reach.frames parent
  fresh : ∀ ref, store.frames.size ≤ ref.index → reach.frames ref

/-- How a statement may end that has some exits around it. -/
def Allows (reach : Reach) (exits : Exits) : Flow → Prop
  | .normal => True
  | .breaking ⟨some label, _⟩ => label ∈ exits.labels
  | .breaking ⟨none, line⟩ => exits.inLoop = true ∨ reach.loose line
  | .continuing signal => exits.Resumes signal.label
  | .returning value _ => exits.inFunction = true ∧ reach.Holds value

/-- Nothing that reached the end of what it can leave is anything but a loose break. -/
def Tolerates (reach : Reach) (error : RuntimeError) : Prop :=
  ∀ signal, error.fault = .escapedSignal signal → signal = "break" ∧ reach.loose error.line

end Reach

/-! ### Values -/

namespace Reach

variable {reach : Reach} {store : Store}

theorem holds_ofLiteral (literal : Literal) : reach.Holds (.ofLiteral literal) := by
  cases literal <;> rintro _ ⟨⟩

theorem holds_result {arguments : List Value} {value : Value}
    (plain : PlainResult arguments (.ok value))
    (all : ∀ argument ∈ arguments, reach.Holds argument) : reach.Holds value :=
  fun closure same => all value (plain closure same) closure same

theorem tolerates_of_ne {fault : Fault} {line : Nat}
    (other : ∀ signal, fault ≠ .escapedSignal signal) :
    reach.Tolerates ⟨fault, line⟩ :=
  fun signal same => absurd same (other signal)

/-! ### Stores -/

theorem Keeps.define (keeps : reach.Keeps store) (owner : FrameRef) (name : String)
    {value : Option Value} (holds : ∀ given ∈ value, reach.Holds given) :
    reach.Keeps (store.define owner name value) where
  bound ref frame other held within found member := by
    rw [Store.frame?_define, Option.map_eq_some_iff] at found
    obtain ⟨before, found, rfl⟩ := found
    split at member
    · rcases Frame.mem_insert member with same | member
      · cases value with
        | none => cases same
        | some given =>
            cases same
            exact holds _ rfl
      · exact keeps.bound ref before other held within found member
    · exact keeps.bound ref before other held within found member
  parent ref frame parent within found up := by
    rw [Store.frame?_define, Option.map_eq_some_iff] at found
    obtain ⟨before, found, rfl⟩ := found
    refine keeps.parent ref before parent within found ?_
    split at up
    · exact up
    · exact up
  fresh ref new := keeps.fresh ref (by simpa using new)

theorem Keeps.addFrame (keeps : reach.Keeps store) {parent : Option FrameRef}
    (within : ∀ up ∈ parent, reach.frames up) : reach.Keeps (store.addFrame parent).2 where
  bound ref frame name value here found member := by
    rw [Store.frame?_addFrame] at found
    split at found
    · cases found
      cases member
    · exact keeps.bound ref frame name value here found member
  parent ref frame up here found same := by
    rw [Store.frame?_addFrame] at found
    split at found
    · cases found
      exact within up same
    · exact keeps.parent ref frame up here found same
  fresh ref new := keeps.fresh ref (by rw [Store.size_addFrame] at new; omega)

theorem Keeps.nearest (keeps : reach.Keeps store) {ref owner : FrameRef} {name : String}
    {slot : Slot} (within : reach.frames ref)
    (found : store.nearest? ref name = some (owner, slot)) :
    ∀ value, slot = .bound value → reach.Holds value := by
  obtain ⟨inside, frame, here, member⟩ := Store.search_within reach.frames keeps.parent within found
  rintro value rfl
  exact keeps.bound owner frame name value inside here member

end Reach

/-! ### Actions -/

/-- From a machine within reach an action comes to another, with a value or an error as promised. -/
def Exec.Confines {α : Type} (reach : Reach) (done : α → Prop) (action : Exec α) : Prop :=
  ∀ machine, reach.Keeps machine.store →
    match action machine with
    | .done value after => reach.Keeps after.store ∧ done value
    | .failed error after => reach.Keeps after.store ∧ reach.Tolerates error
    | .outOfFuel => True

namespace Exec.Confines

open Exec

variable {α β : Type} {reach : Reach} {done : α → Prop} {next : β → Prop}

theorem outOfFuel : (outOfFuel : Exec α).Confines reach done :=
  fun _ _ => trivial

theorem pure {value : α} (holds : done value) : (Pure.pure value : Exec α).Confines reach done :=
  fun _ keeps => ⟨keeps, holds⟩

theorem fail {error : RuntimeError} (tolerates : reach.Tolerates error) :
    (fail error : Exec α).Confines reach done :=
  fun _ keeps => ⟨keeps, tolerates⟩

theorem bind {action : Exec α} {rest : α → Exec β} (first : action.Confines reach done)
    (second : ∀ value, done value → (rest value).Confines reach next) :
    (action >>= rest).Confines reach next := by
  intro machine keeps
  have confined := first machine keeps
  change match andThen action rest machine with | .done .. => _ | .failed .. => _ | .outOfFuel => _
  rw [andThen]
  cases result : action machine with
  | outOfFuel => trivial
  | failed error after => rwa [result] at confined
  | done value after =>
      rw [result] at confined
      exact second value confined.2 after confined.1

theorem ofExcept {arguments : List Value} {result : Except Fault Value} (line : Nat)
    (plain : PlainResult arguments result) (all : ∀ argument ∈ arguments, reach.Holds argument) :
    (ofExcept line result).Confines reach reach.Holds := by
  cases result with
  | ok value => exact .pure (Reach.holds_result plain all)
  | error fault => exact .fail (Reach.tolerates_of_ne plain)

theorem print (text : String) : (print text).Confines reach fun _ => True :=
  fun _ keeps => ⟨keeps, trivial⟩

theorem lookup (name : Name) {ref : FrameRef} (within : reach.frames ref) :
    (lookup name ref).Confines reach reach.Holds := by
  intro machine keeps
  rw [Exec.lookup, Store.get]
  cases found : machine.store.nearest? ref name.text with
  | none => exact ⟨keeps, by rintro _ ⟨⟩⟩
  | some entry =>
      obtain ⟨owner, slot⟩ := entry
      cases slot with
      | uninitialized => exact ⟨keeps, by rintro _ ⟨⟩⟩
      | bound value => exact ⟨keeps, keeps.nearest within found value rfl⟩

theorem define (ref : FrameRef) (name : Name) {value : Option Value}
    (holds : ∀ given ∈ value, reach.Holds given) :
    (define ref name value).Confines reach fun _ => True :=
  fun _ keeps => ⟨keeps.define ref name.text holds, trivial⟩

theorem assign (ref : FrameRef) (name : Name) {value : Value} (holds : reach.Holds value) :
    (assign ref name value).Confines reach fun _ => True := by
  intro machine keeps
  rw [Exec.assign]
  cases machine.store.nearest? ref name.text with
  | none => exact ⟨keeps, by rintro _ ⟨⟩⟩
  | some entry =>
      refine ⟨keeps.define entry.1 name.text ?_, trivial⟩
      rintro given ⟨⟩
      exact holds

theorem newChild {parent : FrameRef} (within : reach.frames parent) :
    (newChild parent).Confines reach reach.frames :=
  fun machine keeps => ⟨keeps.addFrame fun _ same => Option.some.inj same ▸ within,
    keeps.fresh machine.store.nextRef (Nat.le_refl _)⟩

theorem makeClosure {decl : FunctionDecl} {scope : FrameRef} (code : reach.Code decl)
    (within : reach.frames scope) :
    (makeClosure decl scope).Confines reach fun closure =>
      reach.Holds (.function (.closure closure)) := by
  intro machine keeps
  refine ⟨⟨keeps.bound, keeps.parent, keeps.fresh⟩, ?_⟩
  rintro closure ⟨⟩
  exact ⟨code, within⟩

theorem bindParameters (ref : FrameRef) (parameters : List Name) {arguments : List Value}
    (all : ∀ argument ∈ arguments, reach.Holds argument) :
    (bindParameters ref parameters arguments).Confines reach fun _ => True := by
  induction parameters generalizing arguments with
  | nil => exact .pure trivial
  | cons parameter parameters ih =>
      cases arguments with
      | nil => exact .pure trivial
      | cons argument arguments =>
          obtain ⟨holds, all⟩ := List.forall_mem_cons.mp all
          refine .bind (.define ref parameter ?_) fun _ _ => ih all
          rintro given ⟨⟩
          exact holds

theorem nested {action : Exec α} (limit line : Nat) (confines : action.Confines reach done) :
    (nested limit line action).Confines reach done := by
  intro machine keeps
  by_cases full : limit ≤ machine.callDepth
  · rw [Exec.nested, if_pos full]
    exact ⟨keeps, by rintro _ ⟨⟩⟩
  · rw [Exec.nested, if_neg full]
    have confined := confines { machine with callDepth := machine.callDepth + 1 } keeps
    cases result : action { machine with callDepth := machine.callDepth + 1 } with
    | outOfFuel => trivial
    | failed error after =>
        rw [result] at confined
        exact confined
    | done value after =>
        rw [result] at confined
        exact confined

theorem callNative {host : Host} (plain : ∀ function ∈ host.functions, function.Plain)
    (native : Native) {arguments : List Value} (line : Nat)
    (all : ∀ argument ∈ arguments, reach.Holds argument) :
    (callNative host native arguments line).Confines reach reach.Holds := by
  rw [Exec.callNative]
  cases found : host.functions[native.id]? with
  | none => exact .pure (by rintro _ ⟨⟩)
  | some function =>
      have same := plain function (Array.mem_of_getElem? found)
      simp only
      cases action : function.action with
      | compute result => exact .ofExcept line (same result action arguments) all
      | readClock => exact fun _ keeps => ⟨⟨keeps.bound, keeps.parent, keeps.fresh⟩, by rintro _ ⟨⟩⟩

end Exec.Confines

/-! ### How statements end -/

namespace Reach

variable {reach : Reach} {exits : Exits} {flow : Flow}

/-- What a loop lets through is stopped around it. -/
theorem Allows.ofLoop (allows : reach.Allows exits.withLoop flow)
    (labelled : ∀ line, flow ≠ .breaking ⟨none, line⟩) : reach.Allows exits flow := by
  cases flow with
  | normal => trivial
  | breaking signal =>
      rcases signal with ⟨_ | label, line⟩
      · exact absurd rfl (labelled line)
      · exact allows
  | continuing signal =>
      rcases signal with ⟨_ | label, line⟩ <;> exact allows
  | returning value line => exact allows

theorem Allows.catchBreak {label : Name} (allows : reach.Allows (exits.withLabel label.text) flow) :
    reach.Allows exits (Interpreter.catchBreak label flow) := by
  cases flow with
  | normal => trivial
  | breaking signal =>
      rw [Interpreter.catchBreak]
      rcases signal with ⟨_ | other, line⟩
      · exact allows
      · split
        · trivial
        · rename_i apart
          refine (List.mem_cons.mp allows).resolve_left fun same => apart ?_
          simp [Signal.targets, same]
  | continuing signal =>
      rcases signal with ⟨_ | other, line⟩ <;> exact allows
  | returning value line => exact allows

theorem Allows.catchContinue {label : Option Name}
    (allows : reach.Allows (exits.withPoint (label.map (·.text))) flow) :
    reach.Allows exits (Interpreter.catchContinue label flow) := by
  cases flow with
  | normal => trivial
  | breaking signal =>
      rcases signal with ⟨_ | other, line⟩ <;> exact allows
  | continuing signal =>
      rw [Interpreter.catchContinue]
      rcases signal with ⟨_ | other, line⟩
      · trivial
      · split
        · trivial
        · rename_i apart
          refine (List.mem_cons.mp allows).resolve_left fun same => apart ?_
          simp [Interpreter.resumes, Signal.targets, same]
  | returning value line => exact allows

/-- A call stops a `return` and nothing else, and a function body has nothing else around it. -/
theorem Allows.callResult (allows : reach.Allows .functionBody flow) :
    (Interpreter.callResult flow).Confines reach reach.Holds := by
  cases flow with
  | normal => exact .pure (by rintro _ ⟨⟩)
  | breaking signal =>
      rcases signal with ⟨_ | label, line⟩
      · refine .fail ?_
        rintro signal ⟨⟩
        exact ⟨rfl, allows.resolve_left (by rintro ⟨⟩)⟩
      · cases allows
  | continuing signal =>
      rcases signal with ⟨_ | label, line⟩
      · exact absurd rfl allows
      · cases allows
  | returning value line => exact .pure allows.2

end Reach

namespace Interpreter

open Exec

/-- The evaluator keeps within reach. -/
structure Confining (host : Host) (reach : Reach) (fuel : Nat) : Prop where
  evaluate : ∀ expr ref, reach.frames ref → (evaluate host fuel expr ref).Confines reach reach.Holds
  evaluateAll : ∀ exprs ref, reach.frames ref →
    (evaluateAll host fuel exprs ref).Confines reach fun values =>
      ∀ value ∈ values, reach.Holds value
  callValue : ∀ callee arguments line, reach.Holds callee →
    (∀ argument ∈ arguments, reach.Holds argument) →
      (callValue host fuel callee arguments line).Confines reach reach.Holds
  runClosure : ∀ closure arguments, reach.Code closure.decl → reach.frames closure.scope →
    (∀ argument ∈ arguments, reach.Holds argument) →
      (runClosure host fuel closure arguments).Confines reach (reach.Allows .functionBody)
  execute : ∀ stmt ref exits, stmt.Confined reach.loose exits → reach.frames ref →
    (execute host fuel stmt ref).Confines reach (reach.Allows exits)
  executeAll : ∀ body ref exits, Stmt.AllConfined reach.loose body exits → reach.frames ref →
    (executeAll host fuel body ref).Confines reach (reach.Allows exits)
  repeatWhile : ∀ condition body ref exits, body.Confined reach.loose exits.withLoop →
    reach.frames ref →
      (repeatWhile host fuel condition body ref).Confines reach (reach.Allows exits)

theorem evaluate_confines {host : Host} {reach : Reach} {fuel : Nat}
    (ih : Confining host reach fuel) (expr : Expr) (ref : FrameRef) (within : reach.frames ref) :
    (evaluate host (fuel + 1) expr ref).Confines reach reach.Holds := by
  cases expr with
  | literal value => exact .pure (Reach.holds_ofLiteral value)
  | group inner => exact ih.evaluate inner ref within
  | unary op line operand =>
      rw [Interpreter.evaluate]
      refine .bind (ih.evaluate operand ref within) fun value _ => ?_
      exact .ofExcept line (op.apply_plain value []) (by simp)
  | binary op line left right =>
      rw [Interpreter.evaluate]
      refine .bind (ih.evaluate left ref within) fun first _ => ?_
      refine .bind (ih.evaluate right ref within) fun second _ => ?_
      exact .ofExcept line (op.apply_plain first second []) (by simp)
  | logical op left right =>
      rw [Interpreter.evaluate]
      refine .bind (ih.evaluate left ref within) fun first holds => ?_
      split
      · exact .pure holds
      · exact ih.evaluate right ref within
  | «variable» name =>
      rw [Interpreter.evaluate]
      exact .lookup name within
  | assign name value =>
      rw [Interpreter.evaluate]
      refine .bind (ih.evaluate value ref within) fun given holds => ?_
      exact .bind (.assign ref name holds) fun _ _ => .pure holds
  | call callee arguments closeLine =>
      rw [Interpreter.evaluate]
      refine .bind (ih.evaluate callee ref within) fun callee holds => ?_
      refine .bind (ih.evaluateAll arguments ref within) fun arguments all => ?_
      exact ih.callValue callee arguments closeLine holds all

theorem execute_confines {host : Host} {reach : Reach} {fuel : Nat} (ih : Confining host reach fuel)
    (stmt : Stmt) (ref : FrameRef) (exits : Exits) (confined : stmt.Confined reach.loose exits)
    (within : reach.frames ref) :
    (execute host (fuel + 1) stmt ref).Confines reach (reach.Allows exits) := by
  cases stmt with
  | expression value =>
      rw [Interpreter.execute]
      exact .bind (ih.evaluate value ref within) fun _ _ => .pure trivial
  | print value =>
      rw [Interpreter.execute]
      refine .bind (ih.evaluate value ref within) fun value _ => ?_
      exact .bind (.print value.render) fun _ _ => .pure trivial
  | define name first =>
      cases first with
      | none =>
          rw [Interpreter.execute]
          exact .bind (.define ref name (by simp)) fun _ _ => .pure trivial
      | some first =>
          rw [Interpreter.execute]
          refine .bind (ih.evaluate first ref within) fun value holds => ?_
          refine .bind (.define ref name ?_) fun _ _ => .pure trivial
          rintro given ⟨⟩
          exact holds
  | block body =>
      rw [Interpreter.execute]
      exact .bind (.newChild within) fun inner inside =>
        ih.executeAll body inner exits confined inside
  | conditional condition thenBranch elseBranch =>
      cases elseBranch with
      | none =>
          rw [Interpreter.execute]
          refine .bind (ih.evaluate condition ref within) fun value _ => ?_
          split
          · exact ih.execute thenBranch ref exits confined within
          · exact .pure trivial
      | some elseBranch =>
          rw [Interpreter.execute]
          refine .bind (ih.evaluate condition ref within) fun value _ => ?_
          split
          · exact ih.execute thenBranch ref exits confined.1 within
          · exact ih.execute elseBranch ref exits confined.2 within
  | loop condition body => exact ih.repeatWhile condition body ref exits confined within
  | breakOut line label =>
      refine .pure ?_
      cases label with
      | none => exact confined.imp_right (·.2)
      | some label => exact confined
  | continueOn line label => exact .pure confined
  | labelled label body =>
      rw [Interpreter.execute]
      refine .bind (ih.execute body ref (exits.withLabel label.text) confined within) ?_
      exact fun flow allows => .pure allows.catchBreak
  | continuePoint label body =>
      rw [Interpreter.execute]
      refine .bind (ih.execute body ref (exits.withPoint _) confined within) ?_
      exact fun flow allows => .pure allows.catchContinue
  | function name parameters body =>
      rw [Interpreter.execute]
      refine .bind (.makeClosure confined within) fun closure holds => ?_
      refine .bind (.define ref name ?_) fun _ _ => .pure trivial
      rintro given ⟨⟩
      exact holds
  | returning line value =>
      rw [Interpreter.execute]
      exact .bind (ih.evaluate value ref within) fun value holds => .pure ⟨confined, holds⟩

theorem confining {host : Host} (plain : ∀ function ∈ host.functions, function.Plain)
    (reach : Reach) :
    ∀ fuel, Confining host reach fuel
  | 0 => by constructor <;> intros <;> exact .outOfFuel
  | fuel + 1 => by
      have ih := confining plain reach fuel
      constructor
      case evaluate => exact evaluate_confines ih
      case evaluateAll =>
        intro exprs ref within
        cases exprs with
        | nil => exact .pure (by simp)
        | cons expr rest =>
            rw [Interpreter.evaluateAll]
            refine .bind (ih.evaluate expr ref within) fun value holds => ?_
            refine .bind (ih.evaluateAll rest ref within) fun values all => ?_
            exact .pure (List.forall_mem_cons.mpr ⟨holds, all⟩)
      case callValue =>
        intro callee arguments line holds all
        cases callee with
        | function callee =>
            simp only [Interpreter.callValue]
            split
            · exact .fail (by rintro _ ⟨⟩)
            · cases callee with
              | native native => exact .callNative plain native line all
              | closure closure =>
                  obtain ⟨code, within⟩ := holds closure rfl
                  refine .bind (.nested _ line (ih.runClosure closure arguments code within all)) ?_
                  exact fun flow allows => allows.callResult
        | nil => exact .fail (by rintro _ ⟨⟩)
        | bool value => exact .fail (by rintro _ ⟨⟩)
        | number value => exact .fail (by rintro _ ⟨⟩)
        | text value => exact .fail (by rintro _ ⟨⟩)
      case runClosure =>
        intro closure arguments code within all
        rw [Interpreter.runClosure]
        refine .bind (.newChild within) fun ref inside => ?_
        refine .bind (.bindParameters ref _ all) fun _ _ => ?_
        exact ih.executeAll closure.decl.body ref .functionBody code inside
      case execute => exact execute_confines ih
      case executeAll =>
        intro body ref exits confined within
        cases body with
        | nil => exact .pure trivial
        | cons first rest =>
            rw [Interpreter.executeAll]
            refine .bind (ih.execute first ref exits confined.1 within) fun flow allows => ?_
            split
            · exact ih.executeAll rest ref exits confined.2 within
            · exact .pure allows
      case repeatWhile =>
        intro condition body ref exits confined within
        rw [Interpreter.repeatWhile]
        refine .bind (ih.evaluate condition ref within) fun value _ => ?_
        split
        · refine .bind (ih.execute body ref exits.withLoop confined within) fun flow allows => ?_
          split
          · exact ih.repeatWhile condition body ref exits confined within
          · exact .pure trivial
          · rename_i labelled
            exact .pure (allows.ofLoop labelled)
        · exact .pure trivial

end Interpreter

end Lox
