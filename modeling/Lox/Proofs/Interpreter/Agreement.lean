import Lox.Interpreter.Evaluate
import Lox.Proofs.Store.Merging
import Lox.Proofs.Syntax.Undeclaring
import Lox.Proofs.Value.Results

/-!
Runs in stores that are the same but for blank frames.

If one machine has blank frames that another lacks, the same code does the same in both: it ends in
the same way with the same fuel, and the machines are again the same but for blank frames
(`agreeing`). The frame that the code runs in has to be a frame of both; it may be a blank one if
the code declares nothing in it.

A function of the host is given values with frames in them. What it does must not depend on which
frames these are (`HostFunction.Oblivious`).
-/

namespace Lox

/-! ### Renamed values -/

namespace Value

variable (into : FrameRef → FrameRef) (value : Value)

theorem looks_rename : (value.rename into).Looks value := by
  rcases value with _ | _ | _ | _ | _ | _
  case function.closure closure => exact .closures rfl
  all_goals exact .same _

@[simp] theorem isTruthy_rename : (value.rename into).isTruthy = value.isTruthy :=
  (value.looks_rename into).isTruthy

@[simp] theorem render_rename : (value.rename into).render = value.render :=
  (value.looks_rename into).render

end Value

theorem UnaryOp.apply_rename (into : FrameRef → FrameRef) (op : UnaryOp) (operand : Value) :
    op.apply (operand.rename into) = op.apply operand :=
  (operand.looks_rename into).unary op

theorem BinaryOp.apply_rename (into : FrameRef → FrameRef) (op : BinaryOp) (left right : Value) :
    op.apply (left.rename into) (right.rename into) = op.apply left right := by
  refine (left.looks_rename into).binary op (right.looks_rename into) ?_
  rcases left with _ | _ | _ | _ | _ | _ <;> rcases right with _ | _ | _ | _ | _ | _ <;> rfl

/-- The same end of a statement with frames renamed. -/
def Flow.rename (into : FrameRef → FrameRef) : Flow → Flow
  | .returning value line => .returning (value.rename into) line
  | flow => flow

/-- A function of the host for which all frames are the same. -/
def HostFunction.Oblivious (function : HostFunction) : Prop :=
  ∀ result, function.action = .compute result → ∀ into arguments,
    result (arguments.map (·.rename into)) = (result arguments).map (·.rename into)

/-- A computation for which all frames are the same gives back no frame that it was not given:
others could be moved away, and the result would not follow. -/
theorem below_of_oblivious {result : List Value → Except Fault Value} {size : Nat}
    {values : List Value} {value : Value}
    (renames : ∀ into : FrameRef → FrameRef,
      result (values.map (·.rename into)) = (result values).map (·.rename into))
    (outcome : result values = .ok value) (below : ∀ value ∈ values, value.Below size) :
    value.Below size := by
  rintro closure rfl
  let away (ref : FrameRef) : FrameRef := if ref.index < size then ref else ⟨ref.index + 1⟩
  have unmoved : values.map (·.rename away) = values := by
    refine (List.map_congr_left fun value member => ?_).trans (List.map_id values)
    have fixed : value.rename away = value.rename id :=
      Value.rename_congr (below value member) fun ref inside => if_pos inside
    exact fixed.trans (Value.rename_id value)
  have moved := renames away
  rw [unmoved, outcome] at moved
  have scope : closure.scope = away closure.scope := by
    cases closure
    simpa [Except.map, Value.rename, Closure.rename] using moved
  rcases Nat.lt_or_ge closure.scope.index size with inside | outside
  · exact inside
  · have index := congrArg FrameRef.index scope
    rw [show away closure.scope = ⟨closure.scope.index + 1⟩ from if_neg (by omega)] at index
    simp at index

namespace Merging

variable {merging later : Merging}

/-- A frame of one store and where it is in the other. -/
def At (merging : Merging) (ref other : FrameRef) : Prop :=
  other = merging.into ref ∧ ref.index < merging.size

/-- A row of values of one store and the same in the other. -/
def SameAll (merging : Merging) (values others : List Value) : Prop :=
  others = values.map (·.rename merging.into) ∧ ∀ value ∈ values, value.Below merging.size

/-- How a statement ends in one store and the same in the other. -/
def SameFlow (merging : Merging) (flow other : Flow) : Prop :=
  other = flow.rename merging.into ∧ ∀ value line,
    flow = .returning value line → value.Below merging.size

theorem Later.at {ref other : FrameRef} (grows : merging.Later later) (at_ : merging.At ref other) :
    later.At ref other := by
  obtain ⟨rfl, inside⟩ := at_
  exact ⟨(grows.into ref inside).symm, Nat.lt_of_lt_of_le inside grows.size⟩

theorem Later.sameAll {values others : List Value} (grows : merging.Later later)
    (same : merging.SameAll values others) : later.SameAll values others := by
  obtain ⟨rfl, below⟩ := same
  refine ⟨List.map_congr_left fun value member => ?_, fun value member => ?_⟩
  · exact (Value.rename_congr (below value member) grows.into).symm
  · exact (below value member).of_le grows.size

theorem same_of_plain {value : Value} (plain : PlainResult [] (.ok value)) :
    merging.Same value value := by
  match value with
  | .function (.closure closure) => exact absurd (plain closure rfl) List.not_mem_nil
  | .function (.native _) | .nil | .bool _ | .number _ | .text _ => exact ⟨rfl, by rintro _ ⟨⟩⟩

theorem sameAll_cons {value other : Value} {values others : List Value}
    (first : merging.Same value other) (rest : merging.SameAll values others) :
    merging.SameAll (value :: values) (other :: others) := by
  obtain ⟨rfl, below⟩ := first
  obtain ⟨rfl, all⟩ := rest
  exact ⟨rfl, List.forall_mem_cons.mpr ⟨below, all⟩⟩

/-- Two machines whose stores are the same but for blank frames. -/
structure Joins (merging : Merging) (left right : Machine) : Prop where
  stores : merging.Relates left.store right.store
  callDepth : right.callDepth = left.callDepth
  printed : right.printed = left.printed
  clockReadings : right.clockReadings = left.clockReadings

/-- Counting calls in both machines alike makes no difference. -/
theorem Joins.counting {left right : Machine} (joins : merging.Joins left right)
    (count : Nat → Nat) :
    merging.Joins { left with callDepth := count left.callDepth }
      { right with callDepth := count right.callDepth } :=
  ⟨joins.stores, congrArg count joins.callDepth, joins.printed, joins.clockReadings⟩

/-- The first machine has a new frame, and the second one goes on with its parent. -/
theorem Joins.addBlank {left right : Machine} {ref : FrameRef} (joins : merging.Joins left right)
    (inside : ref.index < merging.size) :
    (merging.extend (merging.into ref)).At left.store.nextRef (merging.into ref) ∧
      (merging.extend (merging.into ref)).Joins
      { left with store := (left.store.addChild ref).2 } right := by
  have index : left.store.nextRef = ⟨merging.size⟩ := by rw [Store.nextRef, joins.stores.size]
  rw [index]
  exact ⟨⟨(extend_into_size merging _).symm, Nat.lt_succ_self _⟩,
    ⟨joins.stores.addBlank inside, joins.callDepth, joins.printed, joins.clockReadings⟩⟩

/-- Two outcomes that are the same, with machines whose stores are the same but for blank frames. -/
inductive SameOutcome {α β : Type} (merging : Merging) (same : Merging → α → β → Prop) :
    Outcome α → Outcome β → Prop where
  | done {later value other after afterOther} (grows : merging.Later later)
      (joins : later.Joins after afterOther) (holds : same later value other) :
      SameOutcome merging same (.done value after) (.done other afterOther)
  | failed {later error after afterOther} (grows : merging.Later later)
      (joins : later.Joins after afterOther) :
      SameOutcome merging same (.failed error after) (.failed error afterOther)
  | outOfFuel : SameOutcome merging same .outOfFuel .outOfFuel

namespace SameOutcome

variable {α β : Type} {same : Merging → α → β → Prop} {outcome : Outcome α} {other : Outcome β}

theorem of_later (grows : merging.Later later) (outcomes : later.SameOutcome same outcome other) :
    merging.SameOutcome same outcome other := by
  cases outcomes with
  | done more joins holds => exact .done (grows.trans more) joins holds
  | failed more joins => exact .failed (grows.trans more) joins
  | outOfFuel => exact .outOfFuel

theorem outOfFuel_iff (outcomes : merging.SameOutcome same outcome other) :
    outcome = .outOfFuel ↔ other = .outOfFuel := by
  cases outcomes <;> simp

end SameOutcome

end Merging

/-! ### Actions -/

/-- In machines that are the same but for blank frames, two actions have the same outcome. -/
def Exec.Agrees {α β : Type} (merging : Merging) (same : Merging → α → β → Prop) (left : Exec α)
    (right : Exec β) : Prop :=
  ∀ before beforeOther, merging.Joins before beforeOther →
    merging.SameOutcome same (left before) (right beforeOther)

namespace Exec.Agrees

open Exec Merging

variable {α β γ δ : Type} {merging : Merging} {same : Merging → α → β → Prop}
  {sameNext : Merging → γ → δ → Prop} {ref other : FrameRef}

theorem outOfFuel : (outOfFuel : Exec α).Agrees merging same (outOfFuel : Exec β) :=
  fun _ _ _ => .outOfFuel

theorem pure {value : α} {result : β} (holds : same merging value result) :
    (Pure.pure value : Exec α).Agrees merging same (Pure.pure result : Exec β) :=
  fun _ _ joins => .done (.refl merging) joins holds

theorem fail (error : RuntimeError) :
    (fail error : Exec α).Agrees merging same (fail error : Exec β) :=
  fun _ _ joins => .failed (.refl merging) joins

theorem bind {left : Exec α} {right : Exec β} {next : α → Exec γ} {nextOther : β → Exec δ}
    (first : left.Agrees merging same right)
    (second : ∀ later value result, merging.Later later → same later value result →
      (next value).Agrees later sameNext (nextOther result)) :
    (left >>= next).Agrees merging sameNext (right >>= nextOther) := by
  intro before beforeOther joins
  have outcomes := first before beforeOther joins
  change merging.SameOutcome sameNext (andThen left next before)
    (andThen right nextOther beforeOther)
  unfold andThen
  revert outcomes
  generalize left before = outcome
  generalize right beforeOther = outcomeOther
  intro outcomes
  cases outcomes with
  | done grows joinsAfter holds => exact .of_later grows (second _ _ _ grows holds _ _ joinsAfter)
  | failed grows joinsAfter => exact .failed grows joinsAfter
  | outOfFuel => exact .outOfFuel

/-- An operator gives a value without a frame, so the same one. -/
theorem ofExcept {result : Except Fault Value} (line : Nat) (plain : PlainResult [] result) :
    (ofExcept line result).Agrees merging Merging.Same (ofExcept line result) := by
  cases result with
  | ok value => exact .pure (same_of_plain plain)
  | error fault => exact .fail _

theorem print (text : String) :
    (print text).Agrees merging (fun _ _ _ => True) (print text) := by
  intro before beforeOther joins
  refine .done (.refl merging) ⟨joins.stores, joins.callDepth, ?_, joins.clockReadings⟩ trivial
  simp only [joins.printed]

theorem lookup (name : Name) (here : merging.At ref other) :
    (lookup name ref).Agrees merging Merging.Same (lookup name other) := by
  obtain ⟨rfl, inside⟩ := here
  intro before beforeOther joins
  obtain ⟨found, ends⟩ := joins.stores.nearest name.text inside
  simp only [Exec.lookup, Store.get, found]
  cases nearest : before.store.nearest? ref name.text with
  | none => exact .failed (.refl merging) joins
  | some entry =>
      obtain ⟨owner, slot⟩ := entry
      cases slot with
      | uninitialized => exact .failed (.refl merging) joins
      | bound value =>
          obtain ⟨-, -, below⟩ := ends owner _ nearest
          exact .done (.refl merging) joins ⟨rfl, below value rfl⟩

theorem define (name : Name) {value result : Option Value} (here : merging.At ref other)
    (kept : merging.Kept ref) (renamed : result = value.map (·.rename merging.into))
    (below : ∀ given ∈ value, given.Below merging.size) :
    (define ref name value).Agrees merging (fun _ _ _ => True) (define other name result) := by
  obtain ⟨rfl, inside⟩ := here
  subst renamed
  intro before beforeOther joins
  exact .done (.refl merging) ⟨joins.stores.define kept name.text below, joins.callDepth,
    joins.printed, joins.clockReadings⟩ trivial

/-- The frame in which a name is found is not blank, so there is one to assign to. -/
theorem assign (name : Name) {value result : Value} (here : merging.At ref other)
    (holds : merging.Same value result) :
    (assign ref name value).Agrees merging (fun _ _ _ => True) (assign other name result) := by
  obtain ⟨rfl, inside⟩ := here
  obtain ⟨rfl, below⟩ := holds
  intro before beforeOther joins
  obtain ⟨found, ends⟩ := joins.stores.nearest name.text inside
  simp only [Exec.assign, found]
  cases nearest : before.store.nearest? ref name.text with
  | none => exact .failed (.refl merging) joins
  | some entry =>
      obtain ⟨owner, slot⟩ := entry
      obtain ⟨kept, inside, -⟩ := ends owner slot nearest
      have given : ∀ given ∈ some value, given.Below merging.size := by
        rintro given ⟨⟩
        exact below
      exact .done (.refl merging) ⟨joins.stores.define kept name.text given, joins.callDepth,
        joins.printed, joins.clockReadings⟩ trivial

theorem newChild (here : merging.At ref other) :
    (newChild ref).Agrees merging
    (fun later inner innerOther => later.At inner innerOther ∧ later.Kept inner)
      (newChild other) := by
  obtain ⟨rfl, inside⟩ := here
  intro before beforeOther joins
  obtain ⟨kept, relates⟩ := joins.stores.addBoth inside
  have next : before.store.nextRef = ⟨merging.size⟩ := by rw [Store.nextRef, joins.stores.size]
  refine .done (merging.later_extend _)
    ⟨relates, joins.callDepth, joins.printed, joins.clockReadings⟩ ?_
  rw [next]
  exact ⟨⟨(extend_into_size merging _).symm, Nat.lt_succ_self _⟩, kept⟩

theorem makeClosure (decl : FunctionDecl) (here : merging.At ref other) :
    (makeClosure decl ref).Agrees merging
      (fun later closure result =>
        later.Same (.function (.closure closure)) (.function (.closure result)))
      (makeClosure decl other) := by
  obtain ⟨rfl, inside⟩ := here
  intro before beforeOther joins
  obtain ⟨size, closures, formed, frames, places⟩ := joins.stores
  refine .done (.refl merging) ⟨⟨size, congrArg (· + 1) closures, ⟨formed.older, formed.scopes⟩,
    frames, places⟩, joins.callDepth, joins.printed, joins.clockReadings⟩ ⟨?_, ?_⟩
  · simp only [closures, Value.rename, Closure.rename]
  · rintro closure ⟨⟩
    exact inside

theorem bindParameters (parameters : List Name) {values results : List Value}
    (here : merging.At ref other) (kept : merging.Kept ref)
    (holds : merging.SameAll values results) :
    (bindParameters ref parameters values).Agrees merging (fun _ _ _ => True)
      (bindParameters other parameters results) := by
  induction parameters generalizing merging values results with
  | nil => exact .pure trivial
  | cons parameter parameters ih =>
      obtain ⟨rfl, below⟩ := holds
      cases values with
      | nil => exact .pure trivial
      | cons value values =>
          obtain ⟨first, rest⟩ := List.forall_mem_cons.mp below
          refine .bind (.define parameter here kept rfl ?_) fun later _ _ grows _ => ?_
          · rintro given ⟨⟩
            exact first
          · exact ih (grows.at here) (grows.kept here.2 kept) (grows.sameAll ⟨rfl, rest⟩)

theorem nested {left : Exec α} {right : Exec β} (limit line : Nat)
    (agrees : left.Agrees merging same right) :
    (nested limit line left).Agrees merging same (nested limit line right) := by
  intro before beforeOther joins
  have depth := joins.callDepth
  by_cases full : limit ≤ before.callDepth
  · rw [Exec.nested, Exec.nested, if_pos full, if_pos (depth ▸ full)]
    exact .failed (.refl merging) joins
  · rw [Exec.nested, Exec.nested, if_neg full, if_neg (depth ▸ full)]
    have outcomes := agrees _ _ (joins.counting (· + 1))
    revert outcomes
    generalize left _ = outcome
    generalize right _ = outcomeOther
    intro outcomes
    cases outcomes with
    | done grows joins holds => exact .done grows (joins.counting (· - 1)) holds
    | failed grows joins => exact .failed grows (joins.counting (· - 1))
    | outOfFuel => exact .outOfFuel

theorem callNative {host : Host} (oblivious : ∀ function ∈ host.functions, function.Oblivious)
    (native : Native) {values results : List Value} (line : Nat)
    (holds : merging.SameAll values results) :
    (callNative host native values line).Agrees merging Merging.Same
      (callNative host native results line) := by
  obtain ⟨rfl, below⟩ := holds
  rw [Exec.callNative, Exec.callNative]
  cases found : host.functions[native.id]? with
  | none => exact .pure ⟨rfl, by rintro _ ⟨⟩⟩
  | some function =>
      simp only
      cases action : function.action with
      | compute result =>
          have renames := oblivious function (Array.mem_of_getElem? found) result action
          simp only [renames]
          cases outcome : result values with
          | error fault => exact .fail _
          | ok value =>
              exact .pure ⟨rfl, below_of_oblivious (renames · values) outcome below⟩
      | readClock =>
          intro before beforeOther joins
          refine .done (.refl merging) ⟨joins.stores, joins.callDepth, joins.printed, ?_⟩ ?_
          · exact congrArg (· + 1) joins.clockReadings
          · rw [joins.clockReadings]
            exact ⟨rfl, by rintro _ ⟨⟩⟩

end Exec.Agrees

/-! ### Code -/

namespace Interpreter

open Exec Merging

variable {merging : Merging}

theorem sameFlow_catchBreak (label : Name) {flow other : Flow}
    (same : merging.SameFlow flow other) :
    merging.SameFlow (catchBreak label flow) (catchBreak label other) := by
  obtain ⟨rfl, below⟩ := same
  cases flow with
  | breaking signal =>
      simp only [Flow.rename, catchBreak]
      split <;> exact ⟨rfl, by simp⟩
  | normal => exact ⟨rfl, by simp [catchBreak]⟩
  | continuing signal => exact ⟨rfl, by simp [catchBreak]⟩
  | returning value line => exact ⟨rfl, below⟩

theorem sameFlow_catchContinue (label : Option Name) {flow other : Flow}
    (same : merging.SameFlow flow other) :
    merging.SameFlow (catchContinue label flow) (catchContinue label other) := by
  obtain ⟨rfl, below⟩ := same
  cases flow with
  | continuing signal =>
      simp only [Flow.rename, catchContinue]
      split <;> exact ⟨rfl, by simp⟩
  | normal => exact ⟨rfl, by simp [catchContinue]⟩
  | breaking signal => exact ⟨rfl, by simp [catchContinue]⟩
  | returning value line => exact ⟨rfl, below⟩

theorem agrees_callResult {flow other : Flow} (same : merging.SameFlow flow other) :
    (callResult flow).Agrees merging Merging.Same (callResult other) := by
  obtain ⟨rfl, below⟩ := same
  cases flow with
  | normal => exact .pure ⟨rfl, by rintro _ ⟨⟩⟩
  | breaking signal => exact .fail _
  | continuing signal => exact .fail _
  | returning value line => exact .pure ⟨rfl, below value line rfl⟩

/-- With the same fuel the same code does the same in stores that are the same but for blank
frames. -/
structure Agreeing (host : Host) (fuel : Nat) : Prop where
  evaluate : ∀ merging expr ref other, merging.At ref other →
    (evaluate host fuel expr ref).Agrees merging Merging.Same (evaluate host fuel expr other)
  evaluateAll : ∀ merging exprs ref other, merging.At ref other →
    (evaluateAll host fuel exprs ref).Agrees merging Merging.SameAll
    (evaluateAll host fuel exprs other)
  callValue : ∀ (merging : Merging) callee calleeOther values results line,
    merging.Same callee calleeOther → merging.SameAll values results →
      (callValue host fuel callee values line).Agrees merging Merging.Same
        (callValue host fuel calleeOther results line)
  runClosure : ∀ (merging : Merging) (closure : Closure) values results,
    closure.scope.index < merging.size → merging.SameAll values results →
      (runClosure host fuel closure values).Agrees merging Merging.SameFlow
        (runClosure host fuel (closure.rename merging.into) results)
  execute : ∀ (merging : Merging) stmt ref other, merging.At ref other →
    merging.Kept ref ∨ stmt.Undeclaring →
      (execute host fuel stmt ref).Agrees merging Merging.SameFlow (execute host fuel stmt other)
  executeAll : ∀ (merging : Merging) body ref other, merging.At ref other → merging.Kept ref →
    (executeAll host fuel body ref).Agrees merging Merging.SameFlow
    (executeAll host fuel body other)
  repeatWhile : ∀ (merging : Merging) condition body ref other, merging.At ref other →
    merging.Kept ref ∨ body.Undeclaring →
      (repeatWhile host fuel condition body ref).Agrees merging Merging.SameFlow
        (repeatWhile host fuel condition body other)

theorem evaluate_agrees {host : Host} {fuel : Nat} (ih : Agreeing host fuel) (merging : Merging)
    (expr : Expr) (ref other : FrameRef) (here : merging.At ref other) :
    (evaluate host (fuel + 1) expr ref).Agrees merging Merging.Same
      (evaluate host (fuel + 1) expr other) := by
  cases expr with
  | literal value => exact .pure ⟨by cases value <;> rfl, by cases value <;> rintro _ ⟨⟩⟩
  | group inner => exact ih.evaluate merging inner ref other here
  | unary op line operand =>
      rw [Interpreter.evaluate, Interpreter.evaluate]
      refine .bind (ih.evaluate merging operand ref other here) fun later value result _ same => ?_
      obtain ⟨rfl, -⟩ := same
      rw [op.apply_rename]
      exact .ofExcept line (op.apply_plain value [])
  | binary op line left right =>
      rw [Interpreter.evaluate, Interpreter.evaluate]
      refine .bind (ih.evaluate merging left ref other here) fun later first _ grows same => ?_
      refine .bind (ih.evaluate later right ref other (grows.at here))
        fun last second _ more sameSecond => ?_
      obtain ⟨rfl, -⟩ := more.same same
      obtain ⟨rfl, -⟩ := sameSecond
      rw [op.apply_rename]
      exact .ofExcept line (op.apply_plain first second [])
  | logical op left right =>
      rw [Interpreter.evaluate, Interpreter.evaluate]
      refine .bind (ih.evaluate merging left ref other here) fun later first result grows same => ?_
      have decision : decides op result = decides op first := by
        cases op <;> simp [decides, same.1]
      rw [decision]
      split
      · exact .pure same
      · exact ih.evaluate later right ref other (grows.at here)
  | «variable» name =>
      rw [Interpreter.evaluate, Interpreter.evaluate]
      exact .lookup name here
  | assign name value =>
      rw [Interpreter.evaluate, Interpreter.evaluate]
      refine .bind (ih.evaluate merging value ref other here)
        fun later first result grows same => ?_
      refine .bind (.assign name (grows.at here) same) fun last _ _ more _ => ?_
      exact .pure (more.same same)
  | call callee arguments closeLine =>
      rw [Interpreter.evaluate, Interpreter.evaluate]
      refine .bind (ih.evaluate merging callee ref other here) fun later _ _ grows same => ?_
      refine .bind (ih.evaluateAll later arguments ref other (grows.at here))
        fun last _ _ more sameAll => ?_
      exact ih.callValue last _ _ _ _ closeLine (more.same same) sameAll

theorem execute_agrees {host : Host} {fuel : Nat} (ih : Agreeing host fuel) (merging : Merging)
    (stmt : Stmt) (ref other : FrameRef) (here : merging.At ref other)
    (may : merging.Kept ref ∨ stmt.Undeclaring) :
    (execute host (fuel + 1) stmt ref).Agrees merging Merging.SameFlow
      (execute host (fuel + 1) stmt other) := by
  cases stmt with
  | expression value =>
      rw [Interpreter.execute, Interpreter.execute]
      refine .bind (ih.evaluate merging value ref other here) fun later _ _ _ _ => ?_
      exact .pure ⟨rfl, by simp⟩
  | print value =>
      rw [Interpreter.execute, Interpreter.execute]
      refine .bind (ih.evaluate merging value ref other here) fun later first _ _ same => ?_
      obtain ⟨rfl, -⟩ := same
      rw [Value.render_rename]
      exact .bind (.print first.render) fun last _ _ _ _ => .pure ⟨rfl, by simp⟩
  | define name first =>
      have kept := may.resolve_right id
      cases first with
      | none =>
          rw [Interpreter.execute, Interpreter.execute]
          refine .bind (.define name here kept rfl (by simp)) fun later _ _ _ _ => ?_
          exact .pure ⟨rfl, by simp⟩
      | some first =>
          rw [Interpreter.execute, Interpreter.execute]
          refine .bind (ih.evaluate merging first ref other here) fun later value _ grows same => ?_
          obtain ⟨rfl, below⟩ := same
          refine .bind (.define name (grows.at here) (grows.kept here.2 kept) rfl ?_)
            fun last _ _ _ _ => .pure ⟨rfl, by simp⟩
          rintro given ⟨⟩
          exact below
  | block body =>
      rw [Interpreter.execute, Interpreter.execute]
      refine .bind (.newChild here) fun later inner innerOther _ place => ?_
      exact ih.executeAll later body inner innerOther place.1 place.2
  | conditional condition thenBranch elseBranch =>
      cases elseBranch with
      | none =>
          rw [Interpreter.execute, Interpreter.execute]
          refine .bind (ih.evaluate merging condition ref other here)
            fun later value _ grows same => ?_
          obtain ⟨rfl, -⟩ := same
          have mayHere : later.Kept ref ∨ thenBranch.Undeclaring := may.imp_left (grows.kept here.2)
          rw [Value.isTruthy_rename]
          split
          · exact ih.execute later thenBranch ref other (grows.at here) mayHere
          · exact .pure ⟨rfl, by simp⟩
      | some elseBranch =>
          rw [Interpreter.execute, Interpreter.execute]
          refine .bind (ih.evaluate merging condition ref other here)
            fun later value _ grows same => ?_
          obtain ⟨rfl, -⟩ := same
          have mayHere : later.Kept ref ∨ thenBranch.Undeclaring ∧ elseBranch.Undeclaring :=
            may.imp_left (grows.kept here.2)
          rw [Value.isTruthy_rename]
          split
          · exact ih.execute later thenBranch ref other (grows.at here) (mayHere.imp_right (·.1))
          · exact ih.execute later elseBranch ref other (grows.at here) (mayHere.imp_right (·.2))
  | loop condition body => exact ih.repeatWhile merging condition body ref other here may
  | breakOut line label => exact .pure ⟨rfl, by simp⟩
  | continueOn line label => exact .pure ⟨rfl, by simp⟩
  | labelled label body =>
      rw [Interpreter.execute, Interpreter.execute]
      refine .bind (ih.execute merging body ref other here may) fun later _ _ _ same => ?_
      exact .pure (sameFlow_catchBreak label same)
  | continuePoint label body =>
      rw [Interpreter.execute, Interpreter.execute]
      refine .bind (ih.execute merging body ref other here may) fun later _ _ _ same => ?_
      exact .pure (sameFlow_catchContinue label same)
  | function name parameters body =>
      have kept := may.resolve_right id
      rw [Interpreter.execute, Interpreter.execute]
      refine .bind (.makeClosure _ here) fun later closure result grows same => ?_
      obtain ⟨renamed, below⟩ := same
      refine .bind (.define name (grows.at here) (grows.kept here.2 kept) ?_ ?_)
        fun last _ _ _ _ => .pure ⟨rfl, by simp⟩
      · exact congrArg some renamed
      · rintro given ⟨⟩
        exact below
  | returning line value =>
      rw [Interpreter.execute, Interpreter.execute]
      refine .bind (ih.evaluate merging value ref other here) fun later first _ _ same => ?_
      obtain ⟨rfl, below⟩ := same
      refine .pure ⟨rfl, ?_⟩
      rintro value line ⟨⟩
      exact below

theorem agreeing {host : Host} (oblivious : ∀ function ∈ host.functions, function.Oblivious) :
    ∀ fuel, Agreeing host fuel
  | 0 => by constructor <;> intros <;> exact .outOfFuel
  | fuel + 1 => by
      have ih := agreeing oblivious fuel
      constructor
      case evaluate => exact evaluate_agrees ih
      case evaluateAll =>
        intro merging exprs ref other here
        cases exprs with
        | nil => exact .pure ⟨rfl, by simp⟩
        | cons expr rest =>
            rw [Interpreter.evaluateAll, Interpreter.evaluateAll]
            refine .bind (ih.evaluate merging expr ref other here) fun later _ _ grows same => ?_
            refine .bind (ih.evaluateAll later rest ref other (grows.at here))
              fun last _ _ more sameAll => ?_
            exact .pure (sameAll_cons (more.same same) sameAll)
      case callValue =>
        intro merging callee calleeOther values results line same sameAll
        obtain ⟨rfl, below⟩ := same
        have lengths : results.length = values.length := by rw [sameAll.1, List.length_map]
        match callee with
        | .function (.native native) =>
            simp only [Interpreter.callValue, Value.rename, lengths]
            split
            · exact .fail _
            · exact .callNative oblivious native line sameAll
        | .function (.closure closure) =>
            simp only [Interpreter.callValue, Value.rename, lengths]
            change (if values.length ≠ closure.decl.arity then _ else _ : Exec Value).Agrees _ _
              (if values.length ≠ closure.decl.arity then _ else _)
            split
            · exact .fail _
            · have runs := ih.runClosure merging closure values results (below closure rfl) sameAll
              refine .bind (.nested _ line runs) fun later _ _ _ same => ?_
              exact agrees_callResult same
        | .nil => exact .fail _
        | .bool value => exact .fail _
        | .number value => exact .fail _
        | .text value => exact .fail _
      case runClosure =>
        intro merging closure values results inside sameAll
        rw [Interpreter.runClosure, Interpreter.runClosure]
        refine .bind (.newChild ⟨rfl, inside⟩) fun later ref other grows place => ?_
        obtain ⟨here, kept⟩ := place
        refine .bind (.bindParameters _ here kept (grows.sameAll sameAll)) fun last _ _ more _ => ?_
        exact ih.executeAll last closure.decl.body ref other (more.at here) (more.kept here.2 kept)
      case execute => exact execute_agrees ih
      case executeAll =>
        intro merging body ref other here kept
        cases body with
        | nil => exact .pure ⟨rfl, by simp⟩
        | cons first rest =>
            rw [Interpreter.executeAll, Interpreter.executeAll]
            refine .bind (ih.execute merging first ref other here (.inl kept))
              fun later flow _ grows same => ?_
            obtain ⟨rfl, below⟩ := same
            cases flow with
            | normal =>
                exact ih.executeAll later rest ref other (grows.at here) (grows.kept here.2 kept)
            | breaking signal => exact .pure ⟨rfl, below⟩
            | continuing signal => exact .pure ⟨rfl, below⟩
            | returning value line => exact .pure ⟨rfl, below⟩
      case repeatWhile =>
        intro merging condition body ref other here may
        rw [Interpreter.repeatWhile, Interpreter.repeatWhile]
        refine .bind (ih.evaluate merging condition ref other here)
          fun later value _ grows same => ?_
        obtain ⟨rfl, -⟩ := same
        rw [Value.isTruthy_rename]
        split
        · have mayHere := may.imp_left (grows.kept here.2)
          refine .bind (ih.execute later body ref other (grows.at here) mayHere)
            fun last flow _ more same => ?_
          obtain ⟨rfl, below⟩ := same
          have mayGoOn := mayHere.imp_left (more.kept (grows.at here).2)
          cases flow with
          | normal =>
              exact ih.repeatWhile last condition body ref other (more.at (grows.at here)) mayGoOn
          | breaking signal => rcases signal with ⟨_ | label, line⟩ <;> exact .pure ⟨rfl, by simp⟩
          | continuing signal => exact .pure ⟨rfl, by simp⟩
          | returning value line => exact .pure ⟨rfl, below⟩
        · exact .pure ⟨rfl, by simp⟩

end Interpreter

end Lox
