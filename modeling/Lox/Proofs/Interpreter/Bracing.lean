import Lox.Proofs.Interpreter.Recoding
import Lox.Proofs.Syntax.Bracing

/-!
Braces around a single statement make no difference.

Taking all blocks around single statements that declare nothing out of a program, and out of the
bodies of the functions that it has made, leaves what it does as it is (`unbracing`). Such a block
makes a frame in which nothing is bound, so the two machines are the same up to blank frames and the
code of closures, and remain so. The program without them takes fewer steps, so it is not compared
step by step: with the fuel with which either of the two ends, both end.

Two programs that are the same without such blocks are therefore not to be told apart, in particular
a program and the same with braces around one of its statements (`braces_invisible`).
-/

namespace Lox

/-- The recoding that takes the braces around single statements out of all functions. -/
def withoutBraces : Recoding := ⟨FunctionDecl.unbraced, fun _ => rfl, fun _ => rfl⟩

namespace Outcome

variable {α : Type}

/-- What is seen of an outcome: its result and the lines that have been printed. -/
def shown : Outcome α → Option (Except RuntimeError α × List String)
  | .done value machine => some (.ok value, machine.printed.toList)
  | .failed error machine => some (.error error, machine.printed.toList)
  | .outOfFuel => none

end Outcome

/-- What is seen with some fuel is seen of what the action comes to. -/
theorem Steady.shown_iff {α : Type} {run : Nat → Exec α} (steady : Steady run) {before : Machine}
    {seen : Except RuntimeError α × List String} :
    (∃ fuel, (run fuel before).shown = some seen) ↔
      ∃ outcome, Ends run before outcome ∧ outcome.shown = some seen := by
  constructor
  · rintro ⟨fuel, shows⟩
    refine ⟨run fuel before, steady.ends fun starved => ?_, shows⟩
    rw [starved] at shows
    cases shows
  · rintro ⟨outcome, ⟨-, enough, all⟩, shows⟩
    exact ⟨enough, (congrArg Outcome.shown (all enough (Nat.le_refl _))).trans shows⟩

theorem Merging.SameRecoded.shown {recoding : Recoding} {merging : Merging}
    {same : Merging → Unit → Unit → Prop} {outcome other : Outcome Unit}
    (outcomes : merging.SameRecoded recoding same outcome other) :
    other.shown = outcome.shown := by
  cases outcomes with
  | done grows joins holds => simp only [Outcome.shown, Recoding.machine, joins.printed]
  | failed grows joins => simp only [Outcome.shown, Recoding.machine, joins.printed]

namespace Interpreter

open Exec Merging

/-! ### Braces -/

section Braces

variable {host : Host} {stmt : Stmt} {ref : FrameRef} {before : Machine}

/-- A statement in braces ends as it does in a new frame. -/
theorem ends_braced {outcome : Outcome Flow}
    (ends : Ends (execute host · stmt before.store.nextRef)
      { before with store := (before.store.addChild ref).2 } outcome) :
    Ends (execute host · (.block [stmt]) ref) before outcome := by
  have added : Ends (fun _ => newChild ref) before
      (.done before.store.nextRef { before with store := (before.store.addChild ref).2 }) :=
    .const (by simp) rfl
  exact Ends.step.mp (added.bind ((ends_executeAll_single host stmt _ _ outcome).mpr ends))

/-- A statement that comes to no end comes to none in braces. -/
theorem braced_starves {fuel : Nat}
    (starved : execute host fuel stmt before.store.nextRef
      { before with store := (before.store.addChild ref).2 } = .outOfFuel) :
    execute host fuel (.block [stmt]) ref before = .outOfFuel := by
  match fuel with
  | 0 | 1 => rfl
  | fuel + 2 =>
      have inside : execute host fuel stmt before.store.nextRef
          { before with store := (before.store.addChild ref).2 } = .outOfFuel := by
        by_contra ends
        have more := (steady_execute host _ stmt).of_le (Nat.le_add_right fuel 2) _ ends
        exact ends (more.symm.trans starved)
      have added : newChild ref before =
        .done before.store.nextRef { before with store := (before.store.addChild ref).2 } := rfl
      exact (bind_done added).trans (bind_outOfFuel inside)

/-- The frame that braces make is not missed. -/
theorem tracks_braced {recoding : Recoding} {fuel : Nat} {merging : Merging} {β : Type}
    {same : Merging → Flow → β → Prop} {right : Nat → Exec β} {place : FrameRef}
    (here : merging.At ref place)
    (rest : ∀ later inner, merging.Later later → later.At inner place →
      Tracks recoding fuel later same (execute host · stmt inner) right) :
    Tracks recoding fuel merging same (execute host · (.block [stmt]) ref) right := by
  obtain ⟨rfl, inside⟩ := here
  intro before middle joins ends
  have grows := merging.later_extend (merging.into ref)
  obtain ⟨place, joinsInside⟩ := joins.addBlank inside
  obtain ⟨outcome, other, endsLeft, endsRight, outcomes⟩ :=
    rest _ _ grows place _ middle joinsInside (ends.imp_left (mt braced_starves))
  exact ⟨outcome, other, ends_braced endsLeft, endsRight, .of_later grows outcomes⟩

end Braces

/-! ### Programs without braces -/

/-- If code ends with so much fuel, or the code without braces does, both end in the same way. -/
structure Unbracing (host : Host) (fuel : Nat) : Prop where
  evaluate : ∀ (merging : Merging) expr ref place, merging.At ref place →
    Tracks withoutBraces fuel merging (Merging.Recoded withoutBraces) (evaluate host · expr ref)
      (evaluate host · expr place)
  evaluateAll : ∀ (merging : Merging) exprs ref place, merging.At ref place →
    Tracks withoutBraces fuel merging (Merging.AllRecoded withoutBraces)
      (evaluateAll host · exprs ref)
      (evaluateAll host · exprs place)
  callValue : ∀ (merging : Merging) callee calleeOther values others line,
    merging.Recoded withoutBraces callee calleeOther →
      merging.AllRecoded withoutBraces values others →
      Tracks withoutBraces fuel merging (Merging.Recoded withoutBraces)
        (callValue host · callee values line)
        (callValue host · calleeOther others line)
  runClosure : ∀ (merging : Merging) (closure : Closure) values others,
    closure.scope.index < merging.size → merging.AllRecoded withoutBraces values others →
      Tracks withoutBraces fuel merging (Merging.FlowRecoded withoutBraces)
        (runClosure host · closure values)
        (runClosure host · (withoutBraces.closure (closure.rename merging.into)) others)
  execute : ∀ (merging : Merging) (stmt : Stmt) ref place, merging.At ref place →
    merging.Kept ref ∨ stmt.Undeclaring →
      Tracks withoutBraces fuel merging (Merging.FlowRecoded withoutBraces)
        (execute host · stmt ref)
        (execute host · stmt.unbraced place)
  executeAll : ∀ (merging : Merging) body ref place, merging.At ref place → merging.Kept ref →
    Tracks withoutBraces fuel merging (Merging.FlowRecoded withoutBraces)
      (executeAll host · body ref)
      (executeAll host · (Stmt.allUnbraced body) place)
  repeatWhile : ∀ (merging : Merging) condition (body : Stmt) ref place, merging.At ref place →
    merging.Kept ref ∨ body.Undeclaring →
      Tracks withoutBraces fuel merging (Merging.FlowRecoded withoutBraces)
        (repeatWhile host · condition body ref)
        (repeatWhile host · condition body.unbraced place)

namespace Unbracing

variable {host : Host} {fuel : Nat} (ih : Unbracing host fuel) {merging : Merging}
    {ref place : FrameRef} {α : Type}
  {same : Merging → α → α → Prop}
include ih

/-- An expression is evaluated, and something else is done after it. -/
theorem evaluateThen {next nextOther : Nat → Value → Exec α} (expr : Expr)
    (here : merging.At ref place)
    (rest : ∀ later value other, merging.Later later → later.Recoded withoutBraces value other →
      Tracks withoutBraces fuel later same (next · value) (nextOther · other)) :
    Tracks withoutBraces fuel merging same
      (fun fuel => Interpreter.evaluate host fuel expr ref >>= next fuel)
      (fun fuel => Interpreter.evaluate host fuel expr place >>= nextOther fuel) :=
  .bind (steady_evaluate host ref expr) (steady_evaluate host place expr)
    (ih.evaluate merging expr ref place here)
    rest

/-- A row of expressions is evaluated, and something else is done after it. -/
theorem evaluateAllThen {next nextOther : Nat → List Value → Exec α} (exprs : List Expr)
    (here : merging.At ref place)
    (rest : ∀ later values others, merging.Later later →
      later.AllRecoded withoutBraces values others →
        Tracks withoutBraces fuel later same (next · values) (nextOther · others)) :
    Tracks withoutBraces fuel merging same
      (fun fuel => Interpreter.evaluateAll host fuel exprs ref >>= next fuel)
      (fun fuel => Interpreter.evaluateAll host fuel exprs place >>= nextOther fuel) :=
  .bind (steady_evaluateAll host ref exprs) (steady_evaluateAll host place exprs)
    (ih.evaluateAll merging exprs ref place here) rest

/-- A statement is executed, and something else is done after it. -/
theorem executeThen {next nextOther : Nat → Flow → Exec α} (stmt : Stmt)
    (here : merging.At ref place) (may : merging.Kept ref ∨ stmt.Undeclaring)
    (rest : ∀ later flow other, merging.Later later → later.FlowRecoded withoutBraces flow other →
      Tracks withoutBraces fuel later same (next · flow) (nextOther · other)) :
    Tracks withoutBraces fuel merging same
      (fun fuel => Interpreter.execute host fuel stmt ref >>= next fuel)
      (fun fuel => Interpreter.execute host fuel stmt.unbraced place >>= nextOther fuel) :=
  .bind (steady_execute host ref stmt) (steady_execute host place stmt.unbraced)
    (ih.execute merging stmt ref place here may) rest

end Unbracing

theorem flow_catchBreak {recoding : Recoding} {merging : Merging} (label : Name) {flow other : Flow}
    (same : merging.FlowRecoded recoding flow other) :
    merging.FlowRecoded recoding (catchBreak label flow) (catchBreak label other) := by
  cases same with
  | normal => exact .normal
  | continuing signal => exact .continuing signal
  | returning same line => exact .returning same line
  | breaking signal =>
      rw [catchBreak]
      split
      · exact .normal
      · exact .breaking signal

theorem flow_catchContinue {recoding : Recoding} {merging : Merging} (label : Option Name)
    {flow other : Flow} (same : merging.FlowRecoded recoding flow other) :
    merging.FlowRecoded recoding (catchContinue label flow) (catchContinue label other) := by
  cases same with
  | normal => exact .normal
  | breaking signal => exact .breaking signal
  | returning same line => exact .returning same line
  | continuing signal =>
      rw [catchContinue]
      split
      · exact .normal
      · exact .continuing signal

theorem tracks_callResult {recoding : Recoding} {fuel : Nat} {merging : Merging} {flow other : Flow}
    (same : merging.FlowRecoded recoding flow other) :
    Tracks recoding fuel merging (Merging.Recoded recoding) (fun _ => callResult flow)
      (fun _ => callResult other) := by
  cases same with
  | normal => exact .pure ⟨rfl, by rintro _ ⟨⟩⟩
  | breaking signal => exact .fail _
  | continuing signal => exact .fail _
  | returning same line => exact .pure same

section Step

variable {host : Host} {fuel : Nat} (ih : Unbracing host fuel) (merging : Merging)
    {ref place : FrameRef}
include ih

theorem evaluate_tracks (expr : Expr) (here : merging.At ref place) :
    Tracks withoutBraces (fuel + 1) merging (Merging.Recoded withoutBraces)
      (evaluate host · expr ref)
      (evaluate host · expr place) := by
  refine .step ?_
  cases expr with
  | literal value => exact .pure ⟨by cases value <;> rfl, by cases value <;> rintro _ ⟨⟩⟩
  | group inner => exact ih.evaluate merging inner ref place here
  | unary op line operand =>
      refine ih.evaluateThen operand here fun later value other _ same => ?_
      rw [same.unary]
      exact .ofExcept line (op.apply_plain value [])
  | binary op line left right =>
      refine ih.evaluateThen left here fun later first other grows same => ?_
      refine ih.evaluateThen right (grows.at here) fun last second otherSecond more sameSecond => ?_
      rw [(more.recoded same).binary op sameSecond]
      exact .ofExcept line (op.apply_plain first second [])
  | logical op left right =>
      refine ih.evaluateThen left here fun later first other grows same => ?_
      have decision : decides op other = decides op first := by
        cases op <;> simp [decides, same.isTruthy]
      rw [decision]
      split
      · exact .pure same
      · exact ih.evaluate later right ref place (grows.at here)
  | «variable» name => exact .lookup name here
  | assign name value =>
      refine ih.evaluateThen value here fun later first other grows same => ?_
      refine .bindStep (.assign name (grows.at here) same) fun last _ _ more _ => ?_
      exact .pure (more.recoded same)
  | call callee arguments closeLine =>
      refine ih.evaluateThen callee here fun later _ _ grows same => ?_
      refine ih.evaluateAllThen arguments (grows.at here) fun last _ _ more all => ?_
      exact ih.callValue last _ _ _ _ closeLine (more.recoded same) all

theorem evaluateAll_tracks (exprs : List Expr) (here : merging.At ref place) :
    Tracks withoutBraces (fuel + 1) merging (Merging.AllRecoded withoutBraces)
      (evaluateAll host · exprs ref)
      (evaluateAll host · exprs place) := by
  refine .step ?_
  cases exprs with
  | nil => exact .pure ⟨rfl, by simp⟩
  | cons expr rest =>
      refine ih.evaluateThen expr here fun later _ _ grows same => ?_
      refine ih.evaluateAllThen rest (grows.at here) fun last _ _ more all => ?_
      exact .pure (allRecoded_cons (more.recoded same) all)

theorem callValue_tracks (discreet : ∀ function ∈ host.functions, function.Discreet) (line : Nat)
    {callee calleeOther : Value} {values others : List Value}
    (same : merging.Recoded withoutBraces callee calleeOther)
    (all : merging.AllRecoded withoutBraces values others) :
    Tracks withoutBraces (fuel + 1) merging (Merging.Recoded withoutBraces)
      (callValue host · callee values line)
      (callValue host · calleeOther others line) := by
  refine .step ?_
  obtain ⟨rfl, below⟩ := same
  have lengths : others.length = values.length := by rw [all.1, List.length_map, List.length_map]
  match callee with
  | .function (.native native) =>
      simp only [Interpreter.callValue, Value.rename, Recoding.value, lengths]
      by_cases misfit : values.length ≠ (Function.native native).arity
      · simp only [if_pos misfit]
        exact .fail _
      · simp only [if_neg misfit]
        exact .callNative discreet native line all
  | .function (.closure closure) =>
      have arity : (Function.closure (withoutBraces.closure (closure.rename merging.into))).arity =
        (Function.closure closure).arity := withoutBraces.arity (closure.rename merging.into)
      simp only [Interpreter.callValue, Value.rename, Recoding.value, lengths, arity]
      by_cases misfit : values.length ≠ (Function.closure closure).arity
      · simp only [if_pos misfit]
        exact .fail _
      · simp only [if_neg misfit]
        have runs := ih.runClosure merging closure values others (below closure rfl) all
        have steady := steady_runClosure host closure values
        have steadyOther :=
          steady_runClosure host (withoutBraces.closure (closure.rename merging.into)) others
        refine .bind (fun n => .nested _ line (steady n)) (fun n => .nested _ line (steadyOther n))
          (.nested steady steadyOther _ line runs) fun later flow other _ same => ?_
        exact tracks_callResult same
  | .nil => exact .fail _
  | .bool value => exact .fail _
  | .number value => exact .fail _
  | .text value => exact .fail _

theorem runClosure_tracks (closure : Closure) (inside : closure.scope.index < merging.size)
    {values others : List Value} (all : merging.AllRecoded withoutBraces values others) :
    Tracks withoutBraces (fuel + 1) merging (Merging.FlowRecoded withoutBraces)
      (runClosure host · closure values)
      (runClosure host · (withoutBraces.closure (closure.rename merging.into)) others) := by
  refine .step ?_
  refine .bindStep (.newChild ⟨rfl, inside⟩) fun later ref place grows inner => ?_
  obtain ⟨here, kept⟩ := inner
  refine .bindStep (.bindParameters here kept _ (grows.allRecoded all)) fun last _ _ more _ => ?_
  exact ih.executeAll last closure.decl.body ref place (more.at here) (more.kept here.2 kept)

/-- Statements are run in the same way on both sides, except that a block is run in a new frame on
the first side only if it is braces. -/
theorem execute_tracks :
    ∀ (stmt : Stmt) {merging : Merging} {ref place : FrameRef}, merging.At ref place →
    merging.Kept ref ∨ stmt.Undeclaring →
      Tracks withoutBraces (fuel + 1) merging (Merging.FlowRecoded withoutBraces)
        (execute host · stmt ref)
        (execute host · stmt.unbraced place)
  | .expression value, merging, ref, place, here, _ => by
      refine .step (ih.evaluateThen value here fun later _ _ _ _ => ?_)
      exact .pure .normal
  | .print value, merging, ref, place, here, _ => by
      refine .step (ih.evaluateThen value here fun later first other _ same => ?_)
      rw [same.render]
      exact .bindStep (.print first.render) fun last _ _ _ _ => .pure .normal
  | .define name none, merging, ref, place, here, may => by
      have kept := may.resolve_right id
      exact .step (.bindStep (.declare name here kept) fun _ _ _ _ _ => .pure .normal)
  | .define name (some first), merging, ref, place, here, may => by
      have kept := may.resolve_right id
      refine .step (ih.evaluateThen first here fun later value other grows same => ?_)
      exact .bindStep (.define name (grows.at here) (grows.kept here.2 kept) same)
        fun _ _ _ _ _ => .pure .normal
  | .block body, merging, ref, place, here, _ => by
      rcases Stmt.unbraced_block body with ⟨stmt, rfl, undeclaring, same⟩ | same
      · rw [same]
        exact tracks_braced here fun later inner _ at_ => execute_tracks stmt at_ (.inr undeclaring)
      · rw [same]
        refine .step (.bindStep (.newChild here) fun later inner innerOther _ made => ?_)
        exact ih.executeAll later body inner innerOther made.1 made.2
  | .conditional condition thenBranch none, merging, ref, place, here, may => by
      rw [Stmt.unbraced]
      refine .step (ih.evaluateThen condition here fun later value other grows same => ?_)
      rw [same.isTruthy]
      have mayHere : later.Kept ref ∨ thenBranch.Undeclaring := may.imp_left (grows.kept here.2)
      split
      · exact ih.execute later thenBranch ref place (grows.at here) mayHere
      · exact .pure .normal
  | .conditional condition thenBranch (some elseBranch), merging, ref, place, here, may => by
      rw [Stmt.unbraced]
      refine .step (ih.evaluateThen condition here fun later value other grows same => ?_)
      rw [same.isTruthy]
      have mayHere : later.Kept ref ∨ thenBranch.Undeclaring ∧ elseBranch.Undeclaring :=
        may.imp_left (grows.kept here.2)
      split
      · exact ih.execute later thenBranch ref place (grows.at here) (mayHere.imp_right (·.1))
      · exact ih.execute later elseBranch ref place (grows.at here) (mayHere.imp_right (·.2))
  | .loop condition body, merging, ref, place, here, may => by
      rw [Stmt.unbraced]
      exact .step (ih.repeatWhile merging condition body ref place here may)
  | .breakOut line label, _, _, _, _, _ => .step (.pure (.breaking _))
  | .continueOn line label, _, _, _, _, _ => .step (.pure (.continuing _))
  | .labelled label body, merging, ref, place, here, may => by
      rw [Stmt.unbraced]
      refine .step (ih.executeThen body here may fun later flow other _ same => ?_)
      exact .pure (flow_catchBreak label same)
  | .continuePoint label body, merging, ref, place, here, may => by
      rw [Stmt.unbraced]
      refine .step (ih.executeThen body here may fun later flow other _ same => ?_)
      exact .pure (flow_catchContinue label same)
  | .function name parameters body, merging, ref, place, here, may => by
      have kept := may.resolve_right id
      rw [Stmt.unbraced]
      refine .step (.bindStep (.makeClosure here ⟨name, parameters, body⟩)
        fun later made other grows same => ?_)
      exact .bindStep (.define name (grows.at here) (grows.kept here.2 kept) same)
        fun _ _ _ _ _ => .pure .normal
  | .returning line value, merging, ref, place, here, _ => by
      refine .step (ih.evaluateThen value here fun later first other _ same => ?_)
      exact .pure (.returning same line)

theorem executeAll_tracks (body : List Stmt) (here : merging.At ref place)
    (kept : merging.Kept ref) :
    Tracks withoutBraces (fuel + 1) merging (Merging.FlowRecoded withoutBraces)
      (executeAll host · body ref)
      (executeAll host · (Stmt.allUnbraced body) place) := by
  refine .step ?_
  cases body with
  | nil => exact .pure .normal
  | cons first rest =>
      refine ih.executeThen first here (.inl kept) fun later flow _ grows same => ?_
      cases same with
      | normal => exact ih.executeAll later rest ref place (grows.at here) (grows.kept here.2 kept)
      | breaking signal => exact .pure (.breaking signal)
      | continuing signal => exact .pure (.continuing signal)
      | returning same line => exact .pure (.returning same line)

theorem repeatWhile_tracks (condition : Expr) (body : Stmt) (here : merging.At ref place)
    (may : merging.Kept ref ∨ body.Undeclaring) :
    Tracks withoutBraces (fuel + 1) merging (Merging.FlowRecoded withoutBraces)
      (repeatWhile host · condition body ref)
      (repeatWhile host · condition body.unbraced place) := by
  refine .step ?_
  refine ih.evaluateThen condition here fun later value other grows same => ?_
  rw [same.isTruthy]
  split
  · have mayHere := may.imp_left (grows.kept here.2)
    refine ih.executeThen body (grows.at here) mayHere fun last flow _ more same => ?_
    cases same with
    | normal =>
        exact ih.repeatWhile last condition body ref place (more.at (grows.at here))
          (mayHere.imp_left (more.kept (grows.at here).2))
    | breaking signal => rcases signal with ⟨_ | label, line⟩ <;> exact .pure (by constructor)
    | continuing signal => exact .pure (.continuing signal)
    | returning same line => exact .pure (.returning same line)
  · exact .pure .normal

end Step

theorem unbracing {host : Host} (discreet : ∀ function ∈ host.functions, function.Discreet) :
    ∀ fuel, Unbracing host fuel
  | 0 => by constructor <;> intros <;> exact .outOfFuel rfl rfl
  | fuel + 1 => by
      have ih := unbracing discreet fuel
      constructor
      case evaluate => exact fun merging expr ref place here => evaluate_tracks ih merging expr here
      case evaluateAll =>
        exact fun merging exprs ref place here => evaluateAll_tracks ih merging exprs here
      case callValue =>
        exact fun merging callee calleeOther values others line same all =>
          callValue_tracks ih merging discreet line same all
      case runClosure =>
        exact fun merging closure values others inside all =>
          runClosure_tracks ih merging closure inside all
      case execute => exact fun merging stmt ref place here may => execute_tracks ih stmt here may
      case executeAll =>
        exact fun merging body ref place here kept => executeAll_tracks ih merging body here kept
      case repeatWhile =>
        exact fun merging condition body ref place here may =>
          repeatWhile_tracks ih merging condition body here may

/-! ### What is seen of a run -/

theorem tracks_finish {fuel : Nat} {recoding : Recoding} {merging : Merging} {flow other : Flow}
    (same : merging.FlowRecoded recoding flow other) :
    Tracks recoding fuel merging (fun _ _ _ => True) (fun _ => finish flow)
      (fun _ => finish other) := by
  cases same with
  | normal => exact .pure trivial
  | breaking signal => exact .fail _
  | continuing signal => exact .fail _
  | returning same line => exact .fail _

theorem executeIn_tracks {host : Host} (discreet : ∀ function ∈ host.functions, function.Discreet)
    (fuel : Nat) (program : List Stmt) {merging : Merging} {ref place : FrameRef}
    (here : merging.At ref place) (kept : merging.Kept ref) :
    Tracks withoutBraces fuel merging (fun _ _ _ => True) (executeIn host · program ref)
      (executeIn host · (Stmt.allUnbraced program) place) := by
  have runs : Tracks withoutBraces fuel merging (fun _ _ _ => True) (runProgram host · program ref)
      (runProgram host · (Stmt.allUnbraced program) place) :=
    .bind (steady_executeAll host program ref)
      (steady_executeAll host (Stmt.allUnbraced program) place)
      ((unbracing discreet fuel).executeAll merging program ref place here kept) fun _ _ _ _ same =>
        tracks_finish same
  -- A program begins with no call in progress.
  exact fun before middle joins ends => runs _ _ (joins.counting fun _ => 0) ends

theorem interpret_tracks {host : Host} (discreet : ∀ function ∈ host.functions, function.Discreet)
    (fuel : Nat) (program : List Stmt) {merging : Merging} (here : merging.At globals globals) :
    Tracks withoutBraces fuel merging (fun _ _ _ => True) (interpret host · program)
      (interpret host · (Stmt.allUnbraced program)) :=
  .bindStep (.newChild here) fun _ _ _ _ made =>
    executeIn_tracks discreet fuel program made.1 made.2

theorem steady_interpret (host : Host) (program : List Stmt) : Steady (interpret host · program) :=
  .bind (.const _) fun ref => steady_executeIn host program ref

/-- A program and the same without braces show the same, the latter if the functions that are there
already have no braces either. -/
theorem interpret_unbraced {host : Host} (discreet : ∀ function ∈ host.functions, function.Discreet)
    {machine : Machine} (formed : machine.store.WellFormed)
    (global : globals.index < machine.store.frames.size) (program : List Stmt)
    (shown : Except RuntimeError Unit × List String) :
    (∃ fuel, (interpret host fuel program machine).shown = some shown) ↔
      ∃ fuel,
        (interpret host fuel (Stmt.allUnbraced program) (withoutBraces.machine machine)).shown =
        some shown := by
  have here : (identity machine.store).At globals globals := ⟨rfl, global⟩
  obtain ⟨toUnbraced, toBraced⟩ :=
    Tracks.ends (fun fuel => interpret_tracks discreet fuel program here)
      (joins_identity formed)
  rw [(steady_interpret host program).shown_iff,
    (steady_interpret host (Stmt.allUnbraced program)).shown_iff]
  constructor
  · rintro ⟨outcome, ends, shows⟩
    obtain ⟨other, endsOther, outcomes⟩ := toUnbraced outcome ends
    exact ⟨other, endsOther, outcomes.shown.trans shows⟩
  · rintro ⟨other, ends, shows⟩
    obtain ⟨outcome, endsOutcome, outcomes⟩ := toBraced other ends
    exact ⟨outcome, endsOutcome, outcomes.shown.symm.trans shows⟩

/-- A program shows the same with braces around one of its statements. -/
theorem interpret_braced {host : Host} (discreet : ∀ function ∈ host.functions, function.Discreet)
    {machine : Machine} (formed : machine.store.WellFormed)
    (global : globals.index < machine.store.frames.size) {stmt : Stmt}
    (undeclaring : stmt.Undeclaring) (before : List Stmt) (around : Stmt.Around) (after : List Stmt)
    (shown : Except RuntimeError Unit × List String) :
    (∃ fuel, (interpret host fuel (before ++ around.fill (.block [stmt]) :: after) machine).shown =
      some shown) ↔
      ∃ fuel,
        (interpret host fuel (before ++ around.fill stmt :: after) machine).shown = some shown := by
  have same : Stmt.allUnbraced (before ++ around.fill (.block [stmt]) :: after) =
      Stmt.allUnbraced (before ++ around.fill stmt :: after) := by
    rw [Stmt.allUnbraced_append, Stmt.allUnbraced_append, Stmt.allUnbraced, Stmt.allUnbraced,
      around.unbraced_braced undeclaring]
  rw [interpret_unbraced discreet formed global, interpret_unbraced discreet formed global, same]

/-- **Extra braces are invisible.** Wherever in a program a statement stands that declares nothing
outside of its blocks and function bodies, putting it in a block of its own changes neither how
running the program ends, with the same error on the same line if it is one, nor the lines printed;
and one of the two programs comes to an end only if the other does. In a program that the parser
accepts, every statement that is no declaration declares nothing there, and every statement stands
somewhere.

The functions of the host have to be such that all frames are the same for them and that they see no
code; the clock is. -/
theorem braces_invisible {host : Host} (discreet : ∀ function ∈ host.functions, function.Discreet)
    {machine : Machine} (formed : machine.store.WellFormed)
    (global : globals.index < machine.store.frames.size) :
    (∀ (stmt : Stmt) (before : List Stmt) (around : Stmt.Around) (after : List Stmt) shown,
      stmt.Undeclaring →
      ((∃ fuel,
        (interpret host fuel (before ++ around.fill (.block [stmt]) :: after) machine).shown =
          some shown) ↔
        ∃ fuel,
          (interpret host fuel (before ++ around.fill stmt :: after) machine).shown = some shown)) ∧
    ∀ program, Accepted program → ∀ stmt, Stmt.PartOf program stmt →
      stmt.Settled ∧ ∃ before around after,
        program = before ++ Stmt.Around.fill stmt around :: after := by
  constructor
  · intro stmt before around after shown undeclaring
    exact interpret_braced discreet formed global undeclaring before around after shown
  · intro program accepted stmt part
    exact ⟨part _ _ accepted.settled, Stmt.Around.of_part part⟩

/-- A block that makes a function and leaves it in a variable from outside. -/
def makesGreeting : Stmt := .block [
  .function ⟨"hello", 2⟩ [] [.print (.literal (.text "hello"))],
  .expression (.assign ⟨"greet", 3⟩ (.variable ⟨"hello", 3⟩))]

/-- A function that is made inside of the braces and called behind them. -/
theorem braces_invisible_closure :
    let interpreter := build [] (fun _ => 0) defaultMaxCallDepth
    let before : List Stmt := [.define ⟨"greet", 1⟩ none]
    let after : List Stmt := [.expression (.call (.variable ⟨"greet", 4⟩) [] 4)]
    makesGreeting.Undeclaring ∧
      (∃ fuel,
        (interpret interpreter.host fuel (before ++ makesGreeting :: after)
          interpreter.machine).shown =
        some (.ok (), ["hello"])) ∧
      ∃ fuel, (interpret interpreter.host fuel (before ++ .block [makesGreeting] :: after)
        interpreter.machine).shown = some (.ok (), ["hello"]) := by
  have run : (interpret (build [] (fun _ => 0) defaultMaxCallDepth).host 12
      ([.define ⟨"greet", 1⟩ none] ++ makesGreeting ::
        [.expression (.call (.variable ⟨"greet", 4⟩) [] 4)])
      (build [] (fun _ => 0) defaultMaxCallDepth).machine).shown =
        some (.ok (), ["hello"]) := by decide +kernel
  intro interpreter before after
  have discreet : ∀ function ∈ interpreter.host.functions, function.Discreet := by
    intro function member
    obtain rfl : function = .clock := by simpa [interpreter, build] using member
    exact HostFunction.discreet_clock
  have formed : interpreter.machine.store.WellFormed := wellFormed_build [] _ _
  have global : globals.index < interpreter.machine.store.frames.size := by decide
  have undeclaring : makesGreeting.Undeclaring := trivial
  have invisible :=
    (braces_invisible discreet formed global).1 makesGreeting before .here after (.ok (), ["hello"])
    undeclaring
  exact ⟨undeclaring, ⟨12, run⟩, invisible.mpr ⟨12, run⟩⟩

end Interpreter

end Lox
