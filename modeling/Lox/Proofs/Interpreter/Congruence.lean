import Lox.Proofs.Interpreter.Equivalence

/-!
Relations between runs of the same code.

The evaluator puts actions together by binds and by nesting them in calls. A relation between
actions that every single step bears to itself, and that is kept where actions are put together, is
therefore borne by every run to the run of the same code with as much fuel (`Congruence.runs`). The
two runs may have different hosts, as far as the steps that look at the host are related.

With the same run on both sides this is how a property of actions becomes one of runs. The first
such property is what no run undoes (`continues_runs`): however a run ends, as many calls are in
progress as before, the lines printed are still there, and so are all frames.
-/

namespace Lox

open Exec

/-- A relation between actions with one host and actions with another that the steps of a run bear
to themselves, and that is kept where actions are put together. -/
structure Exec.Congruence (host host' : Host) (related : ∀ {α : Type}, Exec α → Exec α → Prop) :
    Prop where
  outOfFuel : ∀ {α : Type}, related (outOfFuel : Exec α) outOfFuel
  pure : ∀ {α : Type} (value : α), related (pure value) (pure value)
  fail : ∀ {α : Type} (error : RuntimeError), related (fail error : Exec α) (fail error)
  bind : ∀ {α β : Type} {first first' : Exec α} {next next' : α → Exec β}, related first first' →
    (∀ value, related (next value) (next' value)) → related (first >>= next) (first' >>= next')
  print : ∀ text, related (print text) (print text)
  lookup : ∀ name ref, related (lookup name ref) (lookup name ref)
  define : ∀ ref name value, related (define ref name value) (define ref name value)
  assign : ∀ ref name value, related (assign ref name value) (assign ref name value)
  newChild : ∀ parent, related (newChild parent) (newChild parent)
  makeClosure : ∀ decl scope, related (makeClosure decl scope) (makeClosure decl scope)
  callNative : ∀ native arguments line,
    related (callNative host native arguments line) (callNative host' native arguments line)
  nested : ∀ line {body body' : Exec Flow}, related body body' →
    related (nested host.maxCallDepth line body) (nested host'.maxCallDepth line body')

namespace Interpreter

/-- What is run with one host is related to the same run with another. -/
structure RunsRelated (host host' : Host) (related : ∀ {α : Type}, Exec α → Exec α → Prop)
    (fuel : Nat) :
    Prop where
  evaluate : ∀ expr ref, related (evaluate host fuel expr ref) (evaluate host' fuel expr ref)
  evaluateAll : ∀ exprs ref,
    related (evaluateAll host fuel exprs ref) (evaluateAll host' fuel exprs ref)
  callValue : ∀ callee arguments line,
    related (callValue host fuel callee arguments line) (callValue host' fuel callee arguments line)
  runClosure : ∀ closure arguments,
    related (runClosure host fuel closure arguments) (runClosure host' fuel closure arguments)
  execute : ∀ stmt ref, related (execute host fuel stmt ref) (execute host' fuel stmt ref)
  executeAll : ∀ body ref, related (executeAll host fuel body ref) (executeAll host' fuel body ref)
  repeatWhile : ∀ condition body ref,
    related (repeatWhile host fuel condition body ref) (repeatWhile host' fuel condition body ref)

end Interpreter

namespace Exec.Congruence

open Interpreter

variable {host host' : Host} {related : ∀ {α : Type}, Exec α → Exec α → Prop}
  (congruence : Congruence host host' related)
include congruence

theorem ofExcept (line : Nat) (result : Except Fault Value) :
    related (ofExcept line result) (ofExcept line result) := by
  cases result with
  | ok value => exact congruence.pure value
  | error fault => exact congruence.fail ⟨fault, line⟩

theorem bindParameters (ref : FrameRef) (parameters : List Name) (arguments : List Value) :
    related (bindParameters ref parameters arguments)
      (bindParameters ref parameters arguments) := by
  induction parameters generalizing arguments with
  | nil => exact congruence.pure ()
  | cons parameter parameters ih =>
      cases arguments with
      | nil => exact congruence.pure ()
      | cons argument arguments =>
          exact congruence.bind (congruence.define ref parameter _) fun _ => ih arguments

theorem callResult (flow : Flow) : related (callResult flow) (callResult flow) := by
  cases flow with
  | normal => exact congruence.pure Value.nil
  | returning value line => exact congruence.pure value
  | breaking signal => exact congruence.fail _
  | continuing signal => exact congruence.fail _

section Step

variable {fuel : Nat} (ih : RunsRelated host host' related fuel)
include ih

theorem evaluate (expr : Expr) (ref : FrameRef) :
    related (evaluate host (fuel + 1) expr ref) (evaluate host' (fuel + 1) expr ref) := by
  cases expr with
  | literal value =>
      rw [Interpreter.evaluate, Interpreter.evaluate]
      exact congruence.pure _
  | group inner =>
      rw [Interpreter.evaluate, Interpreter.evaluate]
      exact ih.evaluate inner ref
  | unary op line operand =>
      rw [Interpreter.evaluate, Interpreter.evaluate]
      exact congruence.bind (ih.evaluate operand ref) fun value => congruence.ofExcept line _
  | binary op line left right =>
      rw [Interpreter.evaluate, Interpreter.evaluate]
      refine congruence.bind (ih.evaluate left ref) fun first => ?_
      exact congruence.bind (ih.evaluate right ref) fun second => congruence.ofExcept line _
  | logical op left right =>
      rw [Interpreter.evaluate, Interpreter.evaluate]
      refine congruence.bind (ih.evaluate left ref) fun first => ?_
      split
      · exact congruence.pure first
      · exact ih.evaluate right ref
  | «variable» name =>
      rw [Interpreter.evaluate, Interpreter.evaluate]
      exact congruence.lookup name ref
  | assign name value =>
      rw [Interpreter.evaluate, Interpreter.evaluate]
      refine congruence.bind (ih.evaluate value ref) fun value => ?_
      exact congruence.bind (congruence.assign ref name value) fun _ => congruence.pure value
  | call callee arguments closeLine =>
      rw [Interpreter.evaluate, Interpreter.evaluate]
      refine congruence.bind (ih.evaluate callee ref) fun callee => ?_
      refine congruence.bind (ih.evaluateAll arguments ref) fun arguments => ?_
      exact ih.callValue callee arguments closeLine

theorem callValue (callee : Value) (arguments : List Value) (line : Nat) :
    related (callValue host (fuel + 1) callee arguments line)
      (callValue host' (fuel + 1) callee arguments line) := by
  cases callee with
  | function callee =>
      simp only [Interpreter.callValue]
      split
      · exact congruence.fail _
      · cases callee with
        | native native => exact congruence.callNative native arguments line
        | closure closure =>
            refine congruence.bind (congruence.nested line (ih.runClosure closure arguments))
              fun flow => ?_
            exact congruence.callResult flow
  | nil | bool value | number value | text value => exact congruence.fail _

theorem execute (stmt : Stmt) (ref : FrameRef) :
    related (execute host (fuel + 1) stmt ref) (execute host' (fuel + 1) stmt ref) := by
  cases stmt with
  | expression value =>
      rw [Interpreter.execute, Interpreter.execute]
      exact congruence.bind (ih.evaluate value ref) fun _ => congruence.pure _
  | print value =>
      rw [Interpreter.execute, Interpreter.execute]
      refine congruence.bind (ih.evaluate value ref) fun value => ?_
      exact congruence.bind (congruence.print value.render) fun _ => congruence.pure _
  | define name first =>
      cases first with
      | none =>
          rw [Interpreter.execute, Interpreter.execute]
          exact congruence.bind (congruence.define ref name none) fun _ => congruence.pure _
      | some first =>
          rw [Interpreter.execute, Interpreter.execute]
          refine congruence.bind (ih.evaluate first ref) fun value => ?_
          exact congruence.bind (congruence.define ref name (some value)) fun _ => congruence.pure _
  | block body =>
      rw [Interpreter.execute, Interpreter.execute]
      exact congruence.bind (congruence.newChild ref) fun inner => ih.executeAll body inner
  | conditional condition thenBranch elseBranch =>
      cases elseBranch with
      | none =>
          rw [Interpreter.execute, Interpreter.execute]
          refine congruence.bind (ih.evaluate condition ref) fun value => ?_
          split
          · exact ih.execute thenBranch ref
          · exact congruence.pure _
      | some elseBranch =>
          rw [Interpreter.execute, Interpreter.execute]
          refine congruence.bind (ih.evaluate condition ref) fun value => ?_
          split
          · exact ih.execute thenBranch ref
          · exact ih.execute elseBranch ref
  | loop condition body =>
      rw [Interpreter.execute, Interpreter.execute]
      exact ih.repeatWhile condition body ref
  | breakOut line label => exact congruence.pure _
  | continueOn line label => exact congruence.pure _
  | labelled label body =>
      rw [Interpreter.execute, Interpreter.execute]
      exact congruence.bind (ih.execute body ref) fun flow => congruence.pure _
  | continuePoint label body =>
      rw [Interpreter.execute, Interpreter.execute]
      exact congruence.bind (ih.execute body ref) fun flow => congruence.pure _
  | function name parameters body =>
      rw [Interpreter.execute, Interpreter.execute]
      refine congruence.bind (congruence.makeClosure _ ref) fun closure => ?_
      exact congruence.bind (congruence.define ref name _) fun _ => congruence.pure _
  | returning line value =>
      rw [Interpreter.execute, Interpreter.execute]
      exact congruence.bind (ih.evaluate value ref) fun value => congruence.pure _

theorem repeatWhile (condition : Expr) (body : Stmt) (ref : FrameRef) :
    related (repeatWhile host (fuel + 1) condition body ref)
      (repeatWhile host' (fuel + 1) condition body ref) := by
  rw [Interpreter.repeatWhile, Interpreter.repeatWhile]
  refine congruence.bind (ih.evaluate condition ref) fun value => ?_
  split
  · refine congruence.bind (ih.execute body ref) fun flow => ?_
    split
    · exact ih.repeatWhile condition body ref
    · exact congruence.pure _
    · exact congruence.pure _
  · exact congruence.pure _

end Step

theorem runs : ∀ fuel, RunsRelated host host' related fuel
  | 0 => by constructor <;> intros <;> exact congruence.outOfFuel
  | fuel + 1 => by
      have ih := runs fuel
      constructor
      case evaluate => exact congruence.evaluate ih
      case evaluateAll =>
        intro exprs ref
        cases exprs with
        | nil => exact congruence.pure []
        | cons expr rest =>
            rw [Interpreter.evaluateAll, Interpreter.evaluateAll]
            refine congruence.bind (ih.evaluate expr ref) fun value => ?_
            exact congruence.bind (ih.evaluateAll rest ref) fun values => congruence.pure _
      case callValue => exact congruence.callValue ih
      case runClosure =>
        intro closure arguments
        rw [Interpreter.runClosure, Interpreter.runClosure]
        refine congruence.bind (congruence.newChild closure.scope) fun ref => ?_
        refine congruence.bind (congruence.bindParameters ref _ arguments) fun _ => ?_
        exact ih.executeAll closure.decl.body ref
      case execute => exact congruence.execute ih
      case executeAll =>
        intro body ref
        cases body with
        | nil => exact congruence.pure _
        | cons first rest =>
            rw [Interpreter.executeAll, Interpreter.executeAll]
            refine congruence.bind (ih.execute first ref) fun flow => ?_
            split
            · exact ih.executeAll rest ref
            · exact congruence.pure _
      case repeatWhile => exact congruence.repeatWhile ih

end Exec.Congruence

/-! ### What no run undoes -/

/-- However an action ends, its machine has a property. -/
def Outcome.AllMachines {α : Type} (holds : Machine → Prop) : Outcome α → Prop
  | .done _ machine => holds machine
  | .failed _ machine => holds machine
  | .outOfFuel => True

theorem Outcome.AllMachines.imp {α : Type} {holds holdsToo : Machine → Prop} {outcome : Outcome α}
    (all : outcome.AllMachines holds) (weaker : ∀ machine, holds machine → holdsToo machine) :
    outcome.AllMachines holdsToo := by
  cases outcome with
  | done value after => exact weaker after all
  | failed error after => exact weaker after all
  | outOfFuel => trivial

/-- What holds however an action ends, and however what follows ends, holds however both in a row
end. -/
theorem Exec.allMachines_bind {α β : Type} {action : Exec α} {next : α → Exec β} {machine : Machine}
    {holds : Machine → Prop} (first : (action machine).AllMachines holds)
    (second : ∀ value after, action machine = .done value after → holds after →
      (next value after).AllMachines holds) :
    ((action >>= next) machine).AllMachines holds := by
  cases run : action machine with
  | done value after =>
      rw [run] at first
      rw [bind_done run]
      exact second value after run first
  | failed error after =>
      rw [run] at first
      rw [bind_failed run]
      exact first
  | outOfFuel =>
      rw [bind_outOfFuel run]
      trivial

/-- However a call ends, it was refused, or the action in it ended so with one more call in
progress. -/
theorem Exec.allMachines_nested {α : Type} {action : Exec α} {machine : Machine}
    {holds : Machine → Prop} {limit : Nat} (line : Nat)
    (refused : limit ≤ machine.callDepth → holds machine)
    (inside : machine.callDepth < limit →
      (action { machine with callDepth := machine.callDepth + 1 }).AllMachines fun after =>
        holds { after with callDepth := after.callDepth - 1 }) :
    (nested limit line action machine).AllMachines holds := by
  by_cases full : limit ≤ machine.callDepth
  · rw [nested, if_pos full]
    exact refused full
  · have all := inside (Nat.lt_of_not_le full)
    rw [nested, if_neg full]
    revert all
    generalize action _ = outcome
    intro all
    cases outcome with
    | done value after => exact all
    | failed error after => exact all
    | outOfFuel => trivial

/-- A machine that another may have become by a run. -/
structure Machine.Continues (before after : Machine) : Prop where
  callDepth : after.callDepth = before.callDepth
  printed : before.printed.toList <+: after.printed.toList
  size : before.store.frames.size ≤ after.store.frames.size

theorem Machine.Continues.refl (machine : Machine) : machine.Continues machine :=
  ⟨rfl, List.prefix_rfl, Nat.le_refl _⟩

theorem Machine.Continues.trans {before middle after : Machine} (first : before.Continues middle)
    (second : middle.Continues after) : before.Continues after :=
  ⟨second.callDepth.trans first.callDepth, first.printed.trans second.printed,
    Nat.le_trans first.size second.size⟩

/-- However an action ends, it only goes on from the machine that it was given. -/
def Exec.Continues {α : Type} (action : Exec α) : Prop :=
  ∀ machine, (action machine).AllMachines machine.Continues

namespace Exec.Continues

variable {α β : Type}

theorem bind {action : Exec α} {next : α → Exec β} (first : action.Continues)
    (second : ∀ value, (next value).Continues) : (action >>= next).Continues := by
  intro machine
  apply allMachines_bind (first machine)
  intro value after _ begun
  exact (second value after).imp fun _ more => Machine.Continues.trans begun more

theorem ofExcept (line : Nat) (result : Except Fault Value) : (ofExcept line result).Continues := by
  intro machine
  cases result with
  | ok value => exact .refl machine
  | error fault => exact .refl machine

theorem nested {body : Exec α} (limit line : Nat) (continues : body.Continues) :
    (nested limit line body).Continues := by
  intro machine
  apply allMachines_nested line fun _ => .refl machine
  intro _
  -- The call that was begun is over again.
  exact (continues { machine with callDepth := machine.callDepth + 1 }).imp fun _ more =>
    ⟨congrArg (· - 1) more.callDepth, more.printed, more.size⟩

theorem congruence (host : Host) : Congruence host host fun action _ => action.Continues where
  outOfFuel _ := trivial
  pure _ machine := .refl machine
  fail _ machine := .refl machine
  bind := bind
  print text machine := ⟨rfl, by simp, Nat.le_refl _⟩
  lookup name ref := by
    intro machine
    rw [Exec.lookup]
    split <;> exact .refl machine
  define ref name value machine := ⟨rfl, List.prefix_rfl, by simp⟩
  assign ref name value := by
    intro machine
    rw [Exec.assign]
    split
    · exact ⟨rfl, List.prefix_rfl, by simp⟩
    · exact .refl machine
  newChild parent machine := ⟨rfl, List.prefix_rfl, by simp⟩
  makeClosure _ _ machine := ⟨rfl, List.prefix_rfl, Nat.le_refl _⟩
  callNative native arguments line := by
    intro machine
    rw [Exec.callNative]
    cases host.functions[native.id]? with
    | none => exact .refl machine
    | some function =>
        simp only
        cases function.action with
        | readClock => exact ⟨rfl, List.prefix_rfl, Nat.le_refl _⟩
        | compute result => exact ofExcept line (result arguments) machine
  nested line _ _ := nested host.maxCallDepth line

end Exec.Continues

/-- However code ends, it only goes on from the machine that it was given. -/
theorem Interpreter.continues_runs (host : Host) (fuel : Nat) :
    RunsRelated host host (fun action _ => action.Continues) fuel :=
  (Continues.congruence host).runs fuel

end Lox
