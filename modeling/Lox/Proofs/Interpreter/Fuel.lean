import Lox.Interpreter.Evaluate

/-!
More fuel changes no outcome.

An outcome that is reached with some fuel is reached with more (`moreFuel`), so whether an action
ends and how does not depend on the fuel that it happens to be given. `Ends` is that notion: with
enough fuel, an action that is given fuel comes to an outcome. It is taken apart along binds,
without a count of the fuel that each part needs.
-/

namespace Lox

namespace Exec

variable {α β : Type}

theorem bind_apply (action : Exec α) (next : α → Exec β) (machine : Machine) :
    (action >>= next) machine = andThen action next machine := rfl

theorem bind_done {action : Exec α} {next : α → Exec β} {machine after : Machine} {value : α}
    (run : action machine = .done value after) : (action >>= next) machine = next value after := by
  rw [bind_apply, andThen, run]

theorem bind_failed {action : Exec α} {next : α → Exec β} {machine after : Machine}
    {error : RuntimeError} (run : action machine = .failed error after) :
    (action >>= next) machine = .failed error after := by
  rw [bind_apply, andThen, run]

theorem bind_outOfFuel {action : Exec α} {next : α → Exec β} {machine : Machine}
    (run : action machine = .outOfFuel) : (action >>= next) machine = .outOfFuel := by
  rw [bind_apply, andThen, run]

theorem bind_assoc {γ : Type} (action : Exec α) (next : α → Exec β) (last : β → Exec γ) :
    (action >>= next) >>= last = action >>= fun value => next value >>= last := by
  funext machine
  cases run : action machine with
  | outOfFuel => rw [bind_outOfFuel run, bind_outOfFuel (bind_outOfFuel run)]
  | failed error after => rw [bind_failed run, bind_failed (bind_failed run)]
  | done value after =>
      rw [bind_done run, bind_apply, andThen, bind_done run]
      rfl

/-! ### More fuel -/

/-- Where the first action ends, the second ends in the same way. -/
def Refines (less more : Exec α) : Prop :=
  ∀ machine, less machine ≠ .outOfFuel → more machine = less machine

namespace Refines

theorem refl (action : Exec α) : action.Refines action :=
  fun _ _ => rfl

theorem outOfFuel (more : Exec α) : (outOfFuel : Exec α).Refines more :=
  fun _ ends => absurd rfl ends

theorem trans {first second third : Exec α} (left : first.Refines second)
    (right : second.Refines third) : first.Refines third := by
  intro machine ends
  have same := left machine ends
  rw [← same] at ends ⊢
  exact right machine ends

theorem bind {less more : Exec α} {next nextMore : α → Exec β} (first : less.Refines more)
    (second : ∀ value, (next value).Refines (nextMore value)) :
    (less >>= next).Refines (more >>= nextMore) := by
  intro machine ends
  cases run : less machine with
  | outOfFuel => exact absurd (bind_outOfFuel run) ends
  | failed error after =>
      have same := first machine (by rw [run]; simp)
      rw [bind_failed run, bind_failed (same.trans run)]
  | done value after =>
      have same := first machine (by rw [run]; simp)
      rw [bind_done run] at ends ⊢
      rw [bind_done (same.trans run)]
      exact second value after ends

theorem nested {less more : Exec α} (limit line : Nat) (refines : less.Refines more) :
    (nested limit line less).Refines (nested limit line more) := by
  intro machine ends
  by_cases full : limit ≤ machine.callDepth
  · rw [Exec.nested, Exec.nested, if_pos full, if_pos full]
  · rw [Exec.nested, if_neg full] at ends ⊢
    rw [Exec.nested, if_neg full, refines]
    intro run
    rw [run] at ends
    exact ends rfl

end Refines

end Exec

namespace Interpreter

open Exec

/-- One more unit of fuel changes nothing. -/
structure MoreFuel (host : Host) (fuel : Nat) : Prop where
  evaluate : ∀ expr ref, (evaluate host fuel expr ref).Refines (evaluate host (fuel + 1) expr ref)
  evaluateAll : ∀ exprs ref,
    (evaluateAll host fuel exprs ref).Refines (evaluateAll host (fuel + 1) exprs ref)
  callValue : ∀ callee arguments line,
    (callValue host fuel callee arguments line).Refines
      (callValue host (fuel + 1) callee arguments line)
  runClosure : ∀ closure arguments,
    (runClosure host fuel closure arguments).Refines (runClosure host (fuel + 1) closure arguments)
  execute : ∀ stmt ref, (execute host fuel stmt ref).Refines (execute host (fuel + 1) stmt ref)
  executeAll : ∀ body ref,
    (executeAll host fuel body ref).Refines (executeAll host (fuel + 1) body ref)
  repeatWhile : ∀ condition body ref,
    (repeatWhile host fuel condition body ref).Refines
    (repeatWhile host (fuel + 1) condition body ref)

theorem evaluate_refines {host : Host} {fuel : Nat} (ih : MoreFuel host fuel) (expr : Expr)
    (ref : FrameRef) :
    (evaluate host (fuel + 1) expr ref).Refines (evaluate host (fuel + 1 + 1) expr ref) := by
  cases expr with
  | literal value => exact .refl _
  | group inner => exact ih.evaluate inner ref
  | unary op line operand =>
      rw [Interpreter.evaluate, Interpreter.evaluate]
      exact .bind (ih.evaluate operand ref) fun _ => .refl _
  | binary op line left right =>
      rw [Interpreter.evaluate, Interpreter.evaluate]
      refine .bind (ih.evaluate left ref) fun first => ?_
      exact .bind (ih.evaluate right ref) fun second => .refl _
  | logical op left right =>
      rw [Interpreter.evaluate, Interpreter.evaluate]
      refine .bind (ih.evaluate left ref) fun first => ?_
      split
      · exact .refl _
      · exact ih.evaluate right ref
  | «variable» name => exact .refl _
  | assign name value =>
      rw [Interpreter.evaluate, Interpreter.evaluate]
      exact .bind (ih.evaluate value ref) fun _ => .refl _
  | call callee arguments closeLine =>
      rw [Interpreter.evaluate, Interpreter.evaluate]
      refine .bind (ih.evaluate callee ref) fun callee => ?_
      refine .bind (ih.evaluateAll arguments ref) fun arguments => ?_
      exact ih.callValue callee arguments closeLine

theorem execute_refines {host : Host} {fuel : Nat} (ih : MoreFuel host fuel) (stmt : Stmt)
    (ref : FrameRef) :
    (execute host (fuel + 1) stmt ref).Refines (execute host (fuel + 1 + 1) stmt ref) := by
  cases stmt with
  | expression value =>
      rw [Interpreter.execute, Interpreter.execute]
      exact .bind (ih.evaluate value ref) fun _ => .refl _
  | print value =>
      rw [Interpreter.execute, Interpreter.execute]
      exact .bind (ih.evaluate value ref) fun _ => .refl _
  | define name first =>
      cases first with
      | none => exact .refl _
      | some first =>
          rw [Interpreter.execute, Interpreter.execute]
          exact .bind (ih.evaluate first ref) fun _ => .refl _
  | block body =>
      rw [Interpreter.execute, Interpreter.execute]
      exact .bind (.refl _) fun inner => ih.executeAll body inner
  | conditional condition thenBranch elseBranch =>
      cases elseBranch with
      | none =>
          rw [Interpreter.execute, Interpreter.execute]
          refine .bind (ih.evaluate condition ref) fun value => ?_
          split
          · exact ih.execute thenBranch ref
          · exact .refl _
      | some elseBranch =>
          rw [Interpreter.execute, Interpreter.execute]
          refine .bind (ih.evaluate condition ref) fun value => ?_
          split
          · exact ih.execute thenBranch ref
          · exact ih.execute elseBranch ref
  | loop condition body => exact ih.repeatWhile condition body ref
  | breakOut line label => exact .refl _
  | continueOn line label => exact .refl _
  | labelled label body =>
      rw [Interpreter.execute, Interpreter.execute]
      exact .bind (ih.execute body ref) fun _ => .refl _
  | continuePoint label body =>
      rw [Interpreter.execute, Interpreter.execute]
      exact .bind (ih.execute body ref) fun _ => .refl _
  | function name parameters body => exact .refl _
  | returning line value =>
      rw [Interpreter.execute, Interpreter.execute]
      exact .bind (ih.evaluate value ref) fun _ => .refl _

theorem moreFuel (host : Host) : ∀ fuel, MoreFuel host fuel
  | 0 => by constructor <;> intros <;> exact .outOfFuel _
  | fuel + 1 => by
      have ih := moreFuel host fuel
      constructor
      case evaluate => exact evaluate_refines ih
      case evaluateAll =>
        intro exprs ref
        cases exprs with
        | nil => exact .refl _
        | cons expr rest =>
            rw [Interpreter.evaluateAll, Interpreter.evaluateAll]
            refine .bind (ih.evaluate expr ref) fun value => ?_
            exact .bind (ih.evaluateAll rest ref) fun values => .refl _
      case callValue =>
        intro callee arguments line
        cases callee with
        | function callee =>
            simp only [Interpreter.callValue]
            split
            · exact .refl _
            · cases callee with
              | native native => exact .refl _
              | closure closure =>
                  exact .bind (.nested _ line (ih.runClosure closure arguments)) fun _ => .refl _
        | nil => exact .refl _
        | bool value => exact .refl _
        | number value => exact .refl _
        | text value => exact .refl _
      case runClosure =>
        intro closure arguments
        rw [Interpreter.runClosure, Interpreter.runClosure]
        refine .bind (.refl _) fun ref => ?_
        exact .bind (.refl _) fun _ => ih.executeAll closure.decl.body ref
      case execute => exact execute_refines ih
      case executeAll =>
        intro body ref
        cases body with
        | nil => exact .refl _
        | cons first rest =>
            rw [Interpreter.executeAll, Interpreter.executeAll]
            refine .bind (ih.execute first ref) fun flow => ?_
            split
            · exact ih.executeAll rest ref
            · exact .refl _
      case repeatWhile =>
        intro condition body ref
        rw [Interpreter.repeatWhile, Interpreter.repeatWhile]
        refine .bind (ih.evaluate condition ref) fun value => ?_
        split
        · refine .bind (ih.execute body ref) fun flow => ?_
          split
          · exact ih.repeatWhile condition body ref
          · exact .refl _
          · exact .refl _
        · exact .refl _

end Interpreter

/-! ### Enough fuel -/

variable {α β : Type}

/-- With enough fuel, an action comes to an outcome. -/
def Ends (run : Nat → Exec α) (before : Machine) (outcome : Outcome α) : Prop :=
  outcome ≠ .outOfFuel ∧ ∃ enough, ∀ fuel, enough ≤ fuel → run fuel before = outcome

/-- With enough fuel, an action ends. -/
def Terminates (run : Nat → Exec α) (before : Machine) : Prop :=
  ∃ outcome, Ends run before outcome

/-- More fuel changes no outcome of an action. -/
def Steady (run : Nat → Exec α) : Prop :=
  ∀ fuel, (run fuel).Refines (run (fuel + 1))

theorem Steady.of_le {run : Nat → Exec α} (steady : Steady run) {less more : Nat}
    (le : less ≤ more) :
    (run less).Refines (run more) := by
  induction le with
  | refl => exact .refl _
  | step le ih => exact ih.trans (steady _)

/-- What some fuel leads to is what enough fuel leads to. -/
theorem Steady.ends {run : Nat → Exec α} (steady : Steady run) {fuel : Nat} {before : Machine}
    (ends : run fuel before ≠ .outOfFuel) : Ends run before (run fuel before) :=
  ⟨ends, fuel, fun _ le => steady.of_le le before ends⟩

theorem Steady.const (action : Exec α) : Steady fun _ => action :=
  fun _ => .refl action

theorem Steady.bind {run : Nat → Exec α} {next : Nat → α → Exec β} (first : Steady run)
    (second : ∀ value, Steady (next · value)) : Steady fun fuel => run fuel >>= next fuel :=
  fun fuel => .bind (first fuel) fun value => second value fuel

namespace Ends

variable {run : Nat → Exec α} {next : Nat → α → Exec β} {before middle after : Machine}

theorem unique {first second : Outcome α} (left : Ends run before first)
    (right : Ends run before second) : first = second := by
  obtain ⟨-, enough, left⟩ := left
  obtain ⟨-, more, right⟩ := right
  rw [← left (max enough more) (Nat.le_max_left _ _),
    ← right (max enough more) (Nat.le_max_right _ _)]

/-- An action ends as another one does if it comes to all that the other comes to. -/
theorem of_refines {more : Nat → Exec α} {outcome : Outcome α} (steady : Steady more)
    (refines : ∀ fuel, ∃ enough, (run fuel).Refines (more enough))
    (ends : Ends run before outcome) :
    Ends more before outcome := by
  obtain ⟨ended, fuel, all⟩ := ends
  have here := all fuel (Nat.le_refl _)
  obtain ⟨enough, refines⟩ := refines fuel
  have same : more enough before = outcome := (refines before (by rwa [here])).trans here
  exact same ▸ steady.ends (same ▸ ended)

theorem const {action : Exec α} {outcome : Outcome α} (ends : outcome ≠ .outOfFuel)
    (run : action before = outcome) : Ends (fun _ => action) before outcome :=
  ⟨ends, 0, fun _ _ => run⟩

/-- One step of an action takes one unit of fuel. -/
theorem step {outcome : Outcome α} :
    Ends (fun fuel => run (fuel + 1)) before outcome ↔ Ends run before outcome := by
  constructor
  · rintro ⟨ends, enough, all⟩
    refine ⟨ends, enough + 1, fun fuel le => ?_⟩
    obtain ⟨fewer, rfl⟩ : ∃ fewer, fuel = fewer + 1 := ⟨fuel - 1, by omega⟩
    exact all fewer (by omega)
  · rintro ⟨ends, enough, all⟩
    exact ⟨ends, enough, fun fuel le => all (fuel + 1) (by omega)⟩

theorem bind {value : α} {outcome : Outcome β} (first : Ends run before (.done value middle))
    (rest : Ends (next · value) middle outcome) :
    Ends (fun fuel => run fuel >>= next fuel) before outcome := by
  obtain ⟨-, enough, first⟩ := first
  obtain ⟨ends, more, rest⟩ := rest
  refine ⟨ends, max enough more, fun fuel le => ?_⟩
  exact (Exec.bind_done (first fuel (by omega))).trans (rest fuel (by omega))

theorem bindFailed {error : RuntimeError} (first : Ends run before (.failed error after)) :
    Ends (fun fuel => run fuel >>= next fuel) before (.failed error after) := by
  obtain ⟨-, enough, first⟩ := first
  exact ⟨by simp, enough, fun fuel le => Exec.bind_failed (first fuel le)⟩

end Ends

namespace Terminates

variable {run : Nat → Exec α} {next : Nat → α → Exec β} {before middle : Machine}

theorem step : Terminates (fun fuel => run (fuel + 1)) before ↔ Terminates run before :=
  exists_congr fun _ => Ends.step

/-- If the whole ends, its first part does. -/
theorem first (steady : Steady run)
    (ends : Terminates (fun fuel => run fuel >>= next fuel) before) :
    Terminates run before := by
  obtain ⟨outcome, ends, enough, all⟩ := ends
  refine ⟨_, @Steady.ends _ run steady enough before fun starved => ends ?_⟩
  rw [← all enough (Nat.le_refl _)]
  exact Exec.bind_outOfFuel starved

/-- If the whole ends and its first part is done, the rest ends. -/
theorem rest {value : α} (done : Ends run before (.done value middle))
    (ends : Terminates (fun fuel => run fuel >>= next fuel) before) :
    Terminates (next · value) middle := by
  obtain ⟨-, more, done⟩ := done
  obtain ⟨outcome, ends, enough, all⟩ := ends
  refine ⟨outcome, ends, max enough more, fun fuel le => ?_⟩
  exact (Exec.bind_done (done fuel (by omega))).symm.trans (all fuel (by omega))

end Terminates

namespace Ends

variable {run : Nat → Exec α} {next : Nat → α → Exec β} {before after : Machine}

theorem const_iff {action : Exec α} {outcome : Outcome α} :
    Ends (fun _ => action) before outcome ↔ outcome ≠ .outOfFuel ∧ action before = outcome :=
  ⟨fun ends => ⟨ends.1, ends.2.elim fun enough all => all enough (Nat.le_refl _)⟩,
    fun ends => .const ends.1 ends.2⟩

/-- An action that needs no more than one unit of fuel comes to one thing. -/
theorem at_once {reached outcome : Outcome α} (ends : reached ≠ .outOfFuel)
    (once : ∀ fuel, run (fuel + 1) before = reached) :
    Ends run before outcome ↔ outcome = reached := by
  have reaches : Ends run before reached := Ends.step.mp ⟨ends, 0, fun fuel _ => once fuel⟩
  exact ⟨fun other => other.unique reaches, fun same => same ▸ reaches⟩

/-- Two actions in a row end as the first does if that fails, and as the second does after it if it
is done. -/
theorem bind_iff (steady : Steady run) {outcome : Outcome β} :
    Ends (fun fuel => run fuel >>= next fuel) before outcome ↔
      (∃ error after, Ends run before (.failed error after) ∧ outcome = .failed error after) ∨
        ∃ value middle, Ends run before (.done value middle) ∧
          Ends (next · value) middle outcome := by
  constructor
  · intro ends
    obtain ⟨first, ended⟩ := Terminates.first steady ⟨outcome, ends⟩
    cases first with
    | outOfFuel => exact absurd rfl ended.1
    | failed error after => exact .inl ⟨error, after, ended, ends.unique ended.bindFailed⟩
    | done value middle =>
        obtain ⟨other, rest⟩ := Terminates.rest ended ⟨outcome, ends⟩
        exact .inr ⟨value, middle, ended, ends.unique (ended.bind rest) ▸ rest⟩
  · rintro (⟨error, after, first, rfl⟩ | ⟨value, middle, first, rest⟩)
    · exact first.bindFailed
    · exact first.bind rest

end Ends

end Lox
