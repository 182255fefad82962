import Lox.Interpreter.Run
import Lox.Proofs.Interpreter.Fuel
import Lox.Proofs.Interpreter.Mirroring

/-!
Rows of statements, one after another.

A row of statements that consists of two is run by running the first and then, unless that was left,
the second. Fuel is counted along a row, so the two do not take the same fuel, but with enough of it
both come to the same (`ends_append`). What ends a program as a whole, which no statement may leave,
is the same for its front and for all of it (`finish`).
-/

namespace Lox.Interpreter

open Exec

variable {host : Host} {fuel : Nat} {ref : FrameRef} {first second : List Stmt}

/-! ### Rows -/

/-- Go on after a row of statements, unless it was left. -/
def goOn (rest : Exec Flow) : Flow → Exec Flow
  | .normal => rest
  | flow => pure flow

theorem executeAll_cons (stmt : Stmt) (rest : List Stmt) :
    executeAll host (fuel + 1) (stmt :: rest) ref =
      execute host fuel stmt ref >>= goOn (executeAll host fuel rest ref) := rfl

theorem goOn_assoc (rest last : Exec Flow) (flow : Flow) :
    goOn rest flow >>= goOn last = goOn (rest >>= goOn last) flow := by
  cases flow <;> rfl

theorem refines_goOn {less more : Exec Flow} (refines : less.Refines more) (flow : Flow) :
    (goOn less flow).Refines (goOn more flow) := by
  cases flow with
  | normal => exact refines
  | breaking signal => exact .refl _
  | continuing signal => exact .refl _
  | returning value line => exact .refl _

theorem steady_executeAll (host : Host) (body : List Stmt) (ref : FrameRef) :
    Steady fun fuel => executeAll host fuel body ref :=
  fun fuel => (moreFuel host fuel).executeAll body ref

/-- What a row comes to, its front and then its rest come to with the same fuel. -/
theorem executeAll_append_refines (fuel : Nat) :
    (executeAll host fuel (first ++ second) ref).Refines
      (executeAll host fuel first ref >>= goOn (executeAll host fuel second ref)) := by
  induction first generalizing fuel with
  | nil =>
      cases fuel with
      | zero => exact .outOfFuel _
      | succ fuel => exact .refl _
  | cons stmt rest ih =>
      cases fuel with
      | zero => exact .outOfFuel _
      | succ fuel =>
          rw [List.cons_append, executeAll_cons, executeAll_cons, Exec.bind_assoc]
          refine .bind (.refl _) fun flow => ?_
          rw [goOn_assoc]
          refine refines_goOn ((ih fuel).trans (.bind (.refl _) fun flow => ?_)) flow
          exact refines_goOn ((moreFuel host fuel).executeAll second ref) flow

/-- What the front of a row and then its rest come to, the row comes to with fuel for its length
besides. -/
theorem refines_executeAll_append (fuel : Nat) :
    (executeAll host fuel first ref >>= goOn (executeAll host fuel second ref)).Refines
      (executeAll host (fuel + first.length) (first ++ second) ref) := by
  induction first generalizing fuel with
  | nil =>
      cases fuel with
      | zero => exact fun machine ends => absurd rfl ends
      | succ fuel => exact .refl _
  | cons stmt rest ih =>
      cases fuel with
      | zero => exact fun machine ends => absurd rfl ends
      | succ fuel =>
          have more : fuel + 1 + (stmt :: rest).length = fuel + 1 + rest.length + 1 := rfl
          rw [more, List.cons_append, executeAll_cons, executeAll_cons, Exec.bind_assoc]
          have steady : Steady fun fuel => execute host fuel stmt ref :=
            fun fuel => (moreFuel host fuel).execute stmt ref
          refine .bind (steady.of_le (by omega)) fun flow => ?_
          rw [goOn_assoc]
          refine refines_goOn (.trans (.bind ?_ fun flow => .refl _) (ih (fuel + 1))) flow
          exact (moreFuel host fuel).executeAll rest ref

/-! ### Programs -/

/-- How a run of a program ends, by how its statements end. -/
def finish : Flow → Exec Unit
  | .normal => pure ()
  | .breaking signal => fail (signal.escape "break")
  | .continuing signal => fail (signal.escape "continue")
  | .returning _ line => fail ⟨.escapedSignal "return", line⟩

/-- Run a program in a frame with the calls in progress that there are. -/
def runProgram (host : Host) (fuel : Nat) (program : List Stmt) (ref : FrameRef) : Exec Unit :=
  executeAll host fuel program ref >>= finish

theorem executeIn_eq (host : Host) (fuel : Nat) (program : List Stmt) (ref : FrameRef)
    {machine : Machine} (idle : machine.callDepth = 0) :
    executeIn host fuel program ref machine = runProgram host fuel program ref machine := by
  have same : { machine with callDepth := 0 } = machine := by rw [← idle]
  rw [executeIn, same]
  rfl

theorem finish_goOn (rest : Exec Flow) (flow : Flow) :
    goOn rest flow >>= finish = finish flow >>= fun _ => rest >>= finish := by
  cases flow <;> rfl

theorem steady_runProgram (host : Host) (program : List Stmt) (ref : FrameRef) :
    Steady fun fuel => runProgram host fuel program ref :=
  .bind (steady_executeAll host program ref) fun flow => .const (finish flow)

theorem ends_nil (before : Machine) :
    Ends (fun fuel => runProgram host fuel [] ref) before (.done () before) :=
  Ends.step.mp ⟨by simp, 0, fun _ _ => rfl⟩

/-- Running a program comes to the same as running its front and then its rest. -/
theorem ends_append {before : Machine} {outcome : Outcome Unit} :
    Ends (fun fuel => runProgram host fuel (first ++ second) ref) before outcome ↔
      Ends (fun fuel => runProgram host fuel first ref >>= fun _ =>
        runProgram host fuel second ref) before
        outcome := by
  have parts (fuel : Nat) :
      (runProgram host fuel first ref >>= fun _ => runProgram host fuel second ref) =
      (executeAll host fuel first ref >>= goOn (executeAll host fuel second ref)) >>= finish := by
    rw [runProgram, Exec.bind_assoc, Exec.bind_assoc]
    congr 1
    funext flow
    exact (finish_goOn _ flow).symm
  have whole := steady_runProgram host (first ++ second) ref
  have inParts :=
    (steady_runProgram host first ref).bind fun _ : Unit => steady_runProgram host second ref
  constructor
  · refine .of_refines inParts fun fuel => ⟨fuel, ?_⟩
    rw [parts]
    exact .bind (executeAll_append_refines fuel) fun _ => .refl _
  · refine .of_refines whole fun fuel => ⟨fuel + first.length, ?_⟩
    rw [parts]
    exact .bind (refines_executeAll_append fuel) fun _ => .refl _

/-- Programs that are alike run alike. -/
theorem mirrors_runProgram {lines : Nat → Nat → Prop}
    (parametric : ∀ function ∈ host.functions, function.Parametric lines)
    (beginning : Link.Beginning lines) (depth : Nat) {link : Link lines}
    {program program' : List Stmt} {ref' : FrameRef}
    (alike : List.Forall₂ (Stmt.Alike lines) program program') (pair : link.frames ref ref')
    (fuel : Nat) :
    (runProgram host fuel program ref).Mirrors beginning depth link (fun _ _ _ => True)
      (runProgram host fuel program' ref') := by
  refine .bind ((mirroring parametric fuel).executeAll beginning depth link program program' ref
    ref' alike pair)
    fun later flow flow' _ flows => ?_
  cases flows with
  | normal => exact .pure trivial
  | breaking signals => exact .fail (signals.escape "break")
  | continuing signals => exact .fail (signals.escape "continue")
  | returning _ at_ => exact .fail ⟨rfl, at_⟩

end Lox.Interpreter
