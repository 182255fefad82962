import Lox.Proofs.Interpreter.Equivalence
import Lox.Proofs.Parser.Bodies

/-!
Loops mean what they are meant to mean.

A `for` becomes a block around a loop around a block around a continue point. `directLoop` and
`directFor` say without these what such a loop does: in one frame, test the condition, execute the
body, and either leave the loop or do the last clause and repeat. The tree and the direct loop end
in the same way, with the same lines printed and the same bindings in all frames that were there
before (`loops_run_directly`). The tree makes a frame for each round; since the body of a loop
declares nothing, that frame stays blank, and nobody misses it.
-/

namespace Lox

namespace Interpreter

open Exec

/-! ### Direct loops -/

/-- How a loop with or without a label ends once its body has ended, or `none` if it goes on. -/
def leaveLoop (label : Option Name) : Flow → Option Flow
  | .normal => none
  | .continuing signal =>
    if signal.label = none ∨ signal.label = label.map (·.text) then
      none else some (.continuing signal)
  | .breaking ⟨none, _⟩ => some .normal
  | flow => some flow

/-- The value of the condition of a loop; one that is left out is true. -/
def loopCondition (host : Host) (fuel : Nat) (condition : Option Expr) (ref : FrameRef) :
    Exec Value :=
  match condition with
  | some condition => evaluate host fuel condition ref
  | none => pure (.bool true)

/-- Do the last clause of a loop. -/
def loopStep (host : Host) (fuel : Nat) (last : Option Expr) (ref : FrameRef) : Exec Unit :=
  match last with
  | some last => do
    let _ ← evaluate host fuel last ref
    return ()
  | none => pure ()

/-- One round of a loop in its frame: how the loop ends with it, or `none` if it goes on. -/
def loopRound (host : Host) (label : Option Name) (condition last : Option Expr) (body : Stmt)
    (ref : FrameRef) (fuel : Nat) : Exec (Option Flow) := do
  let value ← loopCondition host fuel condition ref
  if value.isTruthy then
    match leaveLoop label (← execute host fuel body ref) with
    | some flow => return some flow
    | none => do
      loopStep host fuel last ref
      return none
  else return some .normal

/-- A loop in its frame, round by round. -/
def directLoop (host : Host) (fuel : Nat) (label : Option Name) (condition last : Option Expr)
    (body : Stmt) (ref : FrameRef) : Exec Flow :=
  rounds (loopRound host label condition last body ref) fuel

/-- A loop with a first clause, which is done once, in a frame for the whole loop. -/
def directFor (host : Host) (fuel : Nat) (label : Option Name) (first : Option Stmt)
    (condition last : Option Expr) (body : Stmt) (ref : FrameRef) : Exec Flow := do
  let scope ← newChild ref
  match first with
  | none => directLoop host fuel label condition last body scope
  | some first =>
    match ← execute host fuel first scope with
    | .normal => directLoop host fuel label condition last body scope
    | flow => return flow

/-! ### The tree of a loop, round by round -/

/-- How a loop of the evaluator ends once the statement in it has ended, or `none` if it goes on. -/
def afterBody : Flow → Option Flow
  | .normal => none
  | .breaking ⟨none, _⟩ => some .normal
  | flow => some flow

/-- One round of a loop of the evaluator. -/
def treeRound (host : Host) (condition : Expr) (body : Stmt) (ref : FrameRef) (fuel : Nat) :
    Exec (Option Flow) := do
  let value ← evaluate host fuel condition ref
  if value.isTruthy then
    let flow ← execute host fuel body ref
    return afterBody flow
  else return some .normal

theorem repeatWhile_eq_rounds (host : Host) (fuel : Nat) (condition : Expr) (body : Stmt)
    (ref : FrameRef) :
    repeatWhile host fuel condition body ref = rounds (treeRound host condition body ref) fuel := by
  induction fuel with
  | zero => rfl
  | succ fuel ih =>
      rw [repeatWhile, rounds, treeRound, Exec.bind_assoc]
      congr 1
      funext value
      cases value.isTruthy with
      | false => rfl
      | true =>
          simp only [if_true, Exec.bind_assoc]
          congr 1
          funext flow
          cases flow with
          | normal => exact ih
          | breaking signal => rcases signal with ⟨_ | label, line⟩ <;> rfl
          | continuing signal => rfl
          | returning value line => rfl

/-- The body of a loop, once a `continue` that is for the loop has been taken. -/
def pointBody (host : Host) (label : Option Name) (body : Stmt) (ref : FrameRef) (fuel : Nat) :
    Exec Flow := do
  let flow ← execute host fuel body ref
  return catchContinue label flow

/-- The body and the last clause of a loop, with what they leave to the loop. -/
def roundBody (host : Host) (label : Option Name) (last : Option Expr) (body : Stmt)
    (ref : FrameRef) (fuel : Nat) : Exec Flow := do
  match ← pointBody host label body ref fuel with
  | .normal => do
    loopStep host fuel last ref
    return .normal
  | flow => return flow

/-- Without a last clause nothing comes after the body. -/
theorem roundBody_none (host : Host) (label : Option Name) (body : Stmt) (ref : FrameRef)
    (fuel : Nat) :
    roundBody host label none body ref fuel = pointBody host label body ref fuel := by
  funext machine
  cases run : pointBody host label body ref fuel machine with
  | outOfFuel => exact bind_outOfFuel run
  | failed error after => exact bind_failed run
  | done flow after =>
      refine (bind_done run).trans ?_
      cases flow <;> rfl

theorem resumes_iff (signal : Signal) (label : Option Name) : resumes signal label = true ↔
    signal.label = none ∨ signal.label = label.map (·.text) := by
  simp [resumes, Signal.targets]

theorem loopRound_eq (host : Host) (label : Option Name) (condition last : Option Expr)
    (body : Stmt) (ref : FrameRef) (fuel : Nat) :
    loopRound host label condition last body ref fuel = (do
      let value ← loopCondition host fuel condition ref
      if value.isTruthy then
        let flow ← roundBody host label last body ref fuel
        return afterBody flow
      else return some .normal) := by
  rw [loopRound]
  congr 1
  funext value
  cases value.isTruthy with
  | false => rfl
  | true =>
      have goesOn : (loopStep host fuel last ref >>= fun _ => pure none : Exec (Option Flow)) =
          (loopStep host fuel last ref >>= fun _ => pure .normal : Exec Flow) >>= fun flow =>
            pure (afterBody flow) := by
        rw [Exec.bind_assoc]
        rfl
      simp only [if_true, roundBody, pointBody, Exec.bind_assoc]
      congr 1
      funext flow
      cases flow with
      | normal => exact goesOn
      | breaking signal => rcases signal with ⟨_ | label, line⟩ <;> rfl
      | returning value line => rfl
      | continuing signal =>
          by_cases stays : resumes signal label = true
          · simp only [leaveLoop, catchContinue, if_pos stays, if_pos ((resumes_iff _ _).mp stays)]
            exact goesOn
          · simp only [leaveLoop, catchContinue, if_neg stays,
              if_neg fun same => stays ((resumes_iff _ _).mpr same)]
            rfl

/-! ### Steadiness -/

section Steady

variable (host : Host) (label : Option Name) (condition last : Option Expr) (body : Stmt)
    (ref : FrameRef)

theorem steady_evaluate (expr : Expr) : Steady (evaluate host · expr ref) :=
  fun fuel => (moreFuel host fuel).evaluate expr ref

theorem steady_execute (stmt : Stmt) : Steady (execute host · stmt ref) :=
  fun fuel => (moreFuel host fuel).execute stmt ref

theorem steady_loopCondition : Steady (loopCondition host · condition ref) := by
  cases condition with
  | none => exact .const _
  | some condition => exact steady_evaluate host ref condition

theorem steady_loopStep : Steady (loopStep host · last ref) := by
  cases last with
  | none => exact .const _
  | some last => exact .bind (steady_evaluate host ref last) fun _ => .const _

theorem steady_loopRound : Steady (loopRound host label condition last body ref) := by
  refine .bind (steady_loopCondition host condition ref) fun value => ?_
  cases value.isTruthy with
  | false => exact .const _
  | true =>
      refine .bind (steady_execute host ref body) fun flow => ?_
      cases leaveLoop label flow with
      | some flow => exact .const _
      | none => exact .bind (steady_loopStep host last ref) fun _ => .const _

theorem steady_pointBody : Steady (pointBody host label body ref) :=
  .bind (steady_execute host ref body) fun _ => .const _

theorem steady_roundBody : Steady (roundBody host label last body ref) := by
  refine .bind (steady_pointBody host label body ref) fun flow => ?_
  cases flow with
  | normal => exact .bind (steady_loopStep host last ref) fun _ => .const _
  | breaking signal => exact .const _
  | continuing signal => exact .const _
  | returning value line => exact .const _

theorem steady_treeRound (condition : Expr) : Steady (treeRound host condition body ref) := by
  refine .bind (steady_evaluate host ref condition) fun value => ?_
  cases value.isTruthy with
  | false => exact .const _
  | true => exact .bind (steady_execute host ref body) fun _ => .const _

end Steady

/-! ### Trees and direct loops -/

section Trees

variable {host : Host} {merging : Merging} {ref other : FrameRef} {body : Stmt}

/-- A row of one statement ends as the statement does. -/
theorem ends_executeAll_single (host : Host) (stmt : Stmt) (ref : FrameRef) (before : Machine)
    (outcome : Outcome Flow) : Ends (executeAll host · [stmt] ref) before outcome ↔
      Ends (execute host · stmt ref) before outcome := by
  have single {result : Outcome Flow} (ends : Ends (execute host · stmt ref) before result) :
      Ends (executeAll host · [stmt] ref) before result := by
    refine Ends.step.mp ?_
    cases result with
    | outOfFuel => exact absurd rfl ends.1
    | failed error after => exact ends.bindFailed
    | done flow after =>
        cases flow with
        | normal => exact ends.bind (Ends.step.mp (.const (by simp) rfl))
        | breaking signal => exact ends.bind (.const (by simp) rfl)
        | continuing signal => exact ends.bind (.const (by simp) rfl)
        | returning value line => exact ends.bind (.const (by simp) rfl)
  constructor
  · intro ends
    obtain ⟨result, first⟩ := Terminates.first (steady_execute host ref stmt)
      (Terminates.step.mpr ⟨outcome, ends⟩)
    rwa [ends.unique (single first)]
  · exact single

variable (oblivious : ∀ function ∈ host.functions, function.Oblivious)

include oblivious

theorem follows_evaluate (expr : Expr) (here : merging.At ref other) :
    Follows merging Merging.Same (evaluate host · expr ref) (evaluate host · expr other) :=
  .of_agrees (steady_evaluate host ref expr) (steady_evaluate host other expr) fun fuel =>
    (agreeing oblivious fuel).evaluate merging expr ref other here

theorem follows_execute (stmt : Stmt) (here : merging.At ref other)
    (may : merging.Kept ref ∨ stmt.Undeclaring) :
    Follows merging Merging.SameFlow (execute host · stmt ref) (execute host · stmt other) :=
  .of_agrees (steady_execute host ref stmt) (steady_execute host other stmt) fun fuel =>
    (agreeing oblivious fuel).execute merging stmt ref other here may

theorem follows_condition (condition : Option Expr) (here : merging.At ref other) :
    Follows merging Merging.Same
      (evaluate host · (condition.getD (.literal (.bool true))) ref)
      (loopCondition host · condition other) := by
  cases condition with
  | some condition => exact follows_evaluate oblivious condition here
  | none => exact .step (.pure ⟨rfl, by rintro _ ⟨⟩⟩)

theorem follows_point (label : Option Name) (here : merging.At ref other)
    (may : merging.Kept ref ∨ body.Undeclaring) :
    Follows merging Merging.SameFlow (execute host · (.continuePoint label body) ref)
      (pointBody host label body other) := by
  refine .step (.bind (steady_execute host ref body) (steady_execute host other body)
    (follows_execute oblivious body here may) fun later flow result grows same => ?_)
  exact .pure (sameFlow_catchContinue label same)

theorem follows_last (last : Option Expr) (here : merging.At ref other) :
    Follows merging Merging.SameFlow (executeAll host · (last.map .expression).toList ref)
      (fun fuel => loopStep host fuel last other >>= fun _ => pure .normal) := by
  cases last with
  | none => exact .step (.pure ⟨rfl, by simp⟩)
  | some last =>
      refine .congr ?_ fun before outcome =>
        (ends_executeAll_single host (.expression last) ref before outcome).symm
      refine .step ?_
      simp only [loopStep, Exec.bind_assoc]
      exact .bind (steady_evaluate host ref last) (steady_evaluate host other last)
        (follows_evaluate oblivious last here) fun later _ _ _ _ => .pure ⟨rfl, by simp⟩

/-- What a `while` repeats. -/
theorem follows_whileBody (label : Option Name) (here : merging.At ref other)
    (kept : merging.Kept ref) :
    Follows merging Merging.SameFlow (execute host · (.continuePoint label body) ref)
      (roundBody host label none body other) := by
  rw [funext (roundBody_none host label body other)]
  exact follows_point oblivious label here (.inl kept)

/-- What a `for` repeats: its frame stays blank, since the body declares nothing in it. -/
theorem follows_forBody (label : Option Name) (last : Option Expr) (undeclaring : body.Undeclaring)
    (here : merging.At ref other) :
    Follows merging Merging.SameFlow
      (execute host · (.block (.continuePoint label body :: (last.map .expression).toList)) ref)
      (roundBody host label last body other) := by
  refine .step (.blank here fun later inner grows place => .step ?_)
  refine .bind (steady_execute host inner (.continuePoint label body)) ?_
    (follows_point oblivious label place (.inr undeclaring)) fun last flow result more same => ?_
  · exact .bind (steady_execute host other body) fun _ => .const _
  · obtain ⟨rfl, below⟩ := same
    cases flow with
    | normal => exact follows_last oblivious _ (more.at place)
    | breaking signal => exact .pure ⟨rfl, below⟩
    | continuing signal => exact .pure ⟨rfl, below⟩
    | returning value line => exact .pure ⟨rfl, below⟩

theorem follows_round (label : Option Name) (condition last : Option Expr) (treeBody : Stmt)
    (here : merging.At ref other)
    (bodies : ∀ later, merging.Later later → Follows later Merging.SameFlow
      (execute host · treeBody ref) (roundBody host label last body other)) :
    Follows merging Merging.SameRound
      (treeRound host (condition.getD (.literal (.bool true))) treeBody ref)
      (loopRound host label condition last body other) := by
  rw [funext (loopRound_eq host label condition last body other)]
  refine .bind (steady_evaluate host ref _) (steady_loopCondition host condition other)
    (follows_condition oblivious condition here) fun later value result grows same => ?_
  obtain ⟨rfl, -⟩ := same
  simp only [Value.isTruthy_rename]
  cases value.isTruthy with
  | false => exact .pure (.ends ⟨rfl, by simp⟩)
  | true =>
      refine .bind (steady_execute host ref treeBody) (steady_roundBody host label last body other)
        (bodies later grows) fun final flow result _ same => ?_
      obtain ⟨rfl, below⟩ := same
      cases flow with
      | normal => exact .pure .goesOn
      | breaking signal =>
          rcases signal with ⟨_ | label, line⟩ <;> exact .pure (.ends ⟨rfl, by simp⟩)
      | continuing signal => exact .pure (.ends ⟨rfl, by simp⟩)
      | returning value line => exact .pure (.ends ⟨rfl, below⟩)

/-- If what the tree repeats follows the body and the last clause of a loop, the tree follows the
loop. -/
theorem follows_loop (label : Option Name) (condition last : Option Expr) (treeBody : Stmt)
    (here : merging.At ref other)
    (bodies : ∀ later, merging.Later later → Follows later Merging.SameFlow
      (execute host · treeBody ref) (roundBody host label last body other)) :
    Follows merging Merging.SameFlow
      (execute host · (.loop (condition.getD (.literal (.bool true))) treeBody) ref)
      (directLoop host · label condition last body other) := by
  refine .step ?_
  change Follows merging _ (fun fuel => repeatWhile host fuel _ treeBody ref) _
  rw [funext fun fuel => repeatWhile_eq_rounds host fuel _ treeBody ref]
  refine .rounds (steady_treeRound host treeBody ref _)
    (steady_loopRound host label condition last body other) fun later grows => ?_
  exact follows_round oblivious label condition last treeBody (grows.at here) fun final more =>
    bodies final (grows.trans more)

theorem follows_while (label : Option Name) (condition : Expr) (here : merging.At ref other)
    (kept : merging.Kept ref) :
    Follows merging Merging.SameFlow (execute host · (Parser.whileLoop label condition body) ref)
      (directLoop host · label (some condition) none body other) :=
  follows_loop oblivious label (some condition) none (.continuePoint label body) here
    fun _ grows => follows_whileBody oblivious label (grows.at here) (grows.kept here.2 kept)

theorem follows_for (label : Option Name) (first : Option Stmt) (condition last : Option Expr)
    (undeclaring : body.Undeclaring) (here : merging.At ref other) :
    Follows merging Merging.SameFlow
      (execute host · (Parser.forLoop label first condition last body) ref)
      (directFor host · label first condition last body other) := by
  -- Both have a frame for the whole loop, which is not blank: the first clause may declare
  -- something.
  have child : Follows merging (fun later inner place => later.At inner place ∧ later.Kept inner)
      (fun _ => newChild ref) (fun _ => newChild other) :=
    .of_agrees (.const _) (.const _) fun _ => .newChild here
  refine .step (.bind (.const _) (.const _) child fun later inner innerOther _ place => ?_)
  obtain ⟨inside, kept⟩ := place
  have loops (final : Merging) (grows : later.Later final) : Follows final Merging.SameFlow
      (executeAll host · [.loop (condition.getD (.literal (.bool true)))
        (.block (.continuePoint label body :: (last.map .expression).toList))] inner)
      (directLoop host · label condition last body innerOther) := by
    refine .congr ?_ fun before outcome => (ends_executeAll_single host _ inner before outcome).symm
    exact follows_loop oblivious label condition last _ (grows.at inside) fun _ more =>
      follows_forBody oblivious label last undeclaring ((grows.trans more).at inside)
  cases first with
  | none => exact loops later (.refl later)
  | some first =>
      refine .step (.bind (steady_execute host inner first) (steady_execute host innerOther first)
        (follows_execute oblivious first inside (.inl kept)) fun final flow result grows same => ?_)
      obtain ⟨rfl, below⟩ := same
      cases flow with
      | normal => exact loops final grows
      | breaking signal => exact .pure ⟨rfl, below⟩
      | continuing signal => exact .pure ⟨rfl, below⟩
      | returning value line => exact .pure ⟨rfl, below⟩

end Trees

/-- From a well-formed machine, in any of its frames, and with any body that the parser reads as a
statement, the tree of a `for` does what the direct loop does, and so does the tree of a `while`.
The functions of the host must not depend on which frames the closures have that they are given. -/
theorem loops_run_directly {host : Host}
    (oblivious : ∀ function ∈ host.functions, function.Oblivious) {machine : Machine}
    (formed : machine.store.WellFormed) {ref : FrameRef}
    (inside : ref.index < machine.store.frames.size) {body : Stmt}
    (accepted : ∃ steps before after, Parser.statement steps before = .parsed body after)
    (label : Option Name) :
    (∀ first condition last, Equivalent machine
      (execute host · (Parser.forLoop label first condition last body) ref)
      (directFor host · label first condition last body ref)) ∧
    (∀ condition, Equivalent machine
      (execute host · (Parser.whileLoop label condition body) ref)
      (directLoop host · label (some condition) none body ref)) := by
  have here : (Merging.identity machine.store).At ref ref := ⟨rfl, inside⟩
  constructor
  · intro first condition last
    obtain ⟨steps, before, after, read⟩ := accepted
    have undeclaring : body.Undeclaring :=
      (Parser.undeclared steps).statement before body after read
    exact (follows_for oblivious label first condition last undeclaring here).equivalent formed
  · intro condition
    have kept := Merging.kept_identity machine.store ref
    exact (follows_while oblivious label condition here kept).equivalent formed

/-- Once around `for (var i = nil; !i; i = true) { print i; continue; }`: the direct loop prints
what the tree does. -/
theorem directFor_prints_once :
    let interpreter := build [] (fun _ => 0) defaultMaxCallDepth
    let token (kind : TokenKind) (text : String) : Token := .plain kind text 1
    let tokens := [token .leftBrace "\x7b", token .kwPrint "print", token .identifier "i",
      token .semicolon ";", token .kwContinue "continue", token .semicolon ";",
      token .rightBrace "\x7d",
      .endOfInput 1]
    let before : Parser.State := ⟨.ofTokens tokens, { Scope.program with context := .loop }, []⟩
    let name : Name := ⟨"i", 1⟩
    let first := Stmt.define name (some (.literal .nil))
    let condition := Expr.unary .not 1 (.variable name)
    let last := Expr.assign name (.literal (.bool true))
    ∃ body after machine, Parser.statement 60 before = .parsed body after ∧ after.errors = [] ∧
      Ends
        (directFor interpreter.host · none (some first) (some condition) (some last) body globals)
        interpreter.machine (.done .normal machine) ∧ machine.printed = #["nil"] := by
  intro interpreter token tokens before name first condition last
  let body : Stmt := .block [.print (.variable name), .continueOn 1 none]
  obtain ⟨after, read, clean⟩ :
      ∃ after, Parser.statement 60 before = .parsed body after ∧ after.errors = [] := ⟨_, rfl, rfl⟩
  have oblivious : ∀ function ∈ interpreter.host.functions, function.Oblivious := by
    simp [interpreter, build, HostFunction.Oblivious, HostFunction.clock]
  have inside : globals.index < interpreter.machine.store.frames.size := by decide
  obtain ⟨machine, run, printed⟩ : ∃ machine, execute interpreter.host 40
      (Parser.forLoop none (some first) (some condition) (some last) body) globals
      interpreter.machine = .done .normal machine ∧ machine.printed = #["nil"] := ⟨_, rfl, rfl⟩
  have ends := (steady_execute interpreter.host globals
    (Parser.forLoop none (some first) (some condition) (some last) body)).ends (by rw [run]; simp)
  rw [run] at ends
  obtain ⟨other, endsDirect, effect⟩ := ((loops_run_directly oblivious
    (wellFormed_build [] (fun _ => 0) defaultMaxCallDepth) inside ⟨60, before, after, read⟩ none).1
      (some first) (some condition) (some last)).1 _ ends
  cases effect with
  | done same => exact ⟨body, after, _, read, clean, endsDirect, same.joins.printed.trans printed⟩

end Interpreter

end Lox
