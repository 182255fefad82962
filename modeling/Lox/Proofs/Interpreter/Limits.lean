import Lox.Proofs.Interpreter.Congruence
import Lox.Proofs.Interpreter.Escapes
import Lox.Proofs.Interpreter.Rows

/-!
Runs under a greater limit on nested calls.

A program can neither see the limit nor go on after a call that was refused. So two runs that differ
in their limits do the same until the lower limit refuses a call, and then the run under it is over.
What it has printed by then the other run has printed as well, and keeps (`CutShortOf`). Hence a
greater limit changes no run that fits under the lower one (`greater_limit`).
-/

namespace Lox

/-- A host with another limit on nested calls. -/
def Host.withLimit (host : Host) (limit : Nat) : Host :=
  { host with maxCallDepth := limit }

namespace Outcome

variable {α : Type}

/-- An outcome is the error of a call that was refused for the limit. -/
def Overflows (outcome : Outcome α) : Prop :=
  ∃ limit line after, outcome = .failed ⟨.stackOverflow limit, line⟩ after

/-- The lines that had been printed when an action ended. -/
def printed : Outcome α → List String
  | .done _ after => after.printed.toList
  | .failed _ after => after.printed.toList
  | .outOfFuel => []

/-- An outcome is the same as another, or the run that it ends was cut short by the limit: it has
printed nothing that the other has not. -/
inductive CutShortOf : Outcome α → Outcome α → Prop where
  | same (outcome) : CutShortOf outcome outcome
  | refused {limit line after whole}
      (prints : whole.AllMachines fun last => after.printed.toList <+: last.printed.toList) :
      CutShortOf (.failed ⟨.stackOverflow limit, line⟩ after) whole

end Outcome

open Outcome

/-- One action is another, cut short by the limit if it is. -/
structure Exec.CutShortOf {α : Type} (action whole : Exec α) : Prop where
  continues : whole.Continues
  outcomes : ∀ machine, (action machine).CutShortOf (whole machine)

namespace Exec.CutShortOf

open Exec

variable {α β : Type} {action whole : Exec α}

theorem refl (continues : action.Continues) : action.CutShortOf action :=
  ⟨continues, fun machine => .same (action machine)⟩

theorem bind {next nextWhole : α → Exec β} (first : action.CutShortOf whole)
    (second : ∀ value, (next value).CutShortOf (nextWhole value)) :
    (action >>= next).CutShortOf (whole >>= nextWhole) where
  continues := .bind first.continues fun value => (second value).continues
  outcomes := by
    intro machine
    have begun := first.outcomes machine
    generalize run : action machine = outcome at begun
    generalize other : whole machine = outcome' at begun
    cases begun with
    | same =>
        cases outcome with
        | done value after =>
            rw [bind_done run, bind_done other]
            exact (second value).outcomes after
        | failed error after =>
            rw [bind_failed run, bind_failed other]
            exact .same _
        | outOfFuel =>
            rw [bind_outOfFuel run, bind_outOfFuel other]
            exact .same _
    | refused prints =>
        rw [bind_failed run]
        -- Whatever the whole goes on to do, it keeps what it has printed.
        rw [← other] at prints
        refine .refused (allMachines_bind prints fun value middle _ sofar => ?_)
        exact ((second value).continues middle).imp fun _ more => sofar.trans more.printed

theorem nested {limit limit' : Nat} (le : limit ≤ limit') (line : Nat)
    (body : action.CutShortOf whole) :
    (nested limit line action).CutShortOf (nested limit' line whole) where
  continues := .nested limit' line body.continues
  outcomes := by
    intro machine
    by_cases full : limit ≤ machine.callDepth
    · have kept := Continues.nested limit' line body.continues machine
      rw [Exec.nested, if_pos full]
      exact .refused (kept.imp fun _ more => more.printed)
    · have room : ¬ limit' ≤ machine.callDepth := fun full' => full (Nat.le_trans le full')
      rw [Exec.nested, Exec.nested, if_neg full, if_neg room]
      have outcomes := body.outcomes { machine with callDepth := machine.callDepth + 1 }
      revert outcomes
      generalize action _ = outcome
      generalize whole _ = outcome'
      intro outcomes
      cases outcomes with
      | same => exact .same _
      | refused prints =>
          refine .refused ?_
          cases outcome' with
          | done value last => exact prints
          | failed error last => exact prints
          | outOfFuel => trivial

/-- Under a greater limit every step is the same, but for a call that is no longer refused. -/
theorem congruence (host : Host) {limit limit' : Nat} (le : limit ≤ limit') :
    Congruence (host.withLimit limit) (host.withLimit limit') fun action whole =>
      action.CutShortOf whole :=
  have continues := Continues.congruence host
  { outOfFuel := refl continues.outOfFuel
    pure := fun value => refl (continues.pure value)
    fail := fun error => refl (continues.fail error)
    bind := bind
    print := fun text => refl (continues.print text)
    lookup := fun name ref => refl (continues.lookup name ref)
    define := fun ref name value => refl (continues.define ref name value)
    assign := fun ref name value => refl (continues.assign ref name value)
    newChild := fun parent => refl (continues.newChild parent)
    makeClosure := fun decl scope => refl (continues.makeClosure decl scope)
    callNative := fun native arguments line => refl (continues.callNative native arguments line)
    nested := fun line _ _ => nested le line }

end Exec.CutShortOf

/-- The runs of one action as far as another is only cut short by the limit: it ends as the other
does unless a call is refused; it prints no more than a beginning of what the other prints; and if a
call of the other is refused, so is one of its own. -/
structure OnlyCutShort {α : Type} (machine : Machine) (run whole : Nat → Exec α) : Prop where
  same : ∀ outcome, Ends run machine outcome → ¬ outcome.Overflows → Ends whole machine outcome
  printed : ∀ outcome last, Ends run machine outcome → Ends whole machine last →
    outcome.printed <+: last.printed
  overflows : ∀ outcome last, Ends run machine outcome → Ends whole machine last → last.Overflows →
    outcome.Overflows

/-- Ends of both with fuel enough for both. -/
theorem Ends.together {α β : Type} {run : Nat → Exec α} {other : Nat → Exec β}
    {machine machine' : Machine} {outcome : Outcome α} {last : Outcome β}
    (left : Ends run machine outcome) (right : Ends other machine' last) :
    ∃ fuel, run fuel machine = outcome ∧ other fuel machine' = last := by
  obtain ⟨-, enough, all⟩ := left
  obtain ⟨-, more, allOther⟩ := right
  exact ⟨max enough more, all _ (Nat.le_max_left _ _), allOther _ (Nat.le_max_right _ _)⟩

theorem OnlyCutShort.of_outcomes {α : Type} {machine : Machine} {run whole : Nat → Exec α}
    (outcomes : ∀ fuel, (run fuel machine).CutShortOf (whole fuel machine)) :
    OnlyCutShort machine run whole where
  same := by
    rintro outcome ⟨ended, enough, all⟩ fits
    refine ⟨ended, enough, fun fuel le => ?_⟩
    have steps := outcomes fuel
    rw [all fuel le] at steps
    generalize whole fuel machine = last at steps
    cases steps with
    | same => rfl
    | refused prints => exact absurd ⟨_, _, _, rfl⟩ fits
  printed := by
    intro outcome last ends endsWhole
    obtain ⟨fuel, rfl, rfl⟩ := ends.together endsWhole
    have steps := outcomes fuel
    have ended := endsWhole.1
    revert steps ended
    generalize run fuel machine = outcome
    generalize whole fuel machine = last
    intro steps ended
    cases steps with
    | same => exact List.prefix_rfl
    | refused prints =>
        cases last with
        | done value after => exact prints
        | failed error after => exact prints
        | outOfFuel => exact absurd rfl ended
  overflows := by
    intro outcome last ends endsWhole overflows
    obtain ⟨fuel, rfl, rfl⟩ := ends.together endsWhole
    have steps := outcomes fuel
    revert steps overflows
    generalize run fuel machine = outcome
    generalize whole fuel machine = last
    intro overflows steps
    cases steps with
    | same => exact overflows
    | refused prints => exact ⟨_, _, _, rfl⟩

namespace Interpreter

theorem continues_finish (flow : Flow) : (finish flow).Continues := by
  cases flow with
  | normal => exact fun machine => .refl machine
  | breaking signal => exact fun machine => .refl machine
  | continuing signal => exact fun machine => .refl machine
  | returning value line => exact fun machine => .refl machine

/-- Under a greater limit a program does the same, unless it was cut short. -/
theorem cutShort_runProgram (host : Host) {limit limit' : Nat} (le : limit ≤ limit') (fuel : Nat)
    (program : List Stmt) (ref : FrameRef) :
    (runProgram (host.withLimit limit) fuel program ref).CutShortOf
      (runProgram (host.withLimit limit') fuel program ref) :=
  .bind (((Exec.CutShortOf.congruence host le).runs fuel).executeAll program ref)
    fun flow => .refl (continues_finish flow)

theorem steady_executeIn (host : Host) (program : List Stmt) (ref : FrameRef) :
    Steady fun fuel => executeIn host fuel program ref :=
  fun fuel machine => steady_runProgram host program ref fuel { machine with callDepth := 0 }

/-- **Raising the limit changes no run that fits.** From every machine, a program that ends under a
limit, without a call being refused for it, ends under a greater one in the same way and with the
same machine. What it prints under the lower limit is always the beginning of what it prints under
the greater one, and it overflows under the greater limit only if it does under the lower one. -/
theorem greater_limit (host : Host) {limit limit' : Nat} (le : limit ≤ limit') (program : List Stmt)
    (machine : Machine) :
    (∀ ref, OnlyCutShort machine (fun fuel => executeIn (host.withLimit limit) fuel program ref)
      fun fuel => executeIn (host.withLimit limit') fuel program ref) ∧
    OnlyCutShort machine (fun fuel => interpret (host.withLimit limit) fuel program)
      fun fuel => interpret (host.withLimit limit') fuel program := by
  have runs (fuel : Nat) (ref : FrameRef) (machine : Machine) :
      (executeIn (host.withLimit limit) fuel program ref machine).CutShortOf
        (executeIn (host.withLimit limit') fuel program ref machine) :=
    (cutShort_runProgram host le fuel program ref).outcomes { machine with callDepth := 0 }
  constructor
  · intro ref
    exact .of_outcomes fun fuel => runs fuel ref machine
  · exact .of_outcomes fun fuel => runs fuel machine.store.nextRef
      { machine with store := (machine.store.addChild globals).2 }

/-- A function that prints a line and calls itself once. -/
def echo : List Stmt :=
  [.function ⟨"echo", 1⟩ [⟨"again", 1⟩]
    [.print (.literal (.text "echo")),
      .conditional (.variable ⟨"again", 2⟩)
        (.expression (.call (.variable ⟨"echo", 2⟩) [.literal (.bool false)] 2)) none],
    .expression (.call (.variable ⟨"echo", 3⟩) [.literal (.bool true)] 3)]

/-- The inner call is one too many under the limit 1, and fits under all others. -/
theorem greater_limit_echo :
    let host : Host := ⟨#[.clock], fun _ => 0, 0⟩
    let machine := (build [] (fun _ => 0) 0).machine
    let run (limit fuel : Nat) := interpret (host.withLimit limit) fuel echo
    ∃ cut whole, Ends (run 1) machine cut ∧ Ends (run 2) machine whole ∧ cut.Overflows ∧
      ¬ whole.Overflows ∧ cut.printed = ["echo"] ∧ cut.printed <+: whole.printed ∧
      ∀ limit, 2 ≤ limit → Ends (run limit) machine whole := by
  intro host machine run
  have settles (limit fuel : Nat) (ends : (run limit fuel machine).printed ≠ []) :
      Ends (run limit) machine (run limit fuel machine) := by
    have steady : Steady (run limit) := .bind (.const _) fun ref => steady_executeIn _ echo ref
    refine steady.ends fun starved => ends ?_
    rw [starved]
    rfl
  have cut : (run 1 30 machine).error? = some ⟨.stackOverflow 1, 2⟩ ∧
      (run 1 30 machine).printed = ["echo"] := by decide +kernel
  have whole : (run 2 30 machine).error? = none ∧
      (run 2 30 machine).printed = ["echo", "echo"] := by
    decide +kernel
  obtain ⟨after, refused⟩ := Outcome.error?_eq_some.mp cut.1
  have cutEnds := settles 1 30 (by simp [cut.2])
  have wholeEnds := settles 2 30 (by simp [whole.2])
  have fits : ¬ (run 2 30 machine).Overflows := by
    rintro ⟨limit, line, after, overflows⟩
    simp [overflows, Outcome.error?] at whole
  refine ⟨_, _, cutEnds, wholeEnds, ⟨1, 2, after, refused⟩, fits, cut.2, ?_, fun limit more => ?_⟩
  · exact (greater_limit host (by decide : 1 ≤ 2) echo machine).2.printed _ _ cutEnds wholeEnds
  · exact (greater_limit host more echo machine).2.same _ wholeEnds fits

end Interpreter

end Lox
