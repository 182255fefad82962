import Mathlib.Logic.Equiv.Basic
import Lox.Proofs.Interpreter.Respelling
import Lox.Proofs.Parser.Acceptance
import Lox.Proofs.Token.Tiling

/-!
How names are spelled does not matter.

A `Renaming` gives other identifiers for identifiers, different ones for different ones. If the
identifiers of a text without faults are renamed, the tokens are parsed into the renamed program
(`parse_respell`), and if the clock and the functions keep their names, the renamed program does
what the program does, line by line (`spelling_irrelevant`). Only an error that names a variable
names the renamed one.
-/

namespace Lox

/-! ### Renamings -/

/-- A text that is a single identifier. -/
abbrev Identifier := { text : String // pieces text.toList = [.token .identifier text.toList] }

/-- Other identifiers in the place of identifiers, so that no two become the same. -/
structure Renaming where
  image : Identifier → Identifier
  injective : Function.Injective image

namespace Renaming

variable (renames : Renaming)

/-- The text that a text becomes: one that is no identifier stays as it is. -/
def apply (text : String) : String :=
  if single : pieces text.toList = [.token .identifier text.toList] then
    (renames.image ⟨text, single⟩).val else text

theorem apply_injective : Function.Injective renames.apply := by
  intro first second same
  by_cases single : pieces first.toList = [.token .identifier first.toList] <;>
    by_cases other : pieces second.toList = [.token .identifier second.toList]
  · rw [apply, apply, dif_pos single, dif_pos other] at same
    exact congrArg Subtype.val (renames.injective (Subtype.ext same))
  · rw [apply, apply, dif_pos single, dif_neg other] at same
    exact absurd (same ▸ (renames.image ⟨first, single⟩).property) other
  · rw [apply, apply, dif_neg single, dif_pos other] at same
    exact absurd (same ▸ (renames.image ⟨second, other⟩).property) single
  · rwa [apply, apply, dif_neg single, dif_neg other] at same

/-- The renaming that makes two identifiers change places. -/
def swap (first second : Identifier) : Renaming :=
  ⟨Equiv.swap first second, (Equiv.swap first second).injective⟩

end Renaming

/-! ### Parsing -/

/-- If tokens are accepted, respelled tokens are accepted as the respelled program. -/
theorem Accepts.respell {tokens : List Token} {expressionOnly : Bool} {stmts : List Stmt}
    (accepts : Accepts tokens expressionOnly stmts) (rename : String → String) :
    Accepts (tokens.map (Token.respell rename)) expressionOnly
      (stmts.map (Stmt.respell rename)) := by
  cases accepts with
  | @bare expr levelled spells =>
      refine .bare ((Expr.wellLevelled_respell expr).mpr levelled) ?_
      rw [Expr.spelling_respell]
      exact spells.respell
  | @program _ body derives =>
      have becomes : (body.map Declaration.tree).map (Stmt.respell rename) =
          (Declaration.allRespelled rename body).map Declaration.tree := by
        rw [← Declaration.trees_eq, ← Declaration.trees_eq, Declaration.trees_respell,
          Stmt.allRespelled_eq]
      rw [becomes]
      refine .program ⟨?_, Declaration.allWellFormed_respell derives.formed,
        Declaration.allObey_respell body .program derives.obeys⟩
      rw [Declaration.spellings_respell]
      exact derives.spells.respell

/-- Respelled tokens are parsed into the respelled program. -/
theorem parse_respell {source : String} {expressionOnly : Bool}
    (clean : (parse (scan source).tokens expressionOnly).errorCount = 0)
    (rename : String → String) :
    parse ((scan source).tokens.map (Token.respell rename)) expressionOnly =
      ⟨(parse (scan source).tokens expressionOnly).statements.map (Stmt.respell rename),
        0, []⟩ := by
  obtain ⟨tokens, last, found, scanned⟩ := scan_tokens source
  rw [found] at clean ⊢
  have accepts := (Parser.accepts_of_parse scanned clean).respell rename
  have inside : ∀ token ∈ tokens.map (Token.respell rename), token.kind ≠ .endOfInput := by
    intro token member
    obtain ⟨given, here, rfl⟩ := List.mem_map.mp member
    rw [Token.kind_respell]
    exact (scanned given here).1
  rw [List.map_append]
  exact Parser.parse_of_accepts inside accepts last

/-! ### Running -/

/-- Two outcomes of runs that show the same, except that the name which an error is about is
respelled. -/
inductive Outcome.ShowsRespelled (rename : String → String) : Outcome Unit → Outcome Unit → Prop
  | done {after after' : Machine} (printed : after'.printed = after.printed) :
      ShowsRespelled rename (.done () after) (.done () after')
  | failed {error : RuntimeError} {after after' : Machine}
      (printed : after'.printed = after.printed) :
      ShowsRespelled rename (.failed error after) (.failed (error.respell rename) after')
  | outOfFuel : ShowsRespelled rename .outOfFuel .outOfFuel

theorem Outcome.ShowsRespelled.of_failed {rename : String → String} {error : RuntimeError}
    {after : Machine} {outcome : Outcome Unit}
    (shows : ShowsRespelled rename (.failed error after) outcome) :
    ∃ after', outcome = .failed (error.respell rename) after' ∧ after'.printed = after.printed := by
  cases shows with
  | failed printed => exact ⟨_, rfl, printed⟩

/-- Run by a new interpreter, a respelled program shows what the program shows. -/
theorem run_respell {rename : String → String} (injective : Function.Injective rename)
    (clockKept : rename "clock" = "clock") {program : List Stmt} (accepted : Accepted program)
    (functionsKept : ∀ name ∈ Stmt.allFunctionNames program, rename name = name) (fuel : Nat)
    (clock : Nat → Float) (limit : Nat) :
    let interpreter := Interpreter.build [] clock limit
    (Interpreter.interpret interpreter.host fuel program interpreter.machine).ShowsRespelled rename
      (Interpreter.interpret interpreter.host fuel
        (program.map (Stmt.respell rename)) interpreter.machine) := by
  intro interpreter
  have bare (error : RuntimeError) (after : Machine)
      (run : Interpreter.interpret interpreter.host fuel program interpreter.machine =
        .failed error after)
      (signal : String) (fault : error.fault = .escapedSignal signal) : signal = "break" := by
    obtain ⟨_, line⟩ := error
    cases fault
    exact Interpreter.escape_of_interpret accepted run
  have outcomes :=
    Interpreter.interpret_respells injective
      (Interpreter.reads_build clock limit) functionsKept fuel _ _
    (Interpreter.machine_respells injective clockKept clock limit)
  revert outcomes bare
  generalize Interpreter.interpret interpreter.host fuel program interpreter.machine = outcome
  generalize Interpreter.interpret interpreter.host fuel
    (program.map (Stmt.respell rename)) interpreter.machine =
    outcome'
  intro bare outcomes
  cases outcomes with
  | done holds machines => exact .done machines.printed
  | failed errors machines => exact errors.eq (bare _ _ rfl) ▸ .failed machines.printed
  | outOfFuel => exact .outOfFuel

/-- **Programs do not depend on how names are spelled.** If a text is parsed without an error and
its identifiers are renamed, those of variables, parameters and labels alike, the tokens are parsed
without an error into the renamed program. If the renaming keeps the name of the clock and the names
of all functions that the text declares, then a run of the renamed program ends as that of the
program does with the same fuel, the same readings of the clock and the same limit on calls: it
prints the same and ends well or with the same error on the same line, but for the name in the error
of a variable without a value, which is the renamed one. -/
theorem spelling_irrelevant {source : String} {expressionOnly : Bool}
    (clean : (parse (scan source).tokens expressionOnly).errorCount = 0) (renames : Renaming)
    (clockKept : renames.apply "clock" = "clock")
    (functionsKept :
      ∀ name ∈ Stmt.allFunctionNames (parse (scan source).tokens expressionOnly).statements,
        renames.apply name = name) :
    let program := (parse (scan source).tokens expressionOnly).statements
    let respelled := program.map (Stmt.respell renames.apply)
    parse ((scan source).tokens.map (Token.respell renames.apply)) expressionOnly =
      ⟨respelled, 0, []⟩ ∧
      ∀ (fuel : Nat) (clock : Nat → Float) (limit : Nat),
        let interpreter := Interpreter.build [] clock limit
        (Interpreter.interpret interpreter.host fuel program interpreter.machine).ShowsRespelled
          renames.apply
          (Interpreter.interpret interpreter.host fuel respelled interpreter.machine) := by
  refine ⟨parse_respell clean renames.apply, fun fuel clock limit => ?_⟩
  exact run_respell renames.apply_injective clockKept
    ⟨_, _, scan_ended source, clean, rfl⟩ functionsKept fuel
    clock limit

/-- A parameter and a variable that is not declared change their names. -/
theorem spelling_irrelevant_swap :
    let source := "fun f(a) \x7b print a; \x7d f(\"x\"); b;"
    let renames := Renaming.swap ⟨"a", by decide +kernel⟩ ⟨"b", by decide +kernel⟩
    let interpreter := Interpreter.build [] (fun _ => 0) defaultMaxCallDepth
    ∃ program after,
      parse ((scan source).tokens.map (Token.respell renames.apply)) false = ⟨program, 0, []⟩ ∧
      Interpreter.interpret interpreter.host 20 program interpreter.machine =
        .failed ⟨.undefinedVariable "a", 1⟩ after ∧ after.printed = #["x"] := by
  intro source renames interpreter
  have kept : ∀ name ∈ Stmt.allFunctionNames (parse (scan source).tokens false).statements,
      renames.apply name = name := by decide +kernel
  obtain ⟨parses, runs⟩ := spelling_irrelevant (by decide +kernel) renames (by decide +kernel) kept
  have swapped : renames.apply "b" = "a" := by decide +kernel
  have shown :
      (match Interpreter.interpret interpreter.host 20 (parse (scan source).tokens false).statements
      interpreter.machine with
    | .failed error after => some (error, after.printed)
    | _ => none) = some (⟨.undefinedVariable "b", 1⟩, #["x"]) := by decide +kernel
  split at shown
  case h_2 => cases shown
  case h_1 error after run =>
    obtain ⟨rfl, printed⟩ := Prod.mk.inj (Option.some.inj shown)
    have alike := runs 20 (fun _ => 0) defaultMaxCallDepth
    change Outcome.ShowsRespelled _
      (Interpreter.interpret interpreter.host 20 _ interpreter.machine) _ at alike
    rw [run] at alike
    obtain ⟨after', run', same⟩ := alike.of_failed
    rw [RuntimeError.respell, Fault.respell, swapped] at run'
    exact ⟨_, after', parses, run', same.trans printed⟩

end Lox
