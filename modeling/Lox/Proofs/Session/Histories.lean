import Lox.Proofs.Reporter.Flags
import Lox.Proofs.Session.Layout

/-!
Sources that are handled one after another by one reporter.

Of all that a reporter has been asked before, one thing matters to a source: whether a mistake in a
source was reported since the last reset. If none was, the source is run or refused for what is in
it alone. If one was, it is refused whatever is in it, though only its own faults are reported
(`acceptance_after_history`). So a source without a fault is refused behind one that has a fault,
unless the flags are cleared in between (`faultless_source_refused`); lines of a session are safe
from each other, since each begins with a reset.
-/

namespace Lox

/-- The outline of the program that a source is, if nothing is wrong with it. -/
def sourceOutline (source : String) : Option String :=
  if sourceFaults source false = [] then
    some (renderProgram (parse (scan source).tokens false).statements)
  else none

/-- Whether requests leave the mark of a mistake in a source. -/
def Request.leavesSourceError (history : List Request) : Bool :=
  (Request.diagnostics (Request.sinceReset history)).any Diagnostic.isSource

theorem outlineSource_eq {ρ : Type} [Reporter ρ] [LawfulReporter ρ] (source : String)
    (reporter : ρ) :
    outlineSource source reporter =
      (if Reporter.hadSourceError reporter then none else sourceOutline source,
      Reporter.replay reporter ((sourceFaults source false).map .reported)) := by
  unfold outlineSource sourceOutline
  cases flag : Reporter.hadSourceError reporter with
  | true =>
      rw [frontEnd_flagged source false flag]
      rfl
  | false =>
      rw [frontEnd_eq source false flag]
      by_cases clean : sourceFaults source false = []
      · rw [if_pos clean, if_pos clean]
        rfl
      · rw [if_neg clean, if_neg clean]
        rfl

/-- **What a source comes to after a history.** Behind requests that leave no mark of a mistake in a
source, a program ends, is outlined and is reported on as it would be by a new reporter. Behind
others it is refused, and nothing is reported but its own faults. With faults of its own it is
refused either way, and the same is reported of it. -/
theorem acceptance_after_history (fuel : Nat) (clock : Nat → Float) (source : String) :
    let own := (sourceFaults source false).map Event.reported
    (∀ (ρ : Type) [Reporter ρ] [LawfulReporter ρ] (reporter : ρ) (history : List Request),
      Reporter.hadSourceError reporter = false →
      let used := Reporter.performAll reporter history
      runSource fuel clock source used =
          (if Request.leavesSourceError history then some (.sourceError, own)
            else sourceEnding fuel clock source).map
              (fun (status, events) => (status, Reporter.replay used events)) ∧
        outlineSource source used =
          (if Request.leavesSourceError history then none else sourceOutline source,
            Reporter.replay used own)) ∧
    (sourceFaults source false ≠ [] →
      sourceEnding fuel clock source = some (.sourceError, own) ∧ sourceOutline source = none) := by
  intro own
  refine ⟨fun ρ _ _ reporter history clear => ?_, fun faulty => ⟨if_neg faulty, if_neg faulty⟩⟩
  intro used
  have flag : Reporter.hadSourceError used = Request.leavesSourceError history :=
    Reporter.flag_source.after_performAll clear history
  refine ⟨?_, flag ▸ outlineSource_eq source used⟩
  cases marked : Request.leavesSourceError history with
  | true => exact runSource_flagged fuel clock source (flag.trans marked)
  | false => exact runSource_eq fuel clock source (flag.trans marked)

/-- A program behind a mistake that was reported and reset, the same behind one that was not reset,
and a source with a fault of its own. -/
theorem acceptance_after_history_reset :
    let used := Reporter.performAll Transcript.empty [.reportSource 1 "" "Unexpected character."]
    let cleared :=
      Reporter.performAll Transcript.empty [.reportSource 1 "" "Unexpected character.", .reset]
    Reporter.hadSourceError Transcript.empty = false ∧
      runSource 100 (fun _ => 0) "print \"a\";" cleared = some (.ok, Reporter.print cleared "a") ∧
      runSource 100 (fun _ => 0) "print \"a\";" used = some (.sourceError, used) ∧
      sourceFaults "@" false ≠ [] ∧ sourceOutline "@" = none := by
  intro used cleared
  have told :=
    (acceptance_after_history 100 (fun _ => 0) "print \"a\";").1 Transcript Transcript.empty
  have runs := (told [.reportSource 1 "" "Unexpected character.", .reset] rfl).1
  have refused := (told [.reportSource 1 "" "Unexpected character."] rfl).1
  have faultless : sourceFaults "print \"a\";" false = [] := by decide +kernel
  have ending : sourceEnding 100 (fun _ => 0) "print \"a\";" = some (.ok, [.printed "a"]) := by
    decide +kernel
  have stray : sourceFaults "@" false ≠ [] := by decide +kernel
  rw [ending] at runs
  rw [faultless] at refused
  exact ⟨rfl, runs, refused, stray, ((acceptance_after_history 100 (fun _ => 0) "@").2 stray).2⟩

/-- On one reporter, a program without a fault is refused behind a source with a stray character,
though by itself it runs and prints a line. -/
theorem faultless_source_refused :
    ∃ used : Transcript,
      runSource 100 (fun _ => 0) "@" Transcript.empty = some (.sourceError, used) ∧
      runSource 100 (fun _ => 0) "print \"a\";" used = some (.sourceError, used) ∧
      outlineSource "print \"a\";" used = (none, used) ∧
      runSource 100 (fun _ => 0) "print \"a\";" Transcript.empty =
        some (.ok, Reporter.print Transcript.empty "a") ∧
      outlineSource "print \"a\";" Transcript.empty =
        (some "(print \"a\")\n", Transcript.empty) := by
  refine ⟨Reporter.reportSource Transcript.empty 1 "" "Unexpected character.", ?_⟩
  decide +kernel

end Lox
