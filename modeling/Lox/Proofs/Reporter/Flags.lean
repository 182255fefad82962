import Lox.Proofs.Session.Accounts
import Mathlib.Data.List.DropRight

/-!
The flags of reporters, and what a transcript keeps.

Whatever is asked of a lawful reporter, each of its flags says whether a diagnostic of its sort was
reported since the last reset (`Flag.after_performAll`). So two reporters with clear flags agree on
them for as long as the same is asked of both, whatever they keep (`reporters_agree`).

A transcript can also be cleared. It is then what a new one would be that was asked only what came
after the last time (`Transcript.after_eq`); a reset, by contrast, moves the window and forgets
nothing.
-/

namespace Lox

/-! ### Requests -/

/-- What can be asked of every reporter. -/
inductive Request where
  | print (text : String)
  | report (diagnostic : Diagnostic)
  | reportSource (line : Nat) (location message : String)
  | reportRuntime (line : Nat) (message : String)
  | reset
  deriving DecidableEq, Repr

namespace Request

/-- The diagnostic that a request reports. -/
def diagnostic? : Request → Option Diagnostic
  | .report diagnostic => some diagnostic
  | .reportSource line location message => some (.source line location message)
  | .reportRuntime line message => some (.runtime line message)
  | .print _ | .reset => none

/-- The diagnostics that requests report, oldest first. -/
def diagnostics (requests : List Request) : List Diagnostic :=
  requests.filterMap diagnostic?

/-- The requests after the last reset. -/
def sinceReset (requests : List Request) : List Request :=
  requests.rtakeWhile (· != .reset)

theorem sinceReset_concat (requests : List Request) (request : Request) :
    sinceReset (requests ++ [request]) = if request = .reset then
      [] else sinceReset requests ++ [request] := by
  rw [sinceReset, List.rtakeWhile_concat]
  by_cases clears : request = .reset
  · simp [clears]
  · simp [clears, sinceReset]

theorem diagnostics_concat (requests : List Request) (request : Request) :
    diagnostics (requests ++ [request]) = diagnostics requests ++ request.diagnostic?.toList := by
  rw [diagnostics, List.filterMap_append, List.filterMap_cons, List.filterMap_nil]
  cases request.diagnostic? <;> rfl

end Request

namespace Reporter

variable {ρ : Type} [Reporter ρ]

/-- The reporter after it has done what it is asked. -/
def perform (reporter : ρ) : Request → ρ
  | .print text => print reporter text
  | .report diagnostic => report reporter diagnostic
  | .reportSource line location message => reportSource reporter line location message
  | .reportRuntime line message => reportRuntime reporter line message
  | .reset => reset reporter

/-- The reporter after it has done all it is asked, in order. -/
def performAll (reporter : ρ) (requests : List Request) : ρ :=
  requests.foldl perform reporter

theorem performAll_concat (reporter : ρ) (requests : List Request) (request : Request) :
    performAll reporter (requests ++ [request]) = perform (performAll reporter requests) request :=
  List.foldl_concat ..

/-! ### Flags -/

/-- A flag says whether a diagnostic of some sort was reported since the last reset. -/
structure Flag (flag : ρ → Bool) (sort : Diagnostic → Bool) : Prop where
  print (reporter : ρ) (text : String) : flag (print reporter text) = flag reporter
  report (reporter : ρ) (diagnostic : Diagnostic) :
    flag (report reporter diagnostic) = (flag reporter || sort diagnostic)
  reset (reporter : ρ) : flag (reset reporter) = false

theorem flag_source [LawfulReporter ρ] : Flag (ρ := ρ) hadSourceError Diagnostic.isSource :=
  ⟨LawfulReporter.source_print, LawfulReporter.source_report, LawfulReporter.source_reset⟩

theorem flag_runtime [LawfulReporter ρ] : Flag (ρ := ρ) hadRuntimeError Diagnostic.isRuntime :=
  ⟨LawfulReporter.runtime_print, LawfulReporter.runtime_report, LawfulReporter.runtime_reset⟩

/-- What one request does to a flag. -/
theorem Flag.after_perform {flag : ρ → Bool} {sort : Diagnostic → Bool} (isFlag : Flag flag sort)
    (reporter : ρ) (request : Request) : flag (perform reporter request) =
      (decide (request ≠ .reset) && (flag reporter || request.diagnostic?.any sort)) := by
  cases request with
  | print text => simp [perform, isFlag.print, Request.diagnostic?]
  | report diagnostic => simp [perform, isFlag.report, Request.diagnostic?]
  | reportSource line location message =>
      simp [perform, reportSource, isFlag.report, Request.diagnostic?]
  | reportRuntime line message => simp [perform, reportRuntime, isFlag.report, Request.diagnostic?]
  | reset => simp [perform, isFlag.reset]

/-- A flag that was clear says whether a diagnostic was reported since the last reset. The requests
are taken from their end, since a request decides what becomes of the flag that those before it have
left. -/
theorem Flag.after_performAll {flag : ρ → Bool} {sort : Diagnostic → Bool} (isFlag : Flag flag sort)
    {reporter : ρ} (clear : flag reporter = false) (requests : List Request) :
    flag (performAll reporter requests) =
      (Request.diagnostics (Request.sinceReset requests)).any sort := by
  induction requests using List.reverseRecOn with
  | nil => exact clear
  | append_singleton requests request ih =>
      rw [performAll_concat, isFlag.after_perform, ih, Request.sinceReset_concat]
      by_cases resets : request = .reset
      · rw [if_pos resets, resets]
        rfl
      · rw [if_neg resets, Request.diagnostics_concat, List.any_append, decide_eq_true resets,
          Bool.true_and]
        cases request.diagnostic? <;> simp

end Reporter

/-! ### Transcripts -/

namespace Transcript

/-- What can be asked of a transcript. -/
inductive Operation where
  | request (asked : Request)
  | clear
  deriving DecidableEq, Repr

/-- The request that an operation is. -/
def Operation.request? : Operation → Option Request
  | .request asked => some asked
  | .clear => none

/-- The transcript after an operation. -/
def operate (transcript : Transcript) : Operation → Transcript
  | .request asked => Reporter.perform transcript asked
  | .clear => transcript.clear

/-- What a new transcript has become after operations, in order. -/
def after (operations : List Operation) : Transcript :=
  operations.foldl operate empty

/-- The requests after the last time that all was forgotten. -/
def sinceClear (operations : List Operation) : List Request :=
  (operations.rtakeWhile (· != .clear)).filterMap Operation.request?

theorem after_concat (operations : List Operation) (operation : Operation) :
    after (operations ++ [operation]) = (after operations).operate operation :=
  List.foldl_concat ..

theorem sinceClear_request (operations : List Operation) (asked : Request) :
    sinceClear (operations ++ [.request asked]) = sinceClear operations ++ [asked] := by
  simp [sinceClear, Operation.request?]

theorem sinceClear_clear (operations : List Operation) :
    sinceClear (operations ++ [.clear]) = [] := by
  simp [sinceClear]

/-- A transcript that is cleared behaves like a new one. -/
theorem after_eq (operations : List Operation) :
    after operations = Reporter.performAll empty (sinceClear operations) := by
  induction operations using List.reverseRecOn with
  | nil => rfl
  | append_singleton operations operation ih =>
      rw [after_concat]
      cases operation with
      | request asked => rw [sinceClear_request, Reporter.performAll_concat, ← ih, operate]
      | clear =>
          rw [sinceClear_clear]
          rfl

theorem diagnostics_perform (transcript : Transcript) (request : Request) :
    (Reporter.perform transcript request).diagnostics.toList =
      transcript.diagnostics.toList ++ request.diagnostic?.toList := by
  cases request <;>
    simp [Reporter.perform, Reporter.print, Reporter.report, Reporter.reportSource,
      Reporter.reportRuntime,
      Reporter.reset, Request.diagnostic?]

/-- A transcript keeps all that was reported, whatever was reset. -/
theorem diagnostics_performAll (requests : List Request) :
    (Reporter.performAll empty requests).diagnostics.toList = Request.diagnostics requests := by
  induction requests using List.reverseRecOn with
  | nil => rfl
  | append_singleton requests request ih =>
      rw [Reporter.performAll_concat, diagnostics_perform, ih, Request.diagnostics_concat]

theorem window_perform (transcript : Transcript) (request : Request) :
    (Reporter.perform transcript request).window =
      if request = .reset then [] else transcript.window ++ request.diagnostic?.toList := by
  cases request with
  | print text => simp [Reporter.perform, Reporter.print, window, Request.diagnostic?]
  | report diagnostic => simp [Reporter.perform, window_report, Request.diagnostic?]
  | reportSource line location message =>
      simp [Reporter.perform, Reporter.reportSource, window_report, Request.diagnostic?]
  | reportRuntime line message =>
      simp [Reporter.perform, Reporter.reportRuntime, window_report, Request.diagnostic?]
  | reset => simp [Reporter.perform, window_reset]

/-- The window of a transcript is what was reported since the last reset. -/
theorem window_performAll (requests : List Request) :
    (Reporter.performAll empty requests).window =
      Request.diagnostics (Request.sinceReset requests) := by
  induction requests using List.reverseRecOn with
  | nil => rfl
  | append_singleton requests request ih =>
      rw [Reporter.performAll_concat, window_perform, ih, Request.sinceReset_concat]
      by_cases resets : request = .reset
      · rw [if_pos resets, if_pos resets]
        rfl
      · rw [if_neg resets, if_neg resets, Request.diagnostics_concat]

end Transcript

/-! ### Agreement -/

/-- **Reporters agree on their flags.** After every part of a row of requests a new transcript,
which searches what it keeps, and a new console, which stores two flags, agree on whether a mistake
of either sort was reported since the last reset. With requests to forget all among them, a
transcript is what a new one would be after the requests since the last of those. It then keeps all
that these have reported, in order, whatever was reset. Its window begins where as many are left as
were reported since the last reset, never beyond the end, and holds those. -/
theorem reporters_agree :
    (∀ (requests : List Request) (count : Nat),
      let transcript := Reporter.performAll Transcript.empty (requests.take count)
      let console := Reporter.performAll Console.empty (requests.take count)
      let reported := Request.diagnostics (Request.sinceReset (requests.take count))
      (Reporter.hadSourceError transcript = reported.any Diagnostic.isSource ∧
        Reporter.hadSourceError console = reported.any Diagnostic.isSource) ∧
      Reporter.hadRuntimeError transcript = reported.any Diagnostic.isRuntime ∧
        Reporter.hadRuntimeError console = reported.any Diagnostic.isRuntime) ∧
    (∀ before rest : List Transcript.Operation,
      Transcript.after (before ++ .clear :: rest) = Transcript.after rest) ∧
    ∀ operations : List Transcript.Operation,
      let transcript := Transcript.after operations
      let requests := Transcript.sinceClear operations
      transcript = Reporter.performAll Transcript.empty requests ∧
      (transcript.windowStart + (Request.diagnostics (Request.sinceReset requests)).length =
          transcript.diagnostics.size ∧
        transcript.diagnostics.toList.drop transcript.windowStart =
          Request.diagnostics (Request.sinceReset requests)) ∧
      transcript.messages = (Request.diagnostics requests).map Diagnostic.render := by
  refine ⟨fun requests count => ?_, fun before rest => ?_, fun operations => ?_⟩
  · exact ⟨⟨Reporter.flag_source.after_performAll rfl _,
      Reporter.flag_source.after_performAll rfl _⟩,
      Reporter.flag_runtime.after_performAll rfl _, Reporter.flag_runtime.after_performAll rfl _⟩
  · rw [Transcript.after, List.foldl_append]
    rfl
  · have new := Transcript.after_eq operations
    have window : (Transcript.after operations).diagnostics.toList.drop
        (Transcript.after operations).windowStart =
        Request.diagnostics (Request.sinceReset (Transcript.sinceClear operations)) := by
      rw [new]
      exact Transcript.window_performAll _
    refine ⟨new, ⟨?_, window⟩, ?_⟩
    · rw [← window, List.length_drop, Array.length_toList,
        Nat.add_sub_cancel' (Transcript.after operations).windowStart_le]
    · rw [Transcript.messages, new, Transcript.diagnostics_performAll]

end Lox
