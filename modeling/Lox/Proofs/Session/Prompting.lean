import Lox.Prompt
import Lox.Proofs.Interpreter.Limits

/-!
The prompt takes its input line by line.

The input is split behind each newline, in the one way there is (`exists_lines`, `Lines.unique`).
What a line does to a session is said of its trimmed text alone: one does nothing, two print the
listing of a frame, and all others are run (`Does`). The prompt goes through the lines in order
(`Takes`) until one is not UTF-8, one asks it to end, or there is none left (`Stops`), and it writes
itself before each line that it looks at and before it finds that there is none. How the run of a
line ends makes no difference for the lines after it, and only a run that does not end keeps the
prompt from going on (`prompt_takes_lines`).
-/

namespace Lox

/-- More fuel changes nothing in what running a line comes to. -/
theorem Session.runLine_more {ρ : Type} [Reporter ρ] {session after : Session ρ} {less more : Nat}
    {line : String} {status : Status} (le : less ≤ more)
    (ran : session.runLine less line = some (status, after)) :
    session.runLine more line = some (status, after) := by
  unfold runLine at ran ⊢
  cases found : frontEnd line true (Reporter.reset session.reporter) with
  | mk program reporter =>
      rw [found] at ran
      cases program with
      | none => exact ran
      | some program =>
          have steady := Interpreter.steady_executeIn session.interpreter.host program session.scope
          have same := steady.of_le le session.interpreter.machine fun starved => by
            simp [Interpreter.performReporting, Interpreter.perform, starved] at ran
          simp only [Interpreter.performReporting, Interpreter.perform, same]
          exact ran

namespace Prompt

/-! ### Lines -/

/-- Some input as lines: a newline ends a line and belongs to it, and what follows the last newline
is a line if there is anything. -/
inductive Lines : List UInt8 → List (List UInt8) → Prop
  | nil : Lines [] []
  | last {line : List UInt8} (holds : line ≠ []) (free : 10 ∉ line) : Lines line [line]
  | cons {line rest : List UInt8} {others : List (List UInt8)} (free : 10 ∉ line)
      (ofRest : Lines rest others) : Lines (line ++ 10 :: rest) ((line ++ [10]) :: others)

theorem splitLine_newline {line : List UInt8} (free : 10 ∉ line) (rest : List UInt8) :
    splitLine (line ++ 10 :: rest) = (line ++ [10], rest) := by
  induction line with
  | nil => rfl
  | cons byte others ih =>
      simp only [List.mem_cons, not_or] at free
      obtain ⟨first, free⟩ := free
      rw [List.cons_append, splitLine, if_neg (Ne.symm first), ih free]
      rfl

theorem splitLine_last {line : List UInt8} (free : 10 ∉ line) : splitLine line = (line, []) := by
  induction line with
  | nil => rfl
  | cons byte others ih =>
      simp only [List.mem_cons, not_or] at free
      obtain ⟨first, free⟩ := free
      rw [splitLine, if_neg (Ne.symm first), ih free]

theorem exists_lines (input : List UInt8) : ∃ lines, Lines input lines := by
  induction length : input.length using Nat.strongRecOn generalizing input with
  | _ n ih =>
      by_cases newline : 10 ∈ input
      · obtain ⟨line, rest, rfl, free⟩ := List.eq_append_cons_of_mem newline
        have shorter : rest.length < n := by
          rw [← length, List.length_append, List.length_cons]
          omega
        obtain ⟨others, ofRest⟩ := ih rest.length shorter rest rfl
        exact ⟨_, .cons free ofRest⟩
      · by_cases empty : input = []
        · exact ⟨[], empty ▸ .nil⟩
        · exact ⟨[input], .last empty newline⟩

/-- Input is split into lines in one way. -/
theorem Lines.unique {input : List UInt8} {lines others : List (List UInt8)}
    (here : Lines input lines) (there : Lines input others) : lines = others := by
  induction here generalizing others with
  | nil =>
      generalize same : ([] : List UInt8) = input at there
      cases there with
      | nil => rfl
      | last holds => exact absurd same.symm holds
      | cons => simp at same
  | @last line holds free =>
      generalize same : line = input at there
      cases there with
      | nil => exact absurd same holds
      | last => rfl
      | cons => exact absurd (same ▸ List.mem_append_right _ List.mem_cons_self) free
  | @cons line rest lines free ofRest ih =>
      generalize same : line ++ 10 :: rest = input at there
      cases there with
      | nil => simp at same
      | last holds free => exact absurd (same ▸ List.mem_append_right _ List.mem_cons_self) free
      | cons otherFree otherRest =>
          have split := splitLine_newline free rest
          rw [same, splitLine_newline otherFree, Prod.mk.injEq] at split
          obtain ⟨first, rfl⟩ := split
          rw [first, ih otherRest]

/-! ### What a line does -/

variable {ρ : Type} [Reporter ρ]

/-- A line that is the text in UTF-8. -/
def Encodes (line : List UInt8) (text : String) : Prop :=
  text.toUTF8.data.toList = line

/-- What the trimmed text of a line does to a session, if it does not end the prompt. -/
inductive Does (session : Session ρ) : (text : String) → Session ρ → Prop
  | nothing : Does session "" session
  | showScope :
      Does session ":env" { session with reporter := Reporter.print session.reporter session.dump }
  | showGlobals :
      Does session ":globals"
        { session with reporter := Reporter.print session.reporter session.dumpGlobals }
  | run {text : String} {fuel : Nat} {status : Status} {after : Session ρ}
      (plain : text ∉ ["", ":quit", ":env", ":globals"])
      (ran : session.runLine fuel text = some (status, after)) : Does session text after

theorem fromUTF8?_eq_some {line : List UInt8} {text : String} :
    String.fromUTF8? ⟨line.toArray⟩ = some text ↔ Encodes line text := by
  unfold String.fromUTF8? Encodes
  constructor
  · intro decoded
    split at decoded <;> cases decoded
    rfl
  · rintro rfl
    have whole : (⟨text.toUTF8.data.toList.toArray⟩ : ByteArray) = text.toByteArray := rfl
    rw [whole, dif_pos text.isValidUTF8]
    rfl

theorem step_of_encodes {line : List UInt8} (holds : line ≠ []) {text : String}
    (encodes : Encodes line text) (fuel : Nat) (session : Session ρ) :
    step fuel session line = obey fuel session (.ofLine text) := by
  have there : line.isEmpty = false := by simpa using holds
  rw [step, there, fromUTF8?_eq_some.mpr encodes]
  rfl

theorem step_of_invalid {line : List UInt8} (holds : line ≠ [])
    (invalid : ∀ text, ¬ Encodes line text) (fuel : Nat) (session : Session ρ) :
    step fuel session line = some (.failed .invalidLine session) := by
  have there : line.isEmpty = false := by simpa using holds
  have undecoded : String.fromUTF8? ⟨line.toArray⟩ = none :=
    Option.eq_none_iff_forall_not_mem.mpr fun text decoded =>
      invalid text (fromUTF8?_eq_some.mp decoded)
  rw [step, there, undecoded]
  rfl

/-- A line that asks for a run is none of the words that the prompt knows. -/
theorem ofLine_run {line text : String} (asks : Command.ofLine line = .run text) :
    Text.trimBlank line = text ∧ text ∉ ["", ":quit", ":env", ":globals"] := by
  unfold Command.ofLine at asks
  split at asks <;> cases asks
  simp_all

theorem ofLine_plain {line : String}
    (plain : Text.trimBlank line ∉ ["", ":quit", ":env", ":globals"]) :
    Command.ofLine line = .run (Text.trimBlank line) := by
  unfold Command.ofLine
  split <;> simp_all

theorem ofLine_quit {line : String} (asks : Command.ofLine line = .quit) :
    Text.trimBlank line = ":quit" := by
  unfold Command.ofLine at asks
  split at asks <;> first | assumption | cases asks

theorem Does.exists_step {session after : Session ρ} {line : List UInt8} {text : String}
    (holds : line ≠ []) (encodes : Encodes line text)
    (does : Does session (Text.trimBlank text) after) :
    ∃ enough, ∀ fuel ≥ enough, step fuel session line = some (.next after) := by
  simp only [step_of_encodes holds encodes]
  generalize trimmed : Text.trimBlank text = asked at does
  cases does with
  | nothing => exact ⟨0, fun fuel _ => by simp only [Command.ofLine, trimmed]; rfl⟩
  | showScope => exact ⟨0, fun fuel _ => by simp only [Command.ofLine, trimmed]; rfl⟩
  | showGlobals => exact ⟨0, fun fuel _ => by simp only [Command.ofLine, trimmed]; rfl⟩
  | @run _ enough _ _ plain ran =>
      refine ⟨enough, fun fuel le => ?_⟩
      rw [ofLine_plain (trimmed ▸ plain), trimmed, obey, Session.runLine_more le ran]
      rfl

theorem exists_does {session after : Session ρ} {line : List UInt8} {fuel : Nat} (holds : line ≠ [])
    (stepped : step fuel session line = some (.next after)) :
    ∃ text, Encodes line text ∧ Does session (Text.trimBlank text) after := by
  by_cases decodes : ∃ text, Encodes line text
  · obtain ⟨text, encodes⟩ := decodes
    refine ⟨text, encodes, ?_⟩
    rw [step_of_encodes holds encodes] at stepped
    cases asks : Command.ofLine text with
    | quit => simp [asks, obey] at stepped
    | run source =>
        obtain ⟨rfl, plain⟩ := ofLine_run asks
        simp only [asks, obey, Option.map_eq_some_iff, Step.next.injEq] at stepped
        obtain ⟨⟨status, ended⟩, ran, rfl⟩ := stepped
        exact .run plain ran
    | nothing | showScope | showGlobals =>
        simp only [asks, obey, Option.some.injEq, Step.next.injEq] at stepped
        subst stepped
        unfold Command.ofLine at asks
        split at asks <;> first | cases asks; done | (rename_i trimmed; rw [trimmed]; constructor)
  · rw [step_of_invalid holds (not_exists.mp decodes)] at stepped
    simp at stepped

/-! ### Runs of the prompt -/

/-- A session after the prompt has been written. -/
def announced (announce : ρ → ρ) (session : Session ρ) : Session ρ :=
  { session with reporter := announce session.reporter }

/-- The prompt takes lines in order: it is written before each, and the line does to the session
what it does. That is all there is to it; a status that the run of a line comes to is not looked
at. -/
inductive Takes (announce : ρ → ρ) : Session ρ → List (List UInt8) → Session ρ → Prop
  | nil {session : Session ρ} : Takes announce session [] session
  | cons {session next last : Session ρ} {line : List UInt8} {text : String}
      {others : List (List UInt8)}
      (encodes : Encodes line text)
      (does : Does (announced announce session) (Text.trimBlank text) next)
      (ofOthers : Takes announce next others last) : Takes announce session (line :: others) last

/-- What comes after the lines that the prompt takes, and the failure it ends with. -/
inductive Stops : List (List UInt8) → Option Failure → Prop
  | ended : Stops [] none
  | quit {line : List UInt8} {text : String} {others : List (List UInt8)}
      (encodes : Encodes line text)
      (asks : Text.trimBlank text = ":quit") : Stops (line :: others) none
  | invalid {line : List UInt8} {others : List (List UInt8)}
      (noText : ∀ text, ¬ Encodes line text) :
      Stops (line :: others) (some .invalidLine)

theorem Lines.split {input line : List UInt8} {others : List (List UInt8)}
    (lines : Lines input (line :: others)) :
    line ≠ [] ∧ ∃ rest, splitLine input = (line, rest) ∧ Lines rest others := by
  cases lines with
  | last holds free => exact ⟨holds, [], splitLine_last free, .nil⟩
  | cons free ofRest => exact ⟨by simp, _, splitLine_newline free _, ofRest⟩

theorem Lines.eq_nil {input : List UInt8} (lines : Lines input []) : input = [] := by
  cases lines
  rfl

theorem Lines.length_le {input : List UInt8} {lines : List (List UInt8)}
    (split : Lines input lines) :
    lines.length ≤ input.length := by
  induction split with
  | nil => exact Nat.le_refl _
  | last holds => exact List.length_pos_iff.mpr holds
  | cons free ofRest ih =>
      rw [List.length_cons, List.length_append, List.length_cons]
      omega

variable {announce : ρ → ρ}

theorem Takes.exists_runLines {session last : Session ρ} {taken : List (List UInt8)}
    (takes : Takes announce session taken last) :
    ∃ enough,
      ∀ fuel ≥ enough, ∀ (input : List UInt8) (rest : List (List UInt8)) (count prompts : Nat),
      Lines input (taken ++ rest) → ∃ left, Lines left rest ∧
        runLines fuel announce (taken.length + count) prompts session input =
          runLines fuel announce count (prompts + taken.length) last left := by
  induction takes with
  | nil => exact ⟨0, fun fuel _ input rest count prompts lines => ⟨input, lines, by simp⟩⟩
  | @cons session next last line text others encodes does ofOthers ih =>
      obtain ⟨enough, run⟩ := ih
      by_cases holds : line = []
      · exact ⟨0, fun _ _ _ _ _ _ lines => absurd holds lines.split.1⟩
      obtain ⟨toStep, stepped⟩ := does.exists_step holds encodes
      refine ⟨max toStep enough, fun fuel le input rest count prompts lines => ?_⟩
      obtain ⟨-, after, split, ofRest⟩ := lines.split
      obtain ⟨left, ofLeft, same⟩ := run fuel (by omega) after rest count (prompts + 1) ofRest
      refine ⟨left, ofLeft, ?_⟩
      have here := stepped fuel (by omega)
      rw [List.length_cons, Nat.add_right_comm, runLines, split]
      simp only [announced] at here
      simp only [here, Option.bind_eq_bind, Option.bind_some, same]
      congr 1
      omega

theorem Stops.runLines {rest : List (List UInt8)} {failure : Option Failure}
    (stops : Stops rest failure) {input : List UInt8} (lines : Lines input rest)
    (fuel count prompts : Nat) (session : Session ρ) :
    runLines fuel announce (count + 1) prompts session input =
      some ⟨failure, announced announce session, prompts + 1⟩ := by
  cases stops with
  | ended =>
      rw [lines.eq_nil]
      rfl
  | quit encodes asks =>
      obtain ⟨holds, rest, split, -⟩ := lines.split
      rw [Prompt.runLines, split]
      simp only [step_of_encodes holds encodes, Command.ofLine, asks]
      rfl
  | invalid noText =>
      obtain ⟨holds, rest, split, -⟩ := lines.split
      rw [Prompt.runLines, split]
      simp only [step_of_invalid holds noText]
      rfl

/-- A line that nothing stops at is the text of something other than the end. -/
theorem exists_text {line : List UInt8} {others : List (List UInt8)}
    (goesOn : ∀ failure, ¬ Stops (line :: others) failure) :
    ∃ text, Encodes line text ∧ Text.trimBlank text ≠ ":quit" := by
  by_cases decodes : ∃ text, Encodes line text
  · obtain ⟨text, encodes⟩ := decodes
    exact ⟨text, encodes, fun asks => goesOn _ (.quit encodes asks)⟩
  · exact absurd (.invalid (not_exists.mp decodes)) (goesOn _)

theorem exists_next {session : Session ρ} {line : List UInt8} {text : String} {fuel : Nat}
    {result : Step ρ} (holds : line ≠ []) (encodes : Encodes line text)
    (asks : Text.trimBlank text ≠ ":quit") (stepped : step fuel session line = some result) :
    ∃ next, result = .next next := by
  rw [step_of_encodes holds encodes] at stepped
  cases command : Command.ofLine text with
  | quit => exact absurd (ofLine_quit command) asks
  | run source =>
      simp only [command, obey, Option.map_eq_some_iff] at stepped
      obtain ⟨ended, -, rfl⟩ := stepped
      exact ⟨_, rfl⟩
  | nothing | showScope | showGlobals =>
      simp only [command, obey, Option.some.injEq] at stepped
      exact ⟨_, stepped.symm⟩

theorem does_or_stuck (session : Session ρ) {text : String} (asks : text ≠ ":quit") :
    (∃ next, Does session text next) ∨ ∀ fuel, session.runLine fuel text = none := by
  by_cases known : text ∈ ["", ":quit", ":env", ":globals"]
  · left
    simp only [List.mem_cons, List.not_mem_nil, asks, false_or, or_false] at known
    obtain rfl | rfl | rfl := known
    · exact ⟨_, .nothing⟩
    · exact ⟨_, .showScope⟩
    · exact ⟨_, .showGlobals⟩
  · by_cases ends : ∃ fuel result, session.runLine fuel text = some result
    · obtain ⟨fuel, result, ran⟩ := ends
      exact .inl ⟨result.2, .run known ran⟩
    · right
      intro fuel
      exact Option.eq_none_iff_forall_not_mem.mpr fun result ran => ends ⟨fuel, result, ran⟩

theorem exists_takes {fuel count prompts : Nat} {session : Session ρ} {input : List UInt8}
    {lines : List (List UInt8)} {finished : Finished ρ} (split : Lines input lines)
    (enough : lines.length < count)
    (ran : runLines fuel announce count prompts session input = some finished) :
    ∃ taken rest last, lines = taken ++ rest ∧ Takes announce session taken last ∧
      Stops rest finished.failure ∧ finished.session = announced announce last ∧
      finished.prompts = prompts + taken.length + 1 := by
  induction lines generalizing count prompts session input with
  | nil =>
      obtain ⟨count, rfl⟩ := Nat.exists_eq_succ_of_ne_zero (Nat.ne_of_gt enough)
      rw [Stops.ended.runLines split] at ran
      cases ran
      exact ⟨[], [], session, rfl, .nil, .ended, rfl, rfl⟩
  | cons line others ih =>
      obtain ⟨count, rfl⟩ := Nat.exists_eq_succ_of_ne_zero (Nat.ne_of_gt (Nat.zero_lt_of_lt enough))
      obtain ⟨holds, left, splits, ofLeft⟩ := split.split
      rw [List.length_cons] at enough
      by_cases stops : ∃ failure, Stops (line :: others) failure
      · obtain ⟨failure, stops⟩ := stops
        rw [stops.runLines split] at ran
        cases ran
        exact ⟨[], _, session, rfl, .nil, stops, rfl, rfl⟩
      · rw [runLines, splits] at ran
        obtain ⟨result, stepped, ran⟩ := Option.bind_eq_some_iff.mp ran
        obtain ⟨text, encodes, asks⟩ := exists_text (not_exists.mp stops)
        obtain ⟨next, rfl⟩ := exists_next holds encodes asks stepped
        obtain ⟨otherText, otherEncodes, does⟩ := exists_does holds stepped
        obtain ⟨taken, rest, last, rfl, takes, ends, same, many⟩ := ih ofLeft (by omega) ran
        refine ⟨line :: taken, rest, last, rfl, .cons otherEncodes does takes, ends, same, ?_⟩
        rw [many, List.length_cons]
        omega

/-- Either the lines before some stop can all be taken, or the run of one of them does not end. -/
theorem takes_or_stuck (announce : ρ → ρ) (session : Session ρ) (lines : List (List UInt8)) :
    (∃ taken rest last failure, lines = taken ++ rest ∧ Takes announce session taken last ∧
      Stops rest failure) ∨
      ∃ taken line rest last text,
        lines = taken ++ line :: rest ∧ Takes announce session taken last ∧
        Encodes line text ∧ ∀ fuel,
          (announced announce last).runLine fuel (Text.trimBlank text) = none := by
  induction lines generalizing session with
  | nil => exact .inl ⟨[], [], session, none, rfl, .nil, .ended⟩
  | cons line others ih =>
      by_cases stops : ∃ failure, Stops (line :: others) failure
      · obtain ⟨failure, stops⟩ := stops
        exact .inl ⟨[], _, session, failure, rfl, .nil, stops⟩
      obtain ⟨text, encodes, asks⟩ := exists_text (not_exists.mp stops)
      obtain ⟨next, does⟩ | stuck := does_or_stuck (announced announce session) asks
      · obtain ⟨taken, rest, last, failure, rfl, takes, ends⟩
            | ⟨taken, far, rest, last, text, rfl, takes, stuck⟩ :=
          ih next
        · exact .inl ⟨line :: taken, rest, last, failure, rfl, .cons encodes does takes, ends⟩
        · exact .inr ⟨line :: taken, far, rest, last, text, rfl, .cons encodes does takes, stuck⟩
      · exact .inr ⟨[], line, others, session, text, rfl, .nil, encodes, stuck⟩

/-- The prompt takes its input line by line. It comes to an end with some failure, session and
number of prompts exactly where the lines before a stop can be taken, one after the other, and lead
to them; the only other thing that can happen is a line whose run does not end. -/
theorem prompt_takes_lines (announce : ρ → ρ) (session : Session ρ) (input : List UInt8) :
    ∃ lines, Lines input lines ∧ (∀ others, Lines input others → others = lines) ∧
      (∀ finished, (∃ fuel, run fuel announce session input = some finished) ↔
        ∃ taken rest last, lines = taken ++ rest ∧ Takes announce session taken last ∧
          Stops rest finished.failure ∧ finished.session = announced announce last ∧
          finished.prompts = taken.length + 1) ∧
      ((∃ fuel finished, run fuel announce session input = some finished) ∨
        ∃ taken line rest last text,
          lines = taken ++ line :: rest ∧ Takes announce session taken last ∧
          Encodes line text ∧ ∀ fuel,
            (announced announce last).runLine fuel (Text.trimBlank text) = none) := by
  obtain ⟨lines, split⟩ := exists_lines input
  have ends : ∀ finished, (∃ fuel, run fuel announce session input = some finished) ↔
      ∃ taken rest last, lines = taken ++ rest ∧ Takes announce session taken last ∧
        Stops rest finished.failure ∧ finished.session = announced announce last ∧
        finished.prompts = taken.length + 1 := by
    intro finished
    constructor
    · rintro ⟨fuel, ran⟩
      simpa using exists_takes split (Nat.lt_succ_of_le split.length_le) ran
    · rintro ⟨taken, rest, last, rfl, takes, stops, same, many⟩
      obtain ⟨enough, run⟩ := takes.exists_runLines
      obtain ⟨count, bound⟩ : ∃ count, input.length + 1 = taken.length + (count + 1) := by
        have := split.length_le
        rw [List.length_append] at this
        exact ⟨input.length - taken.length, by omega⟩
      obtain ⟨left, ofLeft, ran⟩ := run enough (Nat.le_refl _) input rest (count + 1) 0 split
      refine ⟨enough, ?_⟩
      rw [Prompt.run, bound, ran, stops.runLines ofLeft, Nat.zero_add, ← same, ← many]
  refine ⟨lines, split, fun others there => there.unique split, ends, ?_⟩
  obtain ⟨taken, rest, last, failure, rfl, takes, stops⟩ | stuck :=
    takes_or_stuck announce session lines
  · obtain ⟨fuel, ran⟩ := (ends ⟨failure, announced announce last, taken.length + 1⟩).mpr
      ⟨taken, rest, last, rfl, takes, stops, rfl, rfl⟩
    exact .inl ⟨fuel, _, ran⟩
  · exact .inr stuck

end Prompt

end Lox
