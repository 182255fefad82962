import Lox.Proofs.Interpreter.Agreement
import Lox.Proofs.Interpreter.Fuel

/-!
Loops as rounds, and when two loops do the same.

A loop is a round that is repeated until it says how the loop ends (`rounds`). Two actions follow
each other if, from machines that are the same but for blank frames, one of them ends only if the
other does, and then both end in the same way (`Follows`); the fuel that each takes does not matter,
so they may take different steps. If the rounds of two loops follow each other, so do the loops
(`Follows.rounds`).
-/

namespace Lox

open Exec Merging

variable {α β γ δ : Type}

/-! ### Rounds -/

/-- Repeat a round until it says how the loop ends. -/
def rounds (round : Nat → Exec (Option Flow)) : (fuel : Nat) → Exec Flow
  | 0 => outOfFuel
  | fuel + 1 => do
    match ← round fuel with
    | some flow => return flow
    | none => rounds round fuel

section Rounds

variable {round : Nat → Exec (Option Flow)} {before middle after : Machine} {fuel : Nat}

theorem rounds_done {flow : Flow} (run : round fuel before = .done (some flow) after) :
    rounds round (fuel + 1) before = .done flow after :=
  bind_done run

theorem rounds_goesOn (run : round fuel before = .done none middle) :
    rounds round (fuel + 1) before = rounds round fuel middle :=
  bind_done run

theorem rounds_failed {error : RuntimeError} (run : round fuel before = .failed error after) :
    rounds round (fuel + 1) before = .failed error after :=
  bind_failed run

theorem Ends.rounds_done {flow : Flow} (ends : Ends round before (.done (some flow) after)) :
    Ends (rounds round) before (.done flow after) := by
  obtain ⟨-, enough, all⟩ := ends
  exact Ends.step.mp ⟨by simp, enough, fun fuel le => Lox.rounds_done (all fuel le)⟩

theorem Ends.rounds_failed {error : RuntimeError} (ends : Ends round before (.failed error after)) :
    Ends (rounds round) before (.failed error after) := by
  obtain ⟨-, enough, all⟩ := ends
  exact Ends.step.mp ⟨by simp, enough, fun fuel le => Lox.rounds_failed (all fuel le)⟩

theorem Ends.rounds_goesOn {outcome : Outcome Flow} (ends : Ends round before (.done none middle))
    (rest : Ends (rounds round) middle outcome) : Ends (rounds round) before outcome := by
  obtain ⟨-, enough, all⟩ := ends
  obtain ⟨ended, more, rest⟩ := rest
  refine Ends.step.mp ⟨ended, max enough more, fun fuel le => ?_⟩
  exact (Lox.rounds_goesOn (all fuel (by omega))).trans (rest fuel (by omega))

/-- If a loop ends, its first round does. -/
theorem rounds_first (ends : rounds round (fuel + 1) before ≠ .outOfFuel) :
    round fuel before ≠ .outOfFuel :=
  fun starved => ends (bind_outOfFuel starved)

/-- If a loop ends that goes on after its first round, the rest of it ends with less fuel. -/
theorem rounds_rest (steady : Steady round) (ends : rounds round (fuel + 1) before ≠ .outOfFuel)
    (first : Ends round before (.done none middle)) : rounds round fuel middle ≠ .outOfFuel := by
  have run := (steady.ends (rounds_first ends)).unique first
  rwa [← Lox.rounds_goesOn run]

end Rounds

/-! ### Actions that follow each other -/

/-- From machines that are the same but for blank frames, both actions end or none, and if they do,
in the same way. -/
def Follows (merging : Merging) (same : Merging → α → β → Prop) (left : Nat → Exec α)
    (right : Nat → Exec β) : Prop :=
  ∀ before beforeOther, merging.Joins before beforeOther →
    Terminates left before ∨ Terminates right beforeOther →
      ∃ outcome other, Ends left before outcome ∧ Ends right beforeOther other ∧
        merging.SameOutcome same outcome other

/-- If one of two actions ends, there is fuel with which one of them ends. -/
theorem exists_fuel {left : Nat → Exec α} {right : Nat → Exec β} {before beforeOther : Machine}
    (ends : Terminates left before ∨ Terminates right beforeOther) :
    ∃ fuel, left fuel before ≠ .outOfFuel ∨ right fuel beforeOther ≠ .outOfFuel := by
  rcases ends with ⟨outcome, ended, enough, all⟩ | ⟨outcome, ended, enough, all⟩
  · exact ⟨enough, .inl (all enough (Nat.le_refl _) ▸ ended)⟩
  · exact ⟨enough, .inr (all enough (Nat.le_refl _) ▸ ended)⟩

namespace Follows

variable {merging : Merging} {same : Merging → α → β → Prop} {sameNext : Merging → γ → δ → Prop}
  {left : Nat → Exec α} {right : Nat → Exec β} {ref other : FrameRef}

theorem of_agrees (steady : Steady left) (steadyOther : Steady right)
    (agrees : ∀ fuel, (left fuel).Agrees merging same (right fuel)) :
    Follows merging same left right := by
  intro before beforeOther joins ends
  obtain ⟨fuel, some⟩ := exists_fuel ends
  have outcomes := agrees fuel before beforeOther joins
  have starved := outcomes.outOfFuel_iff
  have both : left fuel before ≠ .outOfFuel ∧ right fuel beforeOther ≠ .outOfFuel := by
    rcases some with ended | ended
    · exact ⟨ended, mt starved.mpr ended⟩
    · exact ⟨mt starved.mp ended, ended⟩
  exact ⟨_, _, steady.ends both.1, steadyOther.ends both.2, outcomes⟩

theorem pure {value : α} {result : β} (holds : same merging value result) :
    Follows merging same (fun _ => (Pure.pure value : Exec α))
      (fun _ => (Pure.pure result : Exec β)) :=
  of_agrees (.const _) (.const _) fun _ => .pure holds

/-- The same action by other steps. -/
theorem congr {leftOther : Nat → Exec α} (follows : Follows merging same left right)
    (ends : ∀ before outcome, Ends left before outcome ↔ Ends leftOther before outcome) :
    Follows merging same leftOther right := by
  intro before beforeOther joins ended
  have endedLeft : Terminates left before ∨ Terminates right beforeOther :=
    ended.imp_left fun ⟨outcome, ended⟩ => ⟨outcome, (ends before outcome).mpr ended⟩
  obtain ⟨outcome, result, endsLeft, endsRight, outcomes⟩ :=
    follows before beforeOther joins endedLeft
  exact ⟨outcome, result, (ends before outcome).mp endsLeft, endsRight, outcomes⟩

theorem step (follows : Follows merging same (fun fuel => left (fuel + 1)) right) :
    Follows merging same left right :=
  follows.congr fun _ _ => Ends.step

theorem bind {next : Nat → α → Exec γ} {nextOther : Nat → β → Exec δ} (steady : Steady left)
    (steadyOther : Steady right) (first : Follows merging same left right)
    (rest : ∀ later value result, merging.Later later → same later value result →
      Follows later sameNext (next · value) (nextOther · result)) :
    Follows merging sameNext (fun fuel => left fuel >>= next fuel)
      (fun fuel => right fuel >>= nextOther fuel) := by
  intro before beforeOther joins ends
  obtain ⟨outcome, result, endsLeft, endsRight, outcomes⟩ := first before beforeOther joins
    (ends.imp (·.first steady) (·.first steadyOther))
  cases outcomes with
  | done grows joinsAfter holds =>
      obtain ⟨last, lastOther, endsLast, endsLastOther, outcomes⟩ :=
        rest _ _ _ grows holds _ _ joinsAfter (ends.imp (·.rest endsLeft) (·.rest endsRight))
      exact ⟨last, lastOther, endsLeft.bind endsLast, endsRight.bind endsLastOther,
        .of_later grows outcomes⟩
  | failed grows joinsAfter =>
      exact ⟨_, _, endsLeft.bindFailed, endsRight.bindFailed, .failed grows joinsAfter⟩
  | outOfFuel => exact absurd rfl endsLeft.1

/-- A new frame that stays blank is not missed. -/
theorem blank {next : Nat → FrameRef → Exec α} (here : merging.At ref other)
    (rest : ∀ later inner, merging.Later later → later.At inner other →
      Follows later same (next · inner) right) :
    Follows merging same (fun fuel => newChild ref >>= next fuel) right := by
  obtain ⟨rfl, inside⟩ := here
  intro before beforeOther joins ends
  have grows := merging.later_extend (merging.into ref)
  obtain ⟨place, joinsInside⟩ := joins.addBlank inside
  have added : Ends (fun _ => newChild ref) before
      (.done before.store.nextRef { before with store := (before.store.addChild ref).2 }) :=
    .const (by simp) rfl
  obtain ⟨outcome, result, endsLeft, endsRight, outcomes⟩ :=
    rest _ _ grows place _ _ joinsInside (ends.imp_left (·.rest added))
  exact ⟨outcome, result, added.bind endsLeft, endsRight, .of_later grows outcomes⟩

end Follows

/-! ### Loops that follow each other -/

/-- Two rounds go on, or they end the loop in the same way. -/
inductive Merging.SameRound (merging : Merging) : Option Flow → Option Flow → Prop where
  | goesOn : SameRound merging none none
  | ends {flow other} (same : merging.SameFlow flow other) :
      SameRound merging (some flow) (some other)

theorem Follows.rounds {merging : Merging} {round roundOther : Nat → Exec (Option Flow)}
    (steady : Steady round) (steadyOther : Steady roundOther)
    (each : ∀ later, merging.Later later → Follows later Merging.SameRound round roundOther) :
    Follows merging Merging.SameFlow (rounds round) (rounds roundOther) := by
  intro before beforeOther joins ends
  obtain ⟨fuel, enough⟩ := exists_fuel ends
  clear ends
  -- On the fuel with which one of the loops ends: a round takes one unit of it in both.
  induction fuel generalizing merging before beforeOther with
  | zero => exact absurd rfl (enough.elim id id)
  | succ fuel ih =>
      have first : Terminates round before ∨ Terminates roundOther beforeOther :=
        enough.imp (fun ends => ⟨_, steady.ends (rounds_first ends)⟩)
          (fun ends => ⟨_, steadyOther.ends (rounds_first ends)⟩)
      obtain ⟨outcome, result, endsLeft, endsRight, outcomes⟩ :=
        each merging (.refl merging) before beforeOther joins first
      cases outcomes with
      | outOfFuel => exact absurd rfl endsLeft.1
      | failed grows joinsAfter =>
          exact ⟨_, _, endsLeft.rounds_failed, endsRight.rounds_failed, .failed grows joinsAfter⟩
      | done grows joinsAfter holds =>
          cases holds with
          | ends same =>
              exact ⟨_, _, endsLeft.rounds_done, endsRight.rounds_done, .done grows joinsAfter same⟩
          | goesOn =>
              have fewer := enough.imp (rounds_rest steady · endsLeft)
                (rounds_rest steadyOther · endsRight)
              obtain ⟨last, lastOther, endsLast, endsLastOther, outcomes⟩ :=
                ih (fun last more => each last (grows.trans more)) _ _ joinsAfter fewer
              exact ⟨last, lastOther, endsLeft.rounds_goesOn endsLast,
                endsRight.rounds_goesOn endsLastOther, .of_later grows outcomes⟩

end Lox
