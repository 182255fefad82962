import Lox.Interpreter.Run
import Lox.Proofs.Interpreter.Rounds

/-!
Runs that cannot be told apart.

Two actions are equivalent from a machine if each of them ends only if the other does, and both then
end in the same way: with the same flow or error, the same lines printed, and the same bindings in
every frame that was there before (`Equivalent`). The frames that they add may be in other places,
and a closure that was made in one of these has its frame there. Actions that follow each other are
equivalent from every machine that is well-formed (`Follows.equivalent`), and the machine of a new
interpreter is (`wellFormed_build`).
-/

namespace Lox

open Merging

/-! ### Equivalence -/

/-- The machines after two runs from one store: they are the same but for blank frames and the
places of new frames, and each frame that was there before is where it was and has the same bindings
in both. -/
structure SameEnd (before : Store) (merging : Merging) (left right : Machine) : Prop where
  joins : merging.Joins left right
  fixed : ∀ ref : FrameRef, ref.index < before.frames.size → merging.into ref = ref
  bindings : ∀ ref : FrameRef, ref.index < before.frames.size →
    right.store.frame? ref = (left.store.frame? ref).map (·.rename merging.into)

/-- Two runs from one store end in the same way. -/
inductive SameEffect (before : Store) : Outcome Flow → Outcome Flow → Prop where
  | done {merging flow after afterOther} (same : SameEnd before merging after afterOther) :
      SameEffect before (.done flow after) (.done (flow.rename merging.into) afterOther)
  | failed {merging error after afterOther} (same : SameEnd before merging after afterOther) :
      SameEffect before (.failed error after) (.failed error afterOther)

/-- From a machine, two actions both end in the same way or both never end. -/
def Equivalent (machine : Machine) (left right : Nat → Exec Flow) : Prop :=
  (∀ outcome, Ends left machine outcome →
    ∃ other, Ends right machine other ∧ SameEffect machine.store outcome other) ∧
  (∀ other, Ends right machine other →
    ∃ outcome, Ends left machine outcome ∧ SameEffect machine.store outcome other)

/-- A frame that was there before is not blank to the second run, even if nothing is bound in it:
its parent was there before too, and both are where they were. -/
theorem sameEnd_of_later {before : Store} {merging : Merging} {left right : Machine}
    (grows : (identity before).Later merging) (joins : merging.Joins left right) :
    SameEnd before merging left right where
  joins := joins
  fixed := grows.into
  bindings ref inside := by
    have within : ref.index < left.store.frames.size := by
      rw [joins.stores.size]
      exact Nat.lt_of_lt_of_le inside grows.size
    obtain ⟨frame, found⟩ := Store.frame?_of_lt within
    have place : merging.into ref = ref := grows.into ref inside
    rcases joins.stores.frames ref frame found with ⟨-, foundRight⟩ | ⟨-, parent, up, merged⟩
    · rw [found, Option.map_some, ← foundRight, place]
    · have older := joins.stores.formed.older ref frame parent found up
      have placeParent : merging.into parent = parent :=
        grows.into parent (Nat.lt_trans older inside)
      rw [place, placeParent] at merged
      rw [merged] at older
      exact absurd older (Nat.lt_irrefl _)

theorem sameEffect_of_sameOutcome {before : Store} {outcome other : Outcome Flow}
    (ends : outcome ≠ .outOfFuel)
    (outcomes : (identity before).SameOutcome Merging.SameFlow outcome other) :
    SameEffect before outcome other := by
  cases outcomes with
  | done grows joins holds =>
      obtain ⟨rfl, -⟩ := holds
      exact .done (sameEnd_of_later grows joins)
  | failed grows joins => exact .failed (sameEnd_of_later grows joins)
  | outOfFuel => exact absurd rfl ends

/-- A machine with a well-formed store is the same as itself. -/
theorem joins_identity {machine : Machine} (formed : machine.store.WellFormed) :
    (identity machine.store).Joins machine machine :=
  ⟨relates_identity formed, rfl, rfl, rfl⟩

theorem Follows.equivalent {machine : Machine} {left right : Nat → Exec Flow}
    (formed : machine.store.WellFormed)
    (follows : Follows (identity machine.store) Merging.SameFlow left right) :
    Equivalent machine left right := by
  have joins := joins_identity formed
  constructor
  · intro outcome ends
    obtain ⟨first, second, endsLeft, endsRight, outcomes⟩ :=
      follows machine machine joins (.inl ⟨outcome, ends⟩)
    obtain rfl := ends.unique endsLeft
    exact ⟨second, endsRight, sameEffect_of_sameOutcome ends.1 outcomes⟩
  · intro other ends
    obtain ⟨first, second, endsLeft, endsRight, outcomes⟩ :=
      follows machine machine joins (.inr ⟨other, ends⟩)
    obtain rfl := ends.unique endsRight
    exact ⟨first, endsLeft, sameEffect_of_sameOutcome endsLeft.1 outcomes⟩

/-! ### New interpreters -/

namespace Interpreter

theorem wellFormed_register {store : Store} (formed : store.WellFormed) (id : Nat)
    (functions : List HostFunction) : (register store id functions).WellFormed := by
  induction functions generalizing store id with
  | nil => exact formed
  | cons function rest ih =>
      refine ih (formed.define globals function.name ?_) (id + 1)
      rintro given ⟨⟩ _ ⟨⟩

/-- The store of a new interpreter is well-formed. -/
theorem wellFormed_build (functions : List HostFunction) (clock : Nat → Float) (limit : Nat) :
    (build functions clock limit).machine.store.WellFormed :=
  wellFormed_register (Store.WellFormed.empty.addFrame (by simp)) 0 _

end Interpreter

end Lox
