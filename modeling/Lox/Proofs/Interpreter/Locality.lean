import Lox.Proofs.Interpreter.Congruence
import Lox.Proofs.Interpreter.Escapes
import Lox.Proofs.Interpreter.Mirroring

/-!
What a run depends on and what it changes.

Code that runs in a frame can come to the frames that it sees (`Store.Sees`): those around its own,
and those of the closures bound in one of them. It leaves all others as they are, and what they hold
makes no difference to it (`execution_local`). Two runs in stores that hold the same where the code
can come to may give the frames and functions that they make different places and numbers;
everything else is the same, and what they have made corresponds one to one.

A store of a program is sound (`Store.Sound`): parents are older than their children, and every
closure that is bound somewhere was made before. New interpreters have sound stores.
-/

namespace Lox

/-! ### Sound stores -/

/-- A store as programs make it: well-formed, and the closures bound in it are among those made. -/
structure Store.Sound (store : Store) : Prop extends store.WellFormed where
  numbered : ∀ ref closure, store.Binds ref closure → closure.id < store.closureCount

namespace Store.Sound

variable {store : Store}

theorem empty : Store.empty.Sound where
  toWellFormed := .empty
  numbered := by
    rintro ref closure ⟨frame, name, found, -⟩
    simp [frame?, Store.empty] at found

theorem addFrame (sound : store.Sound) {parent : Option FrameRef}
    (inside : ∀ ref ∈ parent, ref.index < store.frames.size) : (store.addFrame parent).2.Sound where
  toWellFormed := sound.toWellFormed.addFrame inside
  numbered := by
    rintro ref closure ⟨frame, name, found, member⟩
    rw [frame?_addFrame] at found
    split at found
    · cases found
      cases member
    · exact sound.numbered ref closure ⟨frame, name, found, member⟩

theorem define (sound : store.Sound) (owner : FrameRef) (name : String) {value : Option Value}
    (below : ∀ given ∈ value, given.Below store.frames.size)
    (made : ∀ closure, value = some (.function (.closure closure)) →
      closure.id < store.closureCount) :
    (store.define owner name value).Sound where
  toWellFormed := sound.toWellFormed.define owner name below
  numbered := by
    rintro ref closure ⟨frame, other, found, member⟩
    rw [frame?_define, Option.map_eq_some_iff] at found
    obtain ⟨before, found, rfl⟩ := found
    have held (member : (other, Slot.bound (.function (.closure closure))) ∈ before.entries) :=
      sound.numbered ref closure ⟨before, other, found, member⟩
    split at member
    · rcases Frame.mem_insert member with same | member
      · cases value with
        | none => cases same
        | some given =>
            cases same
            exact made closure rfl
      · exact held member
    · exact held member

theorem makeClosure (sound : store.Sound) (decl : FunctionDecl) (scope : FrameRef) :
    (store.makeClosure decl scope).2.Sound where
  older := sound.older
  scopes := sound.scopes
  numbered ref closure binds := Nat.lt_succ_of_lt (sound.numbered ref closure binds)

end Store.Sound

/-! ### Frames that are seen -/

theorem Store.Sees.inside {store : Store} {start ref : FrameRef} (formed : store.WellFormed)
    (starts : start.index < store.frames.size) (sees : store.Sees start ref) :
    ref.index < store.frames.size := by
  induction sees with
  | start => exact starts
  | parent sees found up ih => exact Nat.lt_trans (formed.older _ _ _ found up) ih
  | scope sees binds ih =>
      obtain ⟨frame, name, found, member⟩ := binds
      exact formed.scopes _ frame name _ found member _ rfl

/-! ### Runs from the same -/

/-- Two machines are the same as far as code can come that runs in a frame. -/
structure Machine.Resembles (start : FrameRef) (machine machine' : Machine) : Prop where
  frames : ∀ ref, machine.store.Sees start ref →
    machine'.store.frame? ref = machine.store.frame? ref
  callDepth : machine'.callDepth = machine.callDepth
  clockReadings : machine'.clockReadings = machine.clockReadings

/-- Where the frames seen in one store are the same in another, as many are seen there. -/
theorem Store.sees_congr {store store' : Store} {start : FrameRef}
    (same : ∀ ref, store.Sees start ref → store'.frame? ref = store.frame? ref) {ref : FrameRef}
    (sees : store'.Sees start ref) : store.Sees start ref := by
  induction sees with
  | start => exact .start
  | parent _ found up ih => exact .parent ih ((same _ ih).symm.trans found) up
  | scope _ binds ih =>
      obtain ⟨frame, name, found, member⟩ := binds
      exact .scope ih ⟨frame, name, (same _ ih).symm.trans found, member⟩

theorem Machine.Resembles.symm {start : FrameRef} {machine machine' : Machine}
    (resembles : machine.Resembles start machine') : machine'.Resembles start machine where
  frames ref sees := (resembles.frames ref (Store.sees_congr resembles.frames sees)).symm
  callDepth := resembles.callDepth.symm
  clockReadings := resembles.clockReadings.symm

theorem Machine.Resembles.trans {start : FrameRef} {machine machine' last : Machine}
    (first : machine.Resembles start machine') (second : machine'.Resembles start last) :
    machine.Resembles start last where
  frames ref sees :=
    (second.frames ref (Store.sees_congr first.symm.frames sees)).trans (first.frames ref sees)
  callDepth := second.callDepth.trans first.callDepth
  clockReadings := second.clockReadings.trans first.clockReadings

/-- What is in a frame that was added is not seen from older ones. -/
theorem Machine.resembles_addFrame {machine : Machine} {start : FrameRef}
    (formed : machine.store.WellFormed) (starts : start.index < machine.store.frames.size)
    (parent : Option FrameRef) (name : String) (value : Option Value) :
    machine.Resembles start { machine with
      store := (machine.store.addFrame parent).2.define machine.store.nextRef name value } where
  frames ref sees := by
    have inside := sees.inside formed starts
    have older : ref ≠ machine.store.nextRef := by
      rintro rfl
      exact Nat.lt_irrefl _ inside
    rw [Store.frame?_define, Store.frame?_addFrame, if_neg older]
    simp [older]
  callDepth := rfl
  clockReadings := rfl

/-- A link between what two runs from the same have come to: what both could see from the frame they
began in is what it was called before, and everything else is new on both sides. -/
structure Link.Renames (link : Link Eq) (start : FrameRef) (before before' : Store) : Prop where
  oneOne : link.OneOne
  seen : ∀ ref, before.Sees start ref → link.frames ref ref
  frames : ∀ ref ref', link.frames ref ref' → ref = ref' ∧ before.Sees start ref ∨
    before.frames.size ≤ ref.index ∧ before'.frames.size ≤ ref'.index
  closures : ∀ id id', link.closures id id' →
    id = id' ∧ id < before.closureCount ∧ id < before'.closureCount ∨
    before.closureCount ≤ id ∧ before'.closureCount ≤ id'

/-- What two runs from the same leave: the same in all frames that are linked, the same lines
printed, and as many calls in progress as before. -/
structure Machine.Corresponds (start : FrameRef) (before before' : Machine) (link : Link Eq)
    (after after' : Machine) : Prop extends link.Renames start before.store before'.store where
  contents : ∀ ref ref', link.frames ref ref' →
    ∃ frame frame', after.store.frame? ref = some frame ∧
    after'.store.frame? ref' = some frame' ∧ link.Contents frame frame'
  printed : ∃ texts, after.printed.toList = before.printed.toList ++ texts ∧
    after'.printed.toList = before'.printed.toList ++ texts
  callDepth : after.callDepth = before.callDepth ∧ after'.callDepth = before'.callDepth
  clockReadings : after.clockReadings = after'.clockReadings

/-- The outcomes of two runs from the same: the same but for what new frames and new functions are
called. -/
inductive Outcome.Corresponds {α : Type} (start : FrameRef) (before before' : Machine)
    (same : Link Eq → α → α → Prop) : Outcome α → Outcome α → Prop where
  | done {link value value' after after'}
      (machines : Machine.Corresponds start before before' link after after')
      (holds : same link value value') :
      Corresponds start before before' same (.done value after) (.done value' after')
  | failed {link error after after'}
      (machines : Machine.Corresponds start before before' link after after') :
      Corresponds start before before' same (.failed error after) (.failed error after')
  | outOfFuel : Corresponds start before before' same .outOfFuel .outOfFuel

/-- An action in a frame changes only frames that can be seen from there, and depends on no
others. -/
structure Exec.Local {α : Type} (same : Link Eq → α → α → Prop) (start : FrameRef)
    (action : Exec α) :
    Prop where
  spares : ∀ before : Machine, before.store.Sound → start.index < before.store.frames.size →
    (action before).AllMachines fun after =>
      ∀ ref : FrameRef, ref.index < before.store.frames.size →
      ¬ before.store.Sees start ref → after.store.frame? ref = before.store.frame? ref
  depends : ∀ before before' : Machine, before.store.Sound → before'.store.Sound →
    start.index < before.store.frames.size → before.Resembles start before' →
      Outcome.Corresponds start before before' same (action before) (action before')

/-! ### Views -/

/-- Frames that exist and from which no others can be come to. -/
structure Store.Closed (store : Store) (seen : FrameRef → Prop) : Prop where
  inside : ∀ ref, seen ref → ref.index < store.frames.size
  parent : ∀ ref frame parent, seen ref → store.frame? ref = some frame →
    frame.parent = some parent →
    seen parent
  scope : ∀ ref closure, seen ref → store.Binds ref closure → seen closure.scope

theorem Store.closed_sees {store : Store} {start : FrameRef} (formed : store.WellFormed)
    (starts : start.index < store.frames.size) : store.Closed (store.Sees start) where
  inside _ sees := sees.inside formed starts
  parent _ _ _ sees found up := .parent sees found up
  scope _ _ sees binds := .scope sees binds

theorem Store.closed_all {store : Store} (formed : store.WellFormed) :
    store.Closed fun ref => ref.index < store.frames.size where
  inside _ inside := inside
  parent ref frame parent inside found up :=
    Nat.lt_trans (formed.older ref frame parent found up) inside
  scope ref closure _ binds := by
    obtain ⟨frame, name, found, member⟩ := binds
    exact formed.scopes ref frame name _ found member closure rfl

/-- Some frames of two stores, and all closures of both, each paired with itself. -/
def Store.view {lines : Nat → Nat → Prop} (store store' : Store) (seen : FrameRef → Prop) :
    Link lines where
  frames ref ref' := ref = ref' ∧ seen ref
  closures id id' := id = id' ∧ id < store.closureCount ∧ id < store'.closureCount

section View

variable {lines : Nat → Nat → Prop} {store store' : Store} {seen : FrameRef → Prop}
  (refl : ∀ line, lines line line) (sound : store.Sound) (sound' : store'.Sound)
  (closed : store.Closed seen)
  (same : ∀ ref, seen ref → store'.frame? ref = store.frame? ref)
include refl sound sound' closed same

/-- What a frame in view holds is linked with itself, since all that can be come to from it is in
view. -/
theorem Store.view_contents {ref : FrameRef} {frame : Frame} (sees : seen ref)
    (found : store.frame? ref = some frame) :
    (store.view store' seen : Link lines).Contents frame frame where
  entries := by
    refine List.forall₂_same.mpr fun entry member => ⟨rfl, ?_⟩
    obtain ⟨name, slot⟩ := entry
    match slot with
    | .uninitialized => exact .uninitialized
    | .bound (.function (.closure closure)) =>
        have binds : store.Binds ref closure := ⟨frame, name, found, member⟩
        have binds' : store'.Binds ref closure := ⟨frame, name, (same ref sees).trans found, member⟩
        have numbered := sound.numbered ref closure binds
        have numbered' := sound'.numbered ref closure binds'
        exact .bound (.closure ⟨rfl, numbered, numbered'⟩ (closure.decl.alike_refl refl)
          ⟨rfl, closed.scope ref closure sees binds⟩)
    | .bound (.function (.native given)) => exact .bound (.native given)
    | .bound .nil => exact .bound .nil
    | .bound (.bool value) => exact .bound (.bool value)
    | .bound (.number value) => exact .bound (.number value)
    | .bound (.text value) => exact .bound (.text value)
  parent := by
    cases up : frame.parent with
    | none => exact .none
    | some parent => exact .some ⟨rfl, closed.parent ref frame parent sees found up⟩

theorem Store.view_stores : (store.view store' seen : Link lines).Stores store store' where
  oneOne := by
    constructor
    · rintro ref _ other _ ⟨rfl, -⟩ ⟨rfl, -⟩
      exact Iff.rfl
    · rintro id _ other _ ⟨rfl, -⟩ ⟨rfl, -⟩
      exact Iff.rfl
  contents := by
    rintro ref _ ⟨rfl, sees⟩
    obtain ⟨frame, found⟩ := Store.frame?_of_lt (closed.inside ref sees)
    exact ⟨frame, frame, found, (same ref sees).trans found,
      view_contents refl sound sound' closed same sees found⟩
  older := by
    rintro ref _ frame parent ⟨rfl, -⟩ found up
    exact sound.older ref frame parent found up
  older' := by
    rintro ref _ frame parent ⟨rfl, -⟩ found up
    exact sound'.older ref frame parent found up
  made := by
    rintro id _ ⟨rfl, made, made'⟩
    exact ⟨made, made'⟩

end View

/-! ### Actions that mirror themselves -/

namespace Exec

open Link

variable {α : Type} {same : Link Eq → α → α → Prop} {start : FrameRef} {before before' : Machine}

theorem corresponds_of_machines {link : Link Eq} {after after' : Machine}
    (depth : before'.callDepth = before.callDepth)
    (machines : Machines (.at (before.store.view before'.store (before.store.Sees start))
      before before') before.callDepth link after after') :
    Machine.Corresponds start before before' link after after' where
  oneOne := machines.since.stores.oneOne
  seen _ sees := machines.since.within.frames ⟨rfl, sees⟩
  frames _ _ pair := machines.since.frames pair
  closures _ _ pair := machines.since.closures pair
  contents _ _ pair := machines.since.stores.contents pair
  printed := machines.printed
  callDepth := ⟨machines.callDepth, machines.callDepth'.trans depth.symm⟩
  clockReadings := machines.clockReadings

/-- An action in a frame does the same as itself, wherever that frame is paired with itself. -/
def MirrorsItself (same : Link Eq → α → α → Prop) (start : FrameRef) (action : Exec α) : Prop :=
  ∀ (beginning : Beginning Eq) depth (link : Link Eq), link.frames start start →
    action.Mirrors beginning depth link same action

theorem MirrorsItself.outcomes {action : Exec α} {link : Link Eq}
    (mirrors : action.MirrorsItself same start) (stores : link.Stores before.store before'.store)
    (pair : link.frames start start) (callDepth : before'.callDepth = before.callDepth)
    (clockReadings : before'.clockReadings = before.clockReadings) :
    Outcomes (.at link before before') before.callDepth link same (action before)
      (action before') :=
  mirrors _ _ link pair before before' (.start stores rfl callDepth clockReadings.symm)

theorem allMachines_of_outcomes {beginning : Beginning Eq} {depth : Nat} {link : Link Eq}
    {outcome outcome' : Outcome α} {fits : Machine → Prop}
    (outcomes : Outcomes beginning depth link same outcome outcome')
    (all : ∀ {later after after'}, Machines beginning depth later after after' → fits after) :
    outcome.AllMachines fits := by
  cases outcomes with
  | done _ machines _ => exact all machines
  | failed _ machines _ => exact all machines
  | outOfFuel => trivial

theorem MirrorsItself.local {action : Exec α} (mirrors : action.MirrorsItself same start) :
    action.Local same start where
  spares := by
    intro before sound starts
    have closed := Store.closed_sees sound.toWellFormed starts
    have stores := Store.view_stores (fun _ => rfl) sound sound closed fun _ _ => rfl
    have outcomes := mirrors.outcomes stores ⟨rfl, .start⟩ rfl rfl
    exact allMachines_of_outcomes outcomes fun machines ref inside unseen =>
      machines.since.kept ref inside fun _ pair => unseen pair.2
  depends := by
    intro before before' sound sound' starts resembles
    have closed := Store.closed_sees sound.toWellFormed starts
    have stores := Store.view_stores (fun _ => rfl) sound sound' closed resembles.frames
    have outcomes :=
      mirrors.outcomes stores ⟨rfl, .start⟩ resembles.callDepth resembles.clockReadings
    revert outcomes
    generalize action before = outcome
    generalize action before' = outcome'
    intro outcomes
    cases outcomes with
    | done _ machines holds =>
        exact .done (corresponds_of_machines resembles.callDepth machines) holds
    | failed _ machines errors =>
        rw [errors.eq]
        exact .failed (corresponds_of_machines resembles.callDepth machines)
    | outOfFuel => exact .outOfFuel

end Exec

namespace Interpreter

open Exec

/-- What a statement or an expression does in a frame concerns only the frames that can be seen from
there. -/
theorem execution_local {host : Host}
    (parametric : ∀ function ∈ host.functions, function.Parametric Eq) (fuel : Nat)
    (start : FrameRef) :
    (∀ stmt, (execute host fuel stmt start).Local Link.Flows start) ∧
      ∀ expr, (evaluate host fuel expr start).Local Link.Values start := by
  have mirrors := mirroring parametric fuel
  refine ⟨fun stmt => MirrorsItself.local fun beginning depth link pair => ?_,
    fun expr => MirrorsItself.local fun beginning depth link pair => ?_⟩
  · exact mirrors.execute beginning depth link stmt stmt start start
      (stmt.alike_refl fun _ => rfl) pair
  · exact mirrors.evaluate beginning depth link expr expr start start
      (expr.alike_refl fun _ => rfl) pair

/-- The function that the witness below calls: it changes a variable and prints it. -/
def mark : FunctionDecl :=
  ⟨⟨"mark", 1⟩, [],
    [.expression (.assign ⟨"done", 1⟩ (.literal (.bool true))), .print (.variable ⟨"done", 1⟩)]⟩

/-- A store with the variable in frame 1 and a frame 2 beside it. -/
def rooms : Store :=
  ((Store.empty.addRoot.2.addChild globals).2.define ⟨1⟩ "done" (some (.bool false))).addChild
    globals |>.2

/-- A machine in whose frame 2 the function is bound, closed over frame 1. -/
def marking : Machine :=
  let (made, store) := rooms.makeClosure mark ⟨1⟩
  ⟨store.define ⟨2⟩ "mark" (some (.function (.closure made))), 0, #[], 0⟩

/-- The same with one more frame, to which nothing leads. -/
def withUnseen (value : Bool) : Machine :=
  { marking with
    store := (marking.store.addFrame (some globals)).2.define marking.store.nextRef "done"
      (some (.bool value)) }

theorem sound_rooms : rooms.Sound := by
  have root : Store.empty.addRoot.2.Sound := Store.Sound.empty.addFrame (by simp)
  have inner : (Store.empty.addRoot.2.addChild globals).2.Sound :=
    root.addFrame (by rintro _ ⟨⟩; decide)
  have declared :
      ((Store.empty.addRoot.2.addChild globals).2.define ⟨1⟩ "done" (some (.bool false))).Sound :=
    inner.define ⟨1⟩ "done" (by rintro _ ⟨⟩ _ ⟨⟩) (by rintro _ ⟨⟩)
  exact declared.addFrame (by rintro _ ⟨⟩; decide)

theorem sound_marking : marking.store.Sound := by
  refine (sound_rooms.makeClosure mark ⟨1⟩).define ⟨2⟩ "mark" ?_ ?_
  · rintro _ ⟨⟩ _ ⟨⟩
    decide
  · rintro _ ⟨⟩
    decide

theorem sound_withUnseen (value : Bool) : (withUnseen value).store.Sound := by
  have added : (marking.store.addFrame (some globals)).2.Sound :=
    sound_marking.addFrame (by rintro _ ⟨⟩; decide)
  exact added.define _ "done" (by rintro _ ⟨⟩ _ ⟨⟩) (by rintro _ ⟨⟩)

/-- The function is called in two machines that differ in a frame that it does not see. -/
theorem execution_local_call :
    let host : Host := ⟨#[.clock], fun _ => 0, 4⟩
    let call : Stmt := .expression (.call (.variable ⟨"mark", 1⟩) [] 1)
    let left := withUnseen true
    let right := withUnseen false
    (∀ function ∈ host.functions, function.Parametric Eq) ∧ left.Resembles ⟨2⟩ right ∧
      Outcome.Corresponds ⟨2⟩ left right Link.Flows (execute host 9 call ⟨2⟩ left)
        (execute host 9 call ⟨2⟩ right) ∧
      ∃ after, execute host 9 call ⟨2⟩ left = .done .normal after ∧ after.printed = #["true"] ∧
        after.store.frame? ⟨3⟩ = left.store.frame? ⟨3⟩ := by
  intro host call left right
  have parametric : ∀ function ∈ host.functions, function.Parametric Eq := by
    simp [host, HostFunction.parametric_clock]
  have starts : (2 : Nat) < marking.store.frames.size := by decide
  have added (value : Bool) : marking.Resembles ⟨2⟩ (withUnseen value) :=
    Machine.resembles_addFrame sound_marking.toWellFormed starts _ _ _
  have resembles : left.Resembles ⟨2⟩ right := (added true).symm.trans (added false)
  have runs := (execution_local parametric 9 ⟨2⟩).1 call
  have startsLeft : (2 : Nat) < left.store.frames.size := by decide
  refine ⟨parametric, resembles,
    runs.depends left right (sound_withUnseen true) (sound_withUnseen false) startsLeft
    resembles, ?_⟩
  have unseen : ¬ left.store.Sees ⟨2⟩ ⟨3⟩ := by
    intro sees
    have inside :=
      (Store.sees_congr (added true).frames sees).inside sound_marking.toWellFormed starts
    exact absurd inside (by decide)
  have spared := runs.spares left (sound_withUnseen true) startsLeft
  obtain ⟨after, ends, printed⟩ : ∃ after, execute host 9 call ⟨2⟩ left = .done .normal after ∧
      after.printed = #["true"] := ⟨_, rfl, rfl⟩
  rw [ends] at spared
  exact ⟨after, ends, printed, spared ⟨3⟩ (by decide) unseen⟩

theorem sound_register {store : Store} (sound : store.Sound) (id : Nat)
    (functions : List HostFunction) :
    (register store id functions).Sound := by
  induction functions generalizing store id with
  | nil => exact sound
  | cons function rest ih =>
      refine ih (sound.define globals function.name ?_ ?_) (id + 1)
      · rintro given ⟨⟩ _ ⟨⟩
      · rintro closure ⟨⟩

/-- The store of a new interpreter is sound. -/
theorem sound_build (functions : List HostFunction) (clock : Nat → Float) (limit : Nat) :
    (build functions clock limit).machine.store.Sound :=
  sound_register (Store.Sound.empty.addFrame (by simp)) 0 _

end Interpreter

end Lox
