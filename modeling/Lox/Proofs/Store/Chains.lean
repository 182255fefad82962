import Lox.Interpreter.Machine
import Lox.Proofs.Store.Growth
import Mathlib.Data.List.Basic

/-!
Chains of scopes.

From a frame a chain leads through its parent and the parent's parent to a frame that has none. In a
store that is built frame by frame parents are older than their children, so each frame has one
chain, which passes no frame twice and ends (`exists_chain`, `Chain.unique`, `Chain.descending`). A
search for a name goes along the chain (`nearest?_eq`) and ends in the nearest frame that declares
it (`nearest?_iff`).

What is read through one frame after a name was bound through another follows from where the two
chains meet (`scope_laws`).
-/

namespace Lox

/-- What is read from a slot. -/
def Slot.read : Slot → Except LookupFault Value
  | .uninitialized => .error .uninitialized
  | .bound value => .ok value

namespace Store

variable {store : Store} {ref other owner : FrameRef} {name : String} {chain : List FrameRef}

/-! ### Chains -/

/-- The frames from a given one outward: the frame, its parent, the parent's parent and so on to the
last. -/
inductive Chain (store : Store) : FrameRef → List FrameRef → Prop where
  | root {ref frame} (found : store.frame? ref = some frame) (top : frame.parent = none) :
      Chain store ref [ref]
  | child {ref frame parent rest} (found : store.frame? ref = some frame)
      (up : frame.parent = some parent)
      (outward : Chain store parent rest) : Chain store ref (ref :: rest)

/-- A frame is on the chain of another. -/
def OnChain (store : Store) (ref other : FrameRef) : Prop :=
  ∃ chain, store.Chain ref chain ∧ other ∈ chain

/-- On the chain of a frame, one frame is passed strictly before another. -/
def Nearer (store : Store) (ref first second : FrameRef) : Prop :=
  ∃ before between rest, store.Chain ref (before ++ first :: (between ++ second :: rest))

/-- What a frame has for a name. -/
def slot? (store : Store) (ref : FrameRef) (name : String) : Option Slot :=
  (store.frame? ref).bind (·.find? name)

/-- A frame of a store declares a name. -/
def Declares (store : Store) (ref : FrameRef) (name : String) : Prop :=
  (store.slot? ref name).isSome

/-- On the chain of a frame, the nearest one that declares a name. -/
def Near (store : Store) (ref : FrameRef) (name : String) (owner : FrameRef) : Prop :=
  ∃ nearer rest, store.Chain ref (nearer ++ owner :: rest) ∧ store.Declares owner name ∧
    ∀ passed ∈ nearer, ¬ store.Declares passed name

/-- Every frame is younger than its parent. -/
def ParentsOlder (store : Store) : Prop :=
  ∀ ref frame parent, store.frame? ref = some frame → frame.parent = some parent →
    parent.index < ref.index

theorem Chain.lt_size (outward : store.Chain ref chain) : ref.index < store.frames.size := by
  cases outward with
  | root found _ | child found _ _ => exact Store.lt_size found

theorem Chain.unique (outward : store.Chain ref chain) {again : List FrameRef}
    (outwardAgain : store.Chain ref again) : chain = again := by
  induction outward generalizing again with
  | root found top =>
      cases outwardAgain with
      | root => rfl
      | child foundAgain up _ => simp_all
  | child found up _ ih =>
      cases outwardAgain with
      | root foundAgain top => simp_all
      | child foundAgain upAgain rest =>
          obtain rfl := Option.some.inj (found.symm.trans foundAgain)
          obtain rfl := Option.some.inj (up.symm.trans upAgain)
          rw [ih rest]

section Ordered

variable (ordered : store.ParentsOlder)
include ordered

/-- A chain goes from younger frames to older ones. -/
theorem Chain.descending (outward : store.Chain ref chain) :
    (∀ passed ∈ chain, passed.index ≤ ref.index) ∧
      chain.Pairwise fun near far => far.index < near.index := by
  induction outward with
  | root => simp
  | @child ref frame parent rest found up _ ih =>
      have older := ordered ref frame parent found up
      refine ⟨List.forall_mem_cons.mpr ⟨Nat.le_refl _, fun passed member => ?_⟩,
        .cons (fun passed member => ?_) ih.2⟩
      · exact Nat.le_trans (ih.1 passed member) (Nat.le_of_lt older)
      · exact Nat.lt_of_le_of_lt (ih.1 passed member) older

theorem Chain.length_le (outward : store.Chain ref chain) : chain.length ≤ ref.index + 1 := by
  induction outward with
  | root => simp
  | @child ref frame parent rest found up _ ih =>
      have older := ordered ref frame parent found up
      simp only [List.length_cons]
      omega

theorem exists_chain (inside : ref.index < store.frames.size) : ∃ chain, store.Chain ref chain := by
  induction index : ref.index using Nat.strongRecOn generalizing ref with
  | ind _ ih =>
      obtain ⟨frame, found⟩ := frame?_of_lt inside
      cases up : frame.parent with
      | none => exact ⟨_, .root found up⟩
      | some parent =>
          have older := ordered ref frame parent found up
          obtain ⟨rest, outward⟩ := ih parent.index (index ▸ older) (Nat.lt_trans older inside) rfl
          exact ⟨_, .child found up outward⟩

end Ordered

/-! ### Searches along chains -/

/-- A frame with what it has for a name. -/
def held (store : Store) (name : String) (ref : FrameRef) : Option (FrameRef × Slot) :=
  (store.slot? ref name).map (ref, ·)

theorem held_eq_none : store.held name ref = none ↔ ¬ store.Declares ref name := by
  simp [held, Declares]

theorem Chain.search (outward : store.Chain ref chain) (name : String) {count : Nat}
    (enough : chain.length ≤ count) :
    store.search name count ref = chain.findSome? (store.held name) := by
  induction outward generalizing count with
  | @root ref frame found top =>
      obtain ⟨fewer, rfl⟩ : ∃ fewer, count = fewer + 1 := ⟨count - 1, by simp at enough; omega⟩
      rw [search_succ name fewer found]
      cases here : frame.find? name <;> simp [held, slot?, found, here, top]
  | @child ref frame parent rest found up _ ih =>
      obtain ⟨fewer, rfl⟩ : ∃ fewer, count = fewer + 1 := ⟨count - 1, by simp at enough; omega⟩
      rw [search_succ name fewer found]
      cases here : frame.find? name with
      | some slot => simp [held, slot?, found, here]
      | none =>
          have goesOn := ih (Nat.le_of_succ_le_succ enough)
          simp [held, slot?, found, here, up, goesOn]

theorem nearest?_eq (ordered : store.ParentsOlder) (outward : store.Chain ref chain)
    (name : String) :
    store.nearest? ref name = chain.findSome? (store.held name) :=
  outward.search name (outward.length_le ordered)

/-- A search ends in the nearest frame that declares the name, with what it has for it. -/
theorem nearest?_iff (ordered : store.ParentsOlder) (inside : ref.index < store.frames.size)
    {slot : Slot} :
    store.nearest? ref name = some (owner, slot) ↔
      store.Near ref name owner ∧ store.slot? owner name = some slot := by
  obtain ⟨chain, outward⟩ := exists_chain ordered inside
  rw [nearest?_eq ordered outward, List.findSome?_eq_some_iff]
  constructor
  · rintro ⟨nearer, passed, rest, rfl, holds, before⟩
    obtain ⟨_, here, same⟩ := Option.map_eq_some_iff.mp holds
    obtain ⟨rfl, rfl⟩ := Prod.mk.inj same
    exact ⟨⟨nearer, rest, outward,
      by simp [Declares, here], fun other member => held_eq_none.mp (before other member)⟩,
      here⟩
  · rintro ⟨⟨nearer, rest, again, -, before⟩, here⟩
    exact ⟨nearer, owner, rest, outward.unique again, by simp [held, here],
      fun other member => held_eq_none.mpr (before other member)⟩

theorem nearest?_eq_none (ordered : store.ParentsOlder) (inside : ref.index < store.frames.size) :
    store.nearest? ref name = none ↔ ¬ ∃ owner, store.Near ref name owner := by
  constructor
  · rintro nothing ⟨owner, near⟩
    obtain ⟨-, -, -, declared, -⟩ := id near
    obtain ⟨slot, here⟩ := Option.isSome_iff_exists.mp declared
    have found := (nearest?_iff ordered inside).mpr ⟨near, here⟩
    rw [nothing] at found
    cases found
  · intro nowhere
    cases found : store.nearest? ref name with
    | none => rfl
    | some entry => exact absurd ⟨entry.1, ((nearest?_iff ordered inside).mp found).1⟩ nowhere

theorem get_eq (ref : FrameRef) (name : String) :
    store.get ref name = ((store.nearest? ref name).map (·.2.read)).getD (.error .undefined) := by
  rw [get]
  rcases store.nearest? ref name with _ | ⟨owner, _ | value⟩ <;> rfl

theorem Near.unique (ordered : store.ParentsOlder) (near : store.Near ref name owner)
    (again : store.Near ref name other) : owner = other := by
  obtain ⟨_, _, outward, declared, -⟩ := id near
  obtain ⟨_, _, -, declaredAgain, -⟩ := id again
  obtain ⟨slot, here⟩ := Option.isSome_iff_exists.mp declared
  obtain ⟨slotAgain, hereAgain⟩ := Option.isSome_iff_exists.mp declaredAgain
  have found := (nearest?_iff ordered outward.lt_size).mpr ⟨near, here⟩
  have foundAgain := (nearest?_iff ordered outward.lt_size).mpr ⟨again, hereAgain⟩
  exact congrArg Prod.fst (Option.some.inj (found.symm.trans foundAgain))

theorem Nearer.younger (ordered : store.ParentsOlder) (nearer : store.Nearer ref owner other) :
    other.index < owner.index := by
  obtain ⟨before, between, rest, outward⟩ := nearer
  have sorted := (outward.descending ordered).2
  rw [List.pairwise_append, List.pairwise_cons] at sorted
  exact sorted.2.1.1 other (List.mem_append_right _ List.mem_cons_self)

/-- A search for a name comes to a frame on the chain unless it ends before. -/
theorem open_or_hidden (onChain : store.OnChain ref other) (name : String) :
    (∃ nearer rest, store.Chain ref (nearer ++ other :: rest) ∧ other ∉ nearer ∧
      ∀ passed ∈ nearer, ¬ store.Declares passed name) ∨
    ∃ owner, store.Near ref name owner ∧ store.Nearer ref owner other := by
  obtain ⟨chain, outward, member⟩ := onChain
  obtain ⟨nearer, rest, rfl, apart⟩ := List.eq_append_cons_of_mem member
  cases first : nearer.findSome? (store.held name) with
  | none =>
      refine .inl ⟨nearer, rest, outward, apart, fun passed before => ?_⟩
      exact held_eq_none.mp (List.findSome?_eq_none_iff.mp first passed before)
  | some entry =>
      obtain ⟨front, owner, between, rfl, found, passedBy⟩ := List.findSome?_eq_some_iff.mp first
      obtain ⟨slot, declared, -⟩ := Option.map_eq_some_iff.mp found
      rw [List.append_assoc, List.cons_append] at outward
      refine .inr
        ⟨owner, ⟨front, _, outward, by simp [Declares, declared], fun passed before => ?_⟩,
        front, between, rest, outward⟩
      exact held_eq_none.mp (passedBy passed before)

/-! ### Binding a name -/

theorem ParentsOlder.define (ordered : store.ParentsOlder) (ref : FrameRef) (name : String)
    (value : Option Value) : (store.define ref name value).ParentsOlder := by
  intro there frame parent found up
  rw [frame?_define, Option.map_eq_some_iff] at found
  obtain ⟨before, found, rfl⟩ := found
  refine ordered there before parent found ?_
  split at up <;> exact up

theorem ParentsOlder.addFrame (ordered : store.ParentsOlder) {parent : Option FrameRef}
    (inside : ∀ above ∈ parent, above.index < store.frames.size) :
    (store.addFrame parent).2.ParentsOlder := by
  intro there frame up found same
  rw [frame?_addFrame] at found
  by_cases new : there = store.nextRef
  · rw [if_pos new] at found
    cases found
    rw [new]
    exact inside up same
  · rw [if_neg new] at found
    exact ordered there frame up found same

/-- Binding a name changes no chain. -/
theorem Chain.define (outward : store.Chain ref chain) (there : FrameRef) (name : String)
    (value : Option Value) : (store.define there name value).Chain ref chain := by
  induction outward with
  | root found top =>
      refine .root (by rw [frame?_define, found]; rfl) ?_
      split <;> exact top
  | child found up _ ih =>
      refine .child (by rw [frame?_define, found]; rfl) ?_ ih
      split <;> exact up

/-- Binding a name changes what one frame has for it, and nothing else. -/
theorem slot?_define {there : FrameRef} (inside : there.index < store.frames.size) (bound : String)
    (value : Option Value) (ref : FrameRef) (name : String) :
    (store.define there bound value).slot? ref name =
      if ref = there ∧ name = bound then some (.ofOption value) else store.slot? ref name := by
  rw [slot?, slot?, frame?_define]
  by_cases here : ref = there
  · subst here
    obtain ⟨frame, found⟩ := frame?_of_lt inside
    simp [found, Frame.find?_insert]
  · cases store.frame? ref <;> simp [here]

section Define

variable {there : FrameRef} {value : Option Value} (ordered : store.ParentsOlder)
  (inside : ref.index < store.frames.size) (within : there.index < store.frames.size)
include ordered inside within

/-- A search does not notice what is bound under another name, or in a frame that it does not come
to. -/
theorem nearest?_define_elsewhere {bound : String}
    (elsewhere : name = bound → ¬ store.OnChain ref there) :
    (store.define there bound value).nearest? ref name = store.nearest? ref name := by
  obtain ⟨chain, outward⟩ := exists_chain ordered inside
  rw [nearest?_eq ordered outward, nearest?_eq (ordered.define _ _ _) (outward.define _ _ _),
    ← List.head?_filterMap, ← List.head?_filterMap]
  refine congrArg List.head? (List.filterMap_congr fun passed member => ?_)
  have apart : ¬ (passed = there ∧ name = bound) := by
    rintro ⟨rfl, same⟩
    exact elsewhere same ⟨chain, outward, member⟩
  rw [held, held, slot?_define within, if_neg apart]

/-- A search does not notice what is bound behind the frame in which it ends. -/
theorem nearest?_define_hidden (near : store.Near ref name owner)
    (hidden : store.Nearer ref owner there) :
    (store.define there name value).nearest? ref name = store.nearest? ref name := by
  obtain ⟨nearer, rest, outward, declared, before⟩ := id near
  -- Along a chain frames get older, so the frame is neither the one found nor one passed before.
  have younger := hidden.younger ordered
  have passedYounger : ∀ passed ∈ nearer, owner.index < passed.index := by
    have sorted := (outward.descending ordered).2
    rw [List.pairwise_append] at sorted
    exact fun passed member => sorted.2.2 passed member owner List.mem_cons_self
  have kept (passed : FrameRef) (apart : there.index < passed.index) :
      (store.define there name value).slot? passed name = store.slot? passed name := by
    rw [slot?_define within, if_neg]
    rintro ⟨rfl, -⟩
    exact Nat.lt_irrefl _ apart
  obtain ⟨slot, here⟩ := Option.isSome_iff_exists.mp declared
  rw [(nearest?_iff ordered inside).mpr ⟨near, here⟩,
    nearest?_iff (ordered.define _ _ _) (by simpa using inside)]
  refine ⟨⟨nearer, rest, outward.define _ _ _, ?_, fun passed member => ?_⟩,
    (kept owner younger).trans here⟩
  · rw [Declares, kept owner younger]
    exact declared
  · rw [Declares, kept passed (Nat.lt_trans younger (passedYounger passed member))]
    exact before passed member

/-- A search ends where the name was bound if it comes there. -/
theorem nearest?_define_open (onChain : store.OnChain ref there)
    (unhidden : ¬ ∃ owner, store.Near ref name owner ∧ store.Nearer ref owner there) :
    (store.define there name value).nearest? ref name = some (there, .ofOption value) := by
  obtain ⟨nearer, rest, outward, apart, before⟩ :=
    (open_or_hidden onChain name).resolve_right unhidden
  have here : (store.define there name value).slot? there name = some (.ofOption value) := by
    rw [slot?_define within, if_pos ⟨rfl, rfl⟩]
  rw [nearest?_iff (ordered.define _ _ _) (by simpa using inside)]
  refine ⟨⟨nearer, rest, outward.define _ _ _, by simp [Declares, here], fun passed member => ?_⟩,
    here⟩
  have elsewhere : ¬ (passed = there ∧ name = name) := fun same => apart (same.1 ▸ member)
  rw [Declares, slot?_define within, if_neg elsewhere]
  exact before passed member

end Define

/-! ### The laws -/

/-- A store that is built from nothing by making frames, binding names in frames and giving names
other values. -/
inductive Built : Store → Prop where
  | empty : Built .empty
  | root {store : Store} (built : Built store) : Built store.addRoot.2
  | child {store : Store} {parent : FrameRef} (built : Built store)
      (inside : parent.index < store.frames.size) :
      Built (store.addChild parent).2
  | define {store : Store} {ref : FrameRef} (built : Built store)
      (inside : ref.index < store.frames.size) (name : String)
      (value : Option Value) : Built (store.define ref name value)
  | assign {store after : Store} {ref : FrameRef} {name : String} {value : Value}
      (built : Built store)
      (assigned : store.assign ref name value = .ok after) : Built after

theorem Built.parentsOlder (built : store.Built) : store.ParentsOlder := by
  induction built with
  | empty =>
      intro ref frame parent found
      simp [frame?, Store.empty] at found
  | root _ ih => exact ih.addFrame (by simp)
  | child _ inside ih =>
      refine ih.addFrame ?_
      rintro above ⟨⟩
      exact inside
  | define _ _ name value ih => exact ih.define _ name value
  | @assign store after ref name value _ assigned ih =>
      rw [Store.assign] at assigned
      split at assigned <;> cases assigned
      exact ih.define _ _ _

/-- Reading a name gives what the nearest frame that declares it has for it. -/
structure ReadsNear (store : Store) (ref : FrameRef) (name : String) : Prop where
  undefined : store.get ref name = .error .undefined ↔ ¬ ∃ owner, store.Near ref name owner
  uninitialized : store.get ref name = .error .uninitialized ↔
    ∃ owner, store.Near ref name owner ∧ store.slot? owner name = some .uninitialized
  value : ∀ value, store.get ref name = .ok value ↔
    ∃ owner, store.Near ref name owner ∧ store.slot? owner name = some (.bound value)

/-- Binding a name in a frame is noticed from the frames on whose chains that frame is, unless a
nearer one declares the name, and nowhere else. -/
structure DefinesHere (store : Store) (there : FrameRef) (name : String) (value : Option Value) :
    Prop where
  slots : ∀ ref other, (store.define there name value).slot? ref other =
    if ref = there ∧ other = name then some (.ofOption value) else store.slot? ref other
  chains : ∀ ref chain, (store.define there name value).Chain ref chain ↔ store.Chain ref chain
  unnoticed : ∀ ref other, ref.index < store.frames.size →
    other ≠ name ∨ (∃ owner, store.Near ref name owner ∧ store.Nearer ref owner there) ∨
      ¬ store.OnChain ref there →
    (store.define there name value).get ref other = store.get ref other
  noticed : ∀ ref, store.OnChain ref there →
    ¬ (∃ owner, store.Near ref name owner ∧ store.Nearer ref owner there) →
    (store.define there name value).get ref name = (Slot.ofOption value).read

/-- Giving a name another value is possible if a frame on the chain declares it; the nearest such
frame changes, so it is noticed from where that frame is the nearest one too. No frame declares more
or less than before. If it is not possible, nothing changes. -/
structure AssignsNear (store : Store) (ref : FrameRef) (name : String) (value : Value) : Prop where
  possible : (∃ after, store.assign ref name value = .ok after) ↔ ∃ owner, store.Near ref name owner
  noticed : ∀ after owner there, store.assign ref name value = .ok after →
    store.Near ref name owner →
    store.Near there name owner → after.get there name = .ok value
  unnoticed : ∀ after owner there other,
    store.assign ref name value = .ok after → store.Near ref name owner →
    there.index < store.frames.size → ¬ (other = name ∧ store.Near there name owner) →
    after.get there other = store.get there other
  declares : ∀ after, store.assign ref name value = .ok after →
    ∀ there other, after.Declares there other ↔ store.Declares there other
  chains : ∀ after, store.assign ref name value = .ok after →
    ∀ there chain, after.Chain there chain ↔ store.Chain there chain
  impossible : ∀ fault, store.assign ref name value = .error fault → fault = .undefined ∧
    ∀ machine line, machine.store = store →
      Exec.assign ref ⟨name, line⟩ value machine = .failed (fault.toError ⟨name, line⟩) machine

section Laws

variable (ordered : store.ParentsOlder) (inside : ref.index < store.frames.size)
include ordered inside

theorem readsNear (name : String) : store.ReadsNear ref name where
  undefined := by
    rw [← nearest?_eq_none ordered inside, get_eq]
    rcases store.nearest? ref name with _ | ⟨owner, _ | value⟩ <;> simp [Slot.read]
  uninitialized := by
    simp only [← nearest?_iff ordered inside, get_eq]
    rcases store.nearest? ref name with _ | ⟨owner, _ | value⟩ <;> simp [Slot.read]
  value value := by
    simp only [← nearest?_iff ordered inside, get_eq]
    rcases store.nearest? ref name with _ | ⟨owner, _ | held⟩ <;> simp [Slot.read]

theorem definesHere (name : String) (value : Option Value) : store.DefinesHere ref name value where
  slots there other := slot?_define inside name value there other
  chains there chain := by
    refine ⟨fun outward => ?_, fun outward => outward.define ref name value⟩
    obtain ⟨before, found⟩ := exists_chain ordered (by simpa using outward.lt_size)
    rw [outward.unique (found.define ref name value)]
    exact found
  unnoticed there other within apart := by
    rw [get_eq, get_eq]
    by_cases same : other = name
    · subst same
      rcases apart with apart | ⟨owner, near, hidden⟩ | apart
      · exact absurd rfl apart
      · rw [nearest?_define_hidden ordered within inside near hidden]
      · rw [nearest?_define_elsewhere ordered within inside fun _ => apart]
    · rw [nearest?_define_elsewhere ordered within inside fun here => absurd here same]
  noticed there onChain unhidden := by
    obtain ⟨chain, outward, -⟩ := id onChain
    rw [get_eq, nearest?_define_open ordered outward.lt_size inside onChain unhidden]
    rfl

omit inside in
theorem assign_near (near : store.Near ref name owner) (value : Value) :
    store.assign ref name value = .ok (store.define owner name (some value)) := by
  obtain ⟨_, _, outward, declared, -⟩ := id near
  obtain ⟨slot, here⟩ := Option.isSome_iff_exists.mp declared
  rw [Store.assign, (nearest?_iff ordered outward.lt_size).mpr ⟨near, here⟩]

theorem assignsNear (name : String) (value : Value) : store.AssignsNear ref name value := by
  have missing (nowhere : ¬ ∃ owner, store.Near ref name owner) : store.nearest? ref name = none :=
    (nearest?_eq_none ordered inside).mpr nowhere
  have exactly (after : Store) (assigned : store.assign ref name value = .ok after) :
      ∃ owner, store.Near ref name owner ∧ owner.index < store.frames.size ∧
        store.Declares owner name ∧
        after = store.define owner name (some value) := by
    by_cases somewhere : ∃ owner, store.Near ref name owner
    · obtain ⟨owner, near⟩ := somewhere
      obtain ⟨nearer, rest, outward, declared, -⟩ := id near
      have within : owner.index < store.frames.size := by
        have younger := (outward.descending ordered).1 owner (by simp)
        exact Nat.lt_of_le_of_lt younger inside
      rw [assign_near ordered near] at assigned
      exact ⟨owner, near, within, declared, (Except.ok.inj assigned).symm⟩
    · rw [Store.assign, missing somewhere] at assigned
      cases assigned
  refine ⟨⟨?_, ?_⟩, ?_, ?_, ?_, ?_, ?_⟩
  · rintro ⟨after, assigned⟩
    obtain ⟨owner, near, -⟩ := exactly after assigned
    exact ⟨owner, near⟩
  · rintro ⟨owner, near⟩
    exact ⟨_, assign_near ordered near value⟩
  · intro after owner there assigned near nearThere
    obtain ⟨_, again, within, -, rfl⟩ := exactly after assigned
    obtain rfl := near.unique ordered again
    obtain ⟨before, rest, outward, -⟩ := id nearThere
    refine (definesHere ordered within name (some value)).noticed there ⟨_, outward, by simp⟩ ?_
    -- No frame is strictly nearer than the nearest.
    rintro ⟨nearer, found, hidden⟩
    obtain rfl := nearThere.unique ordered found
    exact Nat.lt_irrefl _ (hidden.younger ordered)
  · intro after owner there other assigned near insideThere apart
    obtain ⟨_, again, within, declared, rfl⟩ := exactly after assigned
    obtain rfl := near.unique ordered again
    refine (definesHere ordered within name (some value)).unnoticed there other insideThere ?_
    by_cases same : other = name
    · refine .inr ?_
      by_cases onChain : store.OnChain there owner
      · rcases open_or_hidden onChain name with ⟨before, rest, outward, -, undeclared⟩ | hidden
        · exact absurd ⟨same, before, rest, outward, declared, undeclared⟩ apart
        · exact .inl hidden
      · exact .inr onChain
    · exact .inl same
  · intro after assigned there other
    obtain ⟨owner, -, within, declared, rfl⟩ := exactly after assigned
    rw [Declares, slot?_define within]
    split
    · rename_i same
      obtain ⟨rfl, rfl⟩ := same
      exact iff_of_true rfl declared
    · rfl
  · intro after assigned there chain
    obtain ⟨owner, -, within, -, rfl⟩ := exactly after assigned
    exact (definesHere ordered within name (some value)).chains there chain
  · intro fault failed
    have nowhere : ¬ ∃ owner, store.Near ref name owner := by
      rintro ⟨owner, near⟩
      rw [assign_near ordered near] at failed
      cases failed
    rw [Store.assign, missing nowhere] at failed
    cases failed
    refine ⟨rfl, ?_⟩
    rintro machine line rfl
    rw [Exec.assign, missing nowhere]

end Laws

/-- **The laws of scopes.** In a store that is built by making frames, binding names and giving
names other values, each frame has one chain. Reading goes to the nearest frame on the chain that
declares the name; giving another value changes that frame and binding a name changes the frame
itself, and this is noticed through exactly those frames from which a search for the name comes
there. -/
theorem scope_laws (built : store.Built) (inside : ref.index < store.frames.size) (name : String) :
    (∃ chain, store.Chain ref chain ∧ ∀ other, store.Chain ref other → other = chain) ∧
      store.ReadsNear ref name ∧ (∀ value, store.AssignsNear ref name value) ∧
      ∀ value, store.DefinesHere ref name value := by
  have ordered := built.parentsOlder
  obtain ⟨chain, outward⟩ := exists_chain ordered inside
  exact ⟨⟨chain, outward, fun other again => again.unique outward⟩, readsNear ordered inside name,
    assignsNear ordered inside name, definesHere ordered inside name⟩

/-- A name of the outermost frame is given a value through a child of it, which is noticed through
another child but not below a frame that declares the name itself. -/
theorem scope_laws_siblings :
    let outer := Store.empty.addRoot.2.define ⟨0⟩ "a" (some .nil)
    let store := ((outer.addChild ⟨0⟩).2.addChild ⟨0⟩).2.define ⟨2⟩ "a" none
    store.Built ∧ (⟨1⟩ : FrameRef).index < store.frames.size ∧ ∃ after,
      store.assign ⟨1⟩ "a" (.bool true) = .ok after ∧ after.get ⟨0⟩ "a" = .ok (.bool true) ∧
        after.get ⟨2⟩ "a" = .error .uninitialized := by
  intro outer store
  have built : store.Built :=
    .define (.child (.child (.define (.root .empty) (by decide) _ _) (by decide)) (by decide))
      (by decide) _ _
  have inside : (⟨1⟩ : FrameRef).index < store.frames.size := by decide
  obtain ⟨-, -, assigns, -⟩ := scope_laws built inside "a"
  have far : store.Near ⟨0⟩ "a" ⟨0⟩ := ⟨[], [], .root rfl rfl, rfl, by simp⟩
  have below : store.Near ⟨2⟩ "a" ⟨2⟩ := ⟨[], [⟨0⟩], .child rfl rfl (.root rfl rfl), rfl, by simp⟩
  have undeclared : ¬ store.Declares ⟨1⟩ "a" := by
    rw [← held_eq_none]
    rfl
  have near : store.Near ⟨1⟩ "a" ⟨0⟩ :=
    ⟨[⟨1⟩], [], .child rfl rfl (.root rfl rfl), rfl, List.forall_mem_singleton.mpr undeclared⟩
  obtain ⟨after, assigned⟩ := (assigns (.bool true)).possible.mpr ⟨_, near⟩
  refine ⟨built, inside, after, assigned, (assigns _).noticed after _ _ assigned near far, ?_⟩
  rw [(assigns _).unnoticed after _ ⟨2⟩ "a" assigned near (by decide)]
  · rfl
  · rintro ⟨-, shared⟩
    cases below.unique built.parentsOlder shared

end Store

end Lox
