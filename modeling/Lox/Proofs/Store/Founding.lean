import Lox.Proofs.Store.Chains
import Lox.Proofs.Store.Merging

/-!
Well-founded stores.

A closure holds the frame that it was made in, and that frame may hold the closure, so from frames
to functions and back one can go round in circles. Along parents one cannot, since a frame is made
after its parent and keeps it (`Extends`).

`Loop` is the loop that looks for a name, as it is run: from frame to parent, with no count of its
own. In a well-formed store it always comes to an end, with what reading the name or giving it
another value comes to (`Founded`, `WellFormed.founded`).
-/

namespace Lox.Store

variable {store middle later : Store} {ref : FrameRef} {name : String} {chain : List FrameRef}

/-! ### Frames that stay -/

/-- A store that another may have become: all frames are still there, under the parents that they
had. -/
def Extends (store later : Store) : Prop :=
  ∀ ref frame, store.frame? ref = some frame →
    ∃ frame', later.frame? ref = some frame' ∧ frame'.parent = frame.parent

theorem Extends.refl (store : Store) : store.Extends store :=
  fun _ frame found => ⟨frame, found, rfl⟩

theorem Extends.trans (first : store.Extends middle) (second : middle.Extends later) :
    store.Extends later := by
  intro ref frame found
  obtain ⟨frame', found', same⟩ := first ref frame found
  obtain ⟨frame'', found'', same'⟩ := second ref frame' found'
  exact ⟨frame'', found'', same'.trans same⟩

theorem GrowsBy.extends {executed : FrameRef → Stmt → Prop} (grows : store.GrowsBy executed later) :
    store.Extends later := by
  intro ref frame found
  obtain ⟨frame', found', grows⟩ := grows ref frame found
  exact ⟨frame', found', grows.parent⟩

theorem extends_addFrame (store : Store) (parent : Option FrameRef) :
    store.Extends (store.addFrame parent).2 :=
  (@GrowsBy.addFrame (fun _ _ => False) store store (.refl store) parent).extends

theorem extends_define (store : Store) (ref : FrameRef) (name : String) (value : Option Value) :
    store.Extends (store.define ref name value) := by
  intro there frame found
  rw [frame?_define, found]
  refine ⟨_, rfl, ?_⟩
  split <;> rfl

/-! ### The loop of a search -/

/-- The values that a search finds are of the store. -/
theorem WellFormed.nearest (formed : store.WellFormed) {owner : FrameRef} {value : Value}
    (found : store.nearest? ref name = some (owner, .bound value)) :
    value.Below store.frames.size := by
  obtain ⟨-, frame, here, member⟩ :=
    search_within (fun _ => True) (fun _ _ _ _ _ _ => trivial) trivial found
  exact formed.scopes owner frame name value here member

/-- How the loop ends that looks for a name, and after how many rounds. A frame that declares the
name ends it, and `found` says with what; one that does not sends it on to its parent, or ends it
with `missing` if it has none. -/
inductive Loop (store : Store) (name : String) {β : Type} (found : FrameRef → Slot → β)
    (missing : β) :
    FrameRef → (rounds : Nat) → β → Prop where
  | here {ref frame slot} (there : store.frame? ref = some frame)
      (declared : frame.find? name = some slot) :
      Loop store name found missing ref 1 (found ref slot)
  | nowhere {ref frame} (there : store.frame? ref = some frame)
      (undeclared : frame.find? name = none)
      (top : frame.parent = none) : Loop store name found missing ref 1 missing
  | onward {ref frame parent rounds result} (there : store.frame? ref = some frame)
      (undeclared : frame.find? name = none) (up : frame.parent = some parent)
      (rest : Loop store name found missing parent rounds result) :
      Loop store name found missing ref (rounds + 1) result

/-- The loop that reads a name. -/
def GetLoop (store : Store) (name : String) :
    FrameRef → (rounds : Nat) → Except LookupFault Value → Prop :=
  store.Loop name (fun _ slot => slot.read) (.error .undefined)

/-- The loop that gives a name another value. -/
def AssignLoop (store : Store) (name : String) (value : Value) :
    FrameRef → (rounds : Nat) → Except LookupFault Store → Prop :=
  store.Loop name (fun owner _ => .ok (store.define owner name (some value))) (.error .undefined)

section Loop

variable {β : Type} {found : FrameRef → Slot → β} {missing : β}

theorem Loop.unique {rounds count : Nat} {result other : β}
    (ends : store.Loop name found missing ref rounds result)
    (again : store.Loop name found missing ref count other) : count = rounds ∧ other = result := by
  -- What is in the frame decides how a round goes, so the two go on in the same way as long as they
  -- last.
  induction ends generalizing count other with
  | here there declared =>
      cases again with
      | here thereAgain declaredAgain => simp_all
      | nowhere thereAgain undeclared _ => simp_all
      | onward thereAgain undeclared _ _ => simp_all
  | nowhere there undeclared top =>
      cases again with
      | here thereAgain declared => simp_all
      | nowhere => exact ⟨rfl, rfl⟩
      | onward thereAgain _ up _ => simp_all
  | onward there undeclared up _ ih =>
      cases again with
      | here thereAgain declared => simp_all
      | nowhere thereAgain _ top => simp_all
      | onward thereAgain _ upAgain rest =>
          obtain rfl := Option.some.inj (there.symm.trans thereAgain)
          obtain rfl := Option.some.inj (up.symm.trans upAgain)
          obtain ⟨rfl, rfl⟩ := ih rest
          exact ⟨rfl, rfl⟩

/-- Along a chain the loop goes to the first frame that declares the name, and no further than the
chain. -/
theorem Chain.loop (outward : store.Chain ref chain) (name : String) (found : FrameRef → Slot → β)
    (missing : β) :
    ∃ rounds, rounds ≤ chain.length ∧ store.Loop name found missing ref rounds
      (((chain.findSome? (store.held name)).map fun entry =>
        found entry.1 entry.2).getD missing) := by
  induction outward with
  | @root ref frame there top =>
      refine ⟨1, by simp, ?_⟩
      cases here : frame.find? name with
      | some slot => simpa [held, slot?, there, here] using Loop.here there here
      | none => simpa [held, slot?, there, here] using Loop.nowhere there here top
  | @child ref frame parent rest there up _ ih =>
      obtain ⟨rounds, few, ends⟩ := ih
      cases here : frame.find? name with
      | some slot =>
          exact ⟨1, by simp, by simpa [held, slot?, there, here] using Loop.here there here⟩
      | none =>
          refine ⟨rounds + 1, by simpa using few, ?_⟩
          simpa [held, slot?, there, here] using Loop.onward there here up ends

/-- The loop ends in the frame that the search comes to, after no more rounds than there are frames
that are not younger than the first, and in no other way. -/
theorem loop_iff (ordered : store.ParentsOlder) (inside : ref.index < store.frames.size) :
    ∃ rounds, rounds ≤ ref.index + 1 ∧
      ∀ count result, store.Loop name found missing ref count result ↔
      count = rounds ∧
        result = ((store.nearest? ref name).map fun entry =>
          found entry.1 entry.2).getD missing := by
  obtain ⟨chain, outward⟩ := exists_chain ordered inside
  obtain ⟨rounds, few, ends⟩ := outward.loop name found missing
  rw [nearest?_eq ordered outward]
  refine ⟨rounds, Nat.le_trans few (outward.length_le ordered), fun count result => ?_⟩
  constructor
  · exact fun again => ends.unique again
  · rintro ⟨rfl, rfl⟩
    exact ends

end Loop

theorem assign_eq (ref : FrameRef) (name : String) (value : Value) : store.assign ref name value =
    ((store.nearest? ref name).map fun entry => .ok (store.define entry.1 name (some value))).getD
      (.error .undefined) := by
  rw [assign]
  cases store.nearest? ref name <;> rfl

/-- Where a name is given another value, some frame binds it anew. -/
theorem eq_define_of_assign {value : Value} (assigned : store.assign ref name value = .ok later) :
    ∃ owner, later = store.define owner name (some value) := by
  rw [assign_eq] at assigned
  cases found : store.nearest? ref name with
  | none =>
      rw [found] at assigned
      cases assigned
  | some entry =>
      rw [found] at assigned
      cases assigned
      exact ⟨entry.1, rfl⟩

/-! ### Well-founded stores -/

/-- The last frame of a chain is one without a parent. -/
theorem Chain.getLast? (outward : store.Chain ref chain) :
    ∃ root frame, chain.getLast? = some root ∧ store.frame? root = some frame ∧
      frame.parent = none := by
  induction outward with
  | root found top => exact ⟨_, _, rfl, found, top⟩
  | child _ _ _ ih =>
      obtain ⟨root, frame, last, found, top⟩ := ih
      exact ⟨root, frame, by rw [List.getLast?_cons, last]; rfl, found, top⟩

/-- No frame is twice on a chain. -/
theorem Chain.nodup (ordered : store.ParentsOlder) (outward : store.Chain ref chain) :
    chain.Nodup :=
  (outward.descending ordered).2.imp fun older same => by
    rw [same] at older
    exact Nat.lt_irrefl _ older

/-- A store in which everything that is referred to is there, and one comes to an end along
parents. -/
structure Founded (store : Store) : Prop where
  /-- A parent is a frame of the store, and was made before its child. -/
  parents : ∀ ref frame parent, store.frame? ref = some frame → frame.parent = some parent →
    parent.index < ref.index ∧ parent.index < store.frames.size
  /-- A bound closure was made in a frame of the store. -/
  scopes : ∀ ref frame name value,
    store.frame? ref = some frame → (name, .bound value) ∈ frame.entries →
    value.Below store.frames.size
  wellFounded : WellFounded fun parent ref => store.parent? ref = some parent
  /-- From each frame one chain leads outward. It passes no frame twice and ends at one without a
  parent. -/
  chains : ∀ ref : FrameRef, ref.index < store.frames.size → ∃ chain root frame,
    (∀ other, store.Chain ref other ↔ other = chain) ∧ chain.Nodup ∧ chain.getLast? = some root ∧
      store.frame? root = some frame ∧ frame.parent = none
  /-- From each frame the loop that reads a name ends. -/
  gets : ∀ (ref : FrameRef) name, ref.index < store.frames.size → ∃ rounds, rounds ≤ ref.index + 1 ∧
    ∀ count result, store.GetLoop name ref count result ↔ count = rounds ∧
      result = store.get ref name
  /-- From each frame the loop that gives a name another value ends. -/
  assigns : ∀ (ref : FrameRef) name value,
    ref.index < store.frames.size → ∃ rounds, rounds ≤ ref.index + 1 ∧
    ∀ count result, store.AssignLoop name value ref count result ↔
      count = rounds ∧ result = store.assign ref name value

theorem ParentsOlder.wellFounded (ordered : store.ParentsOlder) :
    WellFounded fun parent ref => store.parent? ref = some parent := by
  refine Subrelation.wf ?_ (InvImage.wf FrameRef.index Nat.lt_wfRel.wf)
  intro parent ref up
  change parent.index < ref.index
  rw [parent?, frame] at up
  cases found : store.frame? ref with
  | none =>
      rw [found] at up
      cases up
  | some held =>
      rw [found] at up
      exact ordered ref held parent found up

theorem WellFormed.founded (formed : store.WellFormed) : store.Founded where
  parents ref frame parent found up := by
    have older := formed.older ref frame parent found up
    exact ⟨older, Nat.lt_trans older (Store.lt_size found)⟩
  scopes := formed.scopes
  wellFounded := ParentsOlder.wellFounded formed.older
  chains ref inside := by
    obtain ⟨chain, outward⟩ := exists_chain formed.older inside
    obtain ⟨root, frame, last, found, top⟩ := outward.getLast?
    refine ⟨chain, root, frame, fun other => ⟨fun again => again.unique outward, ?_⟩,
      outward.nodup formed.older, last, found, top⟩
    rintro rfl
    exact outward
  gets ref name inside := by
    rw [get_eq]
    exact loop_iff formed.older inside
  assigns ref name value inside := by
    rw [assign_eq]
    exact loop_iff formed.older inside

end Lox.Store
