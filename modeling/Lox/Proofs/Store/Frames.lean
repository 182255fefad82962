import Lox.Store

/-!
How the frames of a store change, and where a search among them goes.

A store changes in two ways: a frame without entries is added, or a name is bound anew in one frame.
A search for a name goes from a frame to its parent as long as the name is not found
(`search_succ`), so whatever holds of a frame and, with a frame, of its parent, holds of the frame
in which the search ends (`search_within`).
-/

namespace Lox

namespace Frame

theorem mem_insertEntry {name : String} {slot : Slot} {entries : List (String × Slot)}
    {entry : String × Slot} (member : entry ∈ insertEntry name slot entries) :
    entry = (name, slot) ∨ entry ∈ entries := by
  induction entries with
  | nil => exact .inl (List.mem_singleton.mp member)
  | cons first rest ih =>
      rw [insertEntry] at member
      split at member
      · rcases List.mem_cons.mp member with same | member
        · exact .inl same
        · exact .inr (List.mem_cons_of_mem _ member)
      · split at member
        · rcases List.mem_cons.mp member with same | member
          · exact .inl same
          · exact .inr member
        · rcases List.mem_cons.mp member with same | member
          · exact .inr (same ▸ List.mem_cons_self)
          · exact (ih member).imp_right (List.mem_cons_of_mem _)

theorem mem_insert {frame : Frame} {name : String} {slot : Slot} {entry : String × Slot}
    (member : entry ∈ (frame.insert name slot).entries) :
    entry = (name, slot) ∨ entry ∈ frame.entries :=
  mem_insertEntry member

/-- What a frame has for a name if all its slots are changed. -/
theorem lookup_map (change : Slot → Slot) (name : String) (entries : List (String × Slot)) :
    (entries.map fun entry => (entry.1, change entry.2)).lookup name =
    (entries.lookup name).map change := by
  induction entries with
  | nil => rfl
  | cons entry rest ih =>
      rcases entry with ⟨other, slot⟩
      by_cases same : name = other
      · simp [same]
      · have apart : (name == other) = false := by simpa using same
        simp [List.lookup_cons, apart, ih]

theorem insertEntry_map (change : Slot → Slot) (name : String) (slot : Slot)
    (entries : List (String × Slot)) :
    insertEntry name (change slot) (entries.map fun entry => (entry.1, change entry.2)) =
      (insertEntry name slot entries).map fun entry => (entry.1, change entry.2) := by
  induction entries with
  | nil => rfl
  | cons entry rest ih =>
      simp only [insertEntry, List.map_cons]
      split
      · rfl
      · split
        · rfl
        · rw [List.map_cons, ih]

theorem mem_of_find? {frame : Frame} {name : String} {slot : Slot}
    (found : frame.find? name = some slot) :
    (name, slot) ∈ frame.entries := by
  rw [find?, List.lookup_eq_some_iff] at found
  obtain ⟨before, after, entries, -⟩ := found
  simp [entries]

end Frame

namespace Store

variable {store : Store} {ref : FrameRef} {frame : Frame}

theorem lt_size (found : store.frame? ref = some frame) : ref.index < store.frames.size :=
  (Array.getElem?_eq_some_iff.mp found).1

theorem frame?_of_lt (inside : ref.index < store.frames.size) :
    ∃ frame, store.frame? ref = some frame :=
  ⟨_, Array.getElem?_eq_getElem inside⟩

/-! ### Changes -/

@[simp] theorem size_addFrame (parent : Option FrameRef) :
    (store.addFrame parent).2.frames.size = store.frames.size + 1 := by
  simp [addFrame]

@[simp] theorem size_define (name : String) (value : Option Value) :
    (store.define ref name value).frames.size = store.frames.size := by
  simp [define]

theorem frame?_addFrame (parent : Option FrameRef) (other : FrameRef) :
    (store.addFrame parent).2.frame? other =
      if other = store.nextRef then some ⟨[], parent⟩ else store.frame? other := by
  have same : other = store.nextRef ↔ other.index = store.frames.size := by
    rw [nextRef, FrameRef.mk.injEq]
  simp only [frame?, addFrame, Array.getElem?_push, same]

theorem frame?_define (name : String) (value : Option Value) (other : FrameRef) :
    (store.define ref name value).frame? other =
      (store.frame? other).map fun frame =>
        if other = ref then frame.insert name (.ofOption value) else frame := by
  have same : other = ref ↔ ref.index = other.index := by
    rw [FrameRef.mk.injEq, eq_comm]
  simp only [frame?, define, Array.getElem?_modify, same]
  split <;> simp

/-! ### Searches -/

theorem search_succ (name : String) (count : Nat) (found : store.frame? ref = some frame) :
    store.search name (count + 1) ref =
      match frame.find? name with
      | some slot => some (ref, slot)
      | none => frame.parent.bind (store.search name count) := by
  simp only [search, found]
  cases frame.parent <;> rfl

/-- A search that begins among frames that hold their own parents ends in one of them, with what it
has for the name. -/
theorem search_within (frames : FrameRef → Prop) {name : String} {count : Nat} {owner : FrameRef}
    {slot : Slot} (parents : ∀ ref frame parent, frames ref → store.frame? ref = some frame →
      frame.parent = some parent → frames parent)
    (starts : frames ref) (found : store.search name count ref = some (owner, slot)) :
    frames owner ∧ ∃ frame, store.frame? owner = some frame ∧ (name, slot) ∈ frame.entries := by
  induction count generalizing ref with
  | zero => cases found
  | succ count ih =>
      cases here : store.frame? ref with
      | none =>
          rw [search, here] at found
          cases found
      | some frame =>
          rw [search_succ name count here] at found
          split at found
          · rename_i slot held
            cases found
            exact ⟨starts, frame, here, Frame.mem_of_find? held⟩
          · obtain ⟨parent, up, found⟩ := Option.bind_eq_some_iff.mp found
            exact ih (parents ref frame parent starts here up) found

end Store

end Lox
