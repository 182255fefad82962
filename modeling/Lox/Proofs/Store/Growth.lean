import Lox.Proofs.Store.Frames

/-!
What the frames of a store declare, and what becomes of that.

A frame that grows by some statements keeps its parent and every name it declares. It declares
another name only if one of the statements is a declaration of it, and a name that has a value loses
it only if one of them declares it without a value. A store grows by what is executed in each of its
frames (`Store.GrowsBy`); of the frames that are added to it nothing is said.
-/

namespace Lox

/-- The name that a statement declares where it stands, not counting the statements in it. -/
def Stmt.declaredName? : Stmt → Option String
  | .define name _ | .function name _ _ => some name.text
  | _ => none

namespace Frame

/-! ### Names -/

/-- A frame has a value for a name. -/
def Binds (frame : Frame) (name : String) : Prop :=
  ∃ value, frame.find? name = some (.bound value)

theorem lookup_entries (name held : String) (slot : Slot) (rest : List (String × Slot)) :
    ((held, slot) :: rest).lookup name = if name = held then some slot else rest.lookup name := by
  by_cases same : name = held
  · rw [if_pos same, same, List.lookup_cons_self]
  · rw [if_neg same, List.lookup_cons, beq_eq_false_iff_ne.mpr same]

theorem lookup_insertEntry (name other : String) (slot : Slot) (entries : List (String × Slot)) :
    (insertEntry name slot entries).lookup other = if other = name then
      some slot else entries.lookup other := by
  induction entries with
  | nil => rw [insertEntry, lookup_entries]
  | cons first rest ih =>
      obtain ⟨held, value⟩ := first
      rw [insertEntry]
      by_cases same : name = held
      · subst same
        rw [if_pos (beq_self_eq_true name), lookup_entries, lookup_entries]
        by_cases here : other = name <;> simp only [here, if_true, if_false]
      · rw [if_neg (mt beq_iff_eq.mp same)]
        by_cases before : name < held
        · rw [if_pos before, lookup_entries]
        · rw [if_neg before, lookup_entries, ih, lookup_entries]
          by_cases here : other = name
          · simp only [here, if_true, if_neg same]
          · simp only [if_neg here]

/-- What a frame has for a name after one has been bound anew. -/
theorem find?_insert (frame : Frame) (name other : String) (slot : Slot) :
    (frame.insert name slot).find? other = if other = name then some slot else frame.find? other :=
  lookup_insertEntry name other slot frame.entries

theorem declares_insert (frame : Frame) (name other : String) (slot : Slot) :
    (frame.insert name slot).declares other ↔ other = name ∨ frame.declares other := by
  rw [declares, find?_insert, declares]
  by_cases here : other = name <;> simp [here]

theorem binds_insert (frame : Frame) (name other : String) (value : Value) :
    (frame.insert name (.bound value)).Binds other ↔ other = name ∨ frame.Binds other := by
  rw [Binds, find?_insert, Binds]
  by_cases here : other = name <;> simp [here]

theorem Binds.declares {frame : Frame} {name : String} (binds : frame.Binds name) :
    frame.declares name := by
  obtain ⟨value, found⟩ := binds
  rw [Frame.declares, found]
  rfl

theorem declares_of_mem {frame : Frame} {name : String} {slot : Slot}
    (member : (name, slot) ∈ frame.entries) :
    frame.declares name := by
  rw [declares, Option.isSome_iff_ne_none, find?, Ne, List.lookup_eq_none_iff]
  intro apart
  simpa using apart _ member

/-! ### Growth of a frame -/

/-- A frame that may have become of another while statements were executed in it. -/
structure GrowsBy (executed : Stmt → Prop) (frame frame' : Frame) : Prop where
  parent : frame'.parent = frame.parent
  kept : ∀ name, frame.declares name → frame'.declares name
  added : ∀ name, frame'.declares name →
    frame.declares name ∨ ∃ stmt, executed stmt ∧ stmt.declaredName? = some name
  bound : ∀ name, frame.Binds name → frame'.Binds name ∨
    ∃ line, executed (.define ⟨name, line⟩ none)

namespace GrowsBy

variable {executed more : Stmt → Prop} {frame middle last : Frame}

theorem refl (frame : Frame) : frame.GrowsBy executed frame :=
  ⟨rfl, fun _ => id, fun _ => .inl, fun _ => .inl⟩

theorem trans (first : frame.GrowsBy executed middle) (second : middle.GrowsBy executed last) :
    frame.GrowsBy executed last where
  parent := second.parent.trans first.parent
  kept name declares := second.kept name (first.kept name declares)
  added name declares := by
    rcases second.added name declares with before | found
    · exact first.added name before
    · exact .inr found
  bound name binds := by
    rcases first.bound name binds with still | found
    · exact second.bound name still
    · exact .inr found

theorem imp (grows : frame.GrowsBy executed middle) (all : ∀ stmt, executed stmt → more stmt) :
    frame.GrowsBy more middle where
  parent := grows.parent
  kept := grows.kept
  added name declares :=
    (grows.added name declares).imp_right fun ⟨stmt, run, found⟩ => ⟨stmt, all stmt run, found⟩
  bound name binds := (grows.bound name binds).imp_right fun ⟨line, run⟩ => ⟨line, all _ run⟩

/-- A name may be given a value that is declared already or by a statement that is executed. -/
theorem insert_bound {name : String} (value : Value)
    (declared : frame.declares name ∨ ∃ stmt, executed stmt ∧ stmt.declaredName? = some name) :
    frame.GrowsBy executed (frame.insert name (.bound value)) where
  parent := rfl
  kept other declares := (frame.declares_insert name other _).mpr (.inr declares)
  added other declares := by
    rcases (frame.declares_insert name other _).mp declares with rfl | before
    · exact declared
    · exact .inl before
  bound other binds := .inl ((frame.binds_insert name other value).mpr (.inr binds))

/-- A name may be declared without a value by a statement that says so. -/
theorem insert_uninitialized {name : Name} (run : executed (.define name none)) :
    frame.GrowsBy executed (frame.insert name.text .uninitialized) where
  parent := rfl
  kept other declares := (frame.declares_insert name.text other _).mpr (.inr declares)
  added other declares := by
    rcases (frame.declares_insert name.text other _).mp declares with rfl | before
    · exact .inr ⟨_, run, rfl⟩
    · exact .inl before
  bound other binds := by
    rw [Binds, find?_insert]
    by_cases here : other = name.text
    · subst here
      exact .inr ⟨name.line, run⟩
    · rw [if_neg here]
      exact .inl binds

end GrowsBy

end Frame

namespace Store

/-! ### Growth of a store -/

/-- A store that may have become of another while statements were executed in frames. -/
def GrowsBy (executed : FrameRef → Stmt → Prop) (store store' : Store) : Prop :=
  ∀ there frame, store.frame? there = some frame →
    ∃ frame', store'.frame? there = some frame' ∧ frame.GrowsBy (executed there) frame'

namespace GrowsBy

variable {executed more : FrameRef → Stmt → Prop} {store middle last : Store}

theorem refl (store : Store) : store.GrowsBy executed store :=
  fun _ frame found => ⟨frame, found, .refl frame⟩

theorem trans (first : store.GrowsBy executed middle) (second : middle.GrowsBy executed last) :
    store.GrowsBy executed last := by
  intro there frame found
  obtain ⟨frame', found', grows⟩ := first there frame found
  obtain ⟨frame'', found'', grows'⟩ := second there frame' found'
  exact ⟨frame'', found'', grows.trans grows'⟩

theorem imp (grows : store.GrowsBy executed middle)
    (all : ∀ there stmt, there.index < store.frames.size → executed there stmt → more there stmt) :
    store.GrowsBy more middle := by
  intro there frame found
  obtain ⟨frame', found', grows⟩ := grows there frame found
  exact ⟨frame', found', grows.imp fun stmt => all there stmt (lt_size found)⟩

/-- A new frame leaves the others as they are. -/
theorem addFrame (grows : store.GrowsBy executed middle) (parent : Option FrameRef) :
    store.GrowsBy executed (middle.addFrame parent).2 := by
  intro there frame found
  obtain ⟨frame', found', grows⟩ := grows there frame found
  refine ⟨frame', ?_, grows⟩
  have apart : there ≠ middle.nextRef := by
    rintro rfl
    exact Nat.lt_irrefl _ (lt_size found')
  rw [frame?_addFrame, if_neg apart, found']

/-- A name may be bound anew in a frame that grows by that, or that was not there before. -/
theorem define (grows : store.GrowsBy executed middle) {ref : FrameRef} {name : String}
    {value : Option Value}
    (here : ∀ frame, middle.frame? ref = some frame → ref.index < store.frames.size →
      frame.GrowsBy (executed ref) (frame.insert name (.ofOption value))) :
    store.GrowsBy executed (middle.define ref name value) := by
  intro there frame found
  obtain ⟨frame', found', grows⟩ := grows there frame found
  rw [frame?_define, found', Option.map_some]
  by_cases same : there = ref
  · subst same
    rw [if_pos rfl]
    exact ⟨_, rfl, grows.trans (here frame' found' (lt_size found))⟩
  · rw [if_neg same]
    exact ⟨_, rfl, grows⟩

/-- Giving a name another value where it is found declares nothing. -/
theorem assign (grows : store.GrowsBy executed middle) {ref owner : FrameRef} {name : String}
    {slot : Slot} (value : Value) (found : middle.nearest? ref name = some (owner, slot)) :
    store.GrowsBy executed (middle.define owner name (some value)) := by
  refine grows.define fun frame here _ => .insert_bound value (.inl ?_)
  obtain ⟨-, held, there, member⟩ :=
    search_within (fun _ => True) (fun _ _ _ _ _ _ => trivial) trivial found
  obtain rfl : held = frame := Option.some.inj (there.symm.trans here)
  exact Frame.declares_of_mem member

end GrowsBy

end Store

end Lox
