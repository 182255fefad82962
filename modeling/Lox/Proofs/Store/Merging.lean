import Lox.Proofs.Store.Frames

/-!
Stores that are the same but for blank frames.

A frame in which nothing is bound makes no difference to a search, which goes on to its parent. A
`Merging` takes the frames of one store into those of another that lacks some blank ones: a blank
frame goes where its parent goes, and every other frame stays above all frames that are older
(`Kept`). Values go along, a closure with the frame that it was declared in.

The relation is kept when a name is bound in a frame that is not blank and when frames are added, to
both stores or, blank ones, to the first only (`Relates.define`, `Relates.addBoth`,
`Relates.addBlank`). Each time the merging only grows, so that what is known of older frames stays
true (`Merging.Later`).
-/

namespace Lox

/-! ### Renaming frames -/

/-- The same closure with its frame renamed. -/
def Closure.rename (into : FrameRef → FrameRef) (closure : Closure) : Closure :=
  { closure with scope := into closure.scope }

/-- The same value with frames renamed. -/
def Value.rename (into : FrameRef → FrameRef) : Value → Value
  | .function (.closure closure) => .function (.closure (closure.rename into))
  | value => value

/-- The same slot with frames renamed. -/
def Slot.rename (into : FrameRef → FrameRef) : Slot → Slot
  | .uninitialized => .uninitialized
  | .bound value => .bound (value.rename into)

/-- The same frame with frames renamed. -/
def Frame.rename (into : FrameRef → FrameRef) (frame : Frame) : Frame :=
  ⟨frame.entries.map fun entry => (entry.1, entry.2.rename into), frame.parent.map into⟩

theorem Slot.rename_ofOption (into : FrameRef → FrameRef) (value : Option Value) :
    (Slot.ofOption value).rename into = .ofOption (value.map (·.rename into)) := by
  cases value <;> rfl

theorem Value.rename_id (value : Value) : value.rename id = value := by
  rcases value with _ | _ | _ | _ | _ | _ <;> rfl

theorem Slot.rename_id (slot : Slot) : slot.rename id = slot := by
  cases slot with
  | uninitialized => rfl
  | bound value => exact congrArg bound value.rename_id

namespace Frame

theorem rename_id (frame : Frame) : frame.rename id = frame := by
  simp [rename, Slot.rename_id]

theorem find?_rename (into : FrameRef → FrameRef) (frame : Frame) (name : String) :
    (frame.rename into).find? name = (frame.find? name).map (·.rename into) :=
  lookup_map (·.rename into) name frame.entries

theorem rename_insert (into : FrameRef → FrameRef) (frame : Frame) (name : String) (slot : Slot) :
    (frame.insert name slot).rename into = (frame.rename into).insert name (slot.rename into) := by
  simp only [insert, rename, insertEntry_map (·.rename into)]

end Frame

/-! ### Well-formed stores -/

/-- A value whose frame, if it has one, is one of the first so many. -/
def Value.Below (size : Nat) (value : Value) : Prop :=
  ∀ closure, value = .function (.closure closure) → closure.scope.index < size

theorem Value.Below.of_le {size more : Nat} {value : Value} (below : value.Below size)
    (le : size ≤ more) :
    value.Below more :=
  fun closure same => Nat.lt_of_lt_of_le (below closure same) le

theorem Value.rename_congr {into other : FrameRef → FrameRef} {size : Nat} {value : Value}
    (below : value.Below size) (same : ∀ ref : FrameRef, ref.index < size → other ref = into ref) :
    value.rename other = value.rename into := by
  match value with
  | .function (.closure closure) =>
      simp only [rename, Closure.rename, same closure.scope (below closure rfl)]
  | .function (.native _) | .nil | .bool _ | .number _ | .text _ => rfl

/-- A store in which parents are older than their children and closures have frames that exist. -/
structure Store.WellFormed (store : Store) : Prop where
  older : ∀ ref frame parent, store.frame? ref = some frame → frame.parent = some parent →
    parent.index < ref.index
  scopes : ∀ ref frame name value,
    store.frame? ref = some frame → (name, .bound value) ∈ frame.entries →
    value.Below store.frames.size

namespace Store.WellFormed

variable {store : Store}

theorem empty : Store.empty.WellFormed where
  older ref frame parent found := by simp [frame?, Store.empty] at found
  scopes ref frame name value found := by simp [frame?, Store.empty] at found

theorem addFrame (formed : store.WellFormed) {parent : Option FrameRef}
    (inside : ∀ ref ∈ parent, ref.index < store.frames.size) :
    (store.addFrame parent).2.WellFormed where
  older ref frame up found same := by
    rw [frame?_addFrame] at found
    split at found
    · rename_i here
      cases found
      rw [here]
      exact inside up same
    · exact formed.older ref frame up found same
  scopes ref frame name value found member := by
    rw [frame?_addFrame] at found
    rw [size_addFrame]
    split at found
    · cases found
      cases member
    · exact (formed.scopes ref frame name value found member).of_le (Nat.le_succ _)

theorem define (formed : store.WellFormed) (ref : FrameRef) (name : String) {value : Option Value}
    (below : ∀ given ∈ value, given.Below store.frames.size) :
    (store.define ref name value).WellFormed where
  older other frame parent found up := by
    rw [frame?_define, Option.map_eq_some_iff] at found
    obtain ⟨before, found, rfl⟩ := found
    refine formed.older other before parent found ?_
    split at up
    · exact up
    · exact up
  scopes other frame bound held found member := by
    rw [frame?_define, Option.map_eq_some_iff] at found
    obtain ⟨before, found, rfl⟩ := found
    rw [size_define]
    split at member
    · rcases Frame.mem_insert member with same | member
      · cases value with
        | none => cases same
        | some given =>
            cases same
            exact below _ rfl
      · exact formed.scopes other before bound held found member
    · exact formed.scopes other before bound held found member

end Store.WellFormed

theorem Frame.rename_congr {into other : FrameRef → FrameRef} {store : Store} {ref : FrameRef}
    {frame : Frame} (formed : store.WellFormed) (found : store.frame? ref = some frame)
    (same : ∀ ref : FrameRef, ref.index < store.frames.size → other ref = into ref) :
    frame.rename other = frame.rename into := by
  rcases frame with ⟨entries, parent⟩
  simp only [rename, mk.injEq]
  constructor
  · refine List.map_congr_left fun entry member => ?_
    rcases entry with ⟨name, _ | value⟩
    · rfl
    · have below := formed.scopes ref _ name value found member
      simp only [Slot.rename, Value.rename_congr below same]
  · cases parent with
    | none => rfl
    | some parent =>
        have older := formed.older ref _ parent found rfl
        have inside := Store.lt_size found
        rw [Option.map_some, Option.map_some, same parent (by omega)]

/-! ### Mergings -/

/-- Where the frames of a store go, and how many there are. -/
structure Merging where
  into : FrameRef → FrameRef
  size : Nat

namespace Merging

/-- A frame that stays apart from all that are older. -/
def Kept (merging : Merging) (ref : FrameRef) : Prop :=
  ∀ older : FrameRef, older.index < ref.index →
    (merging.into older).index < (merging.into ref).index

/-- A value of one store and the same in the other. -/
def Same (merging : Merging) (left right : Value) : Prop :=
  right = left.rename merging.into ∧ left.Below merging.size

/-- More frames, while the older ones go where they went. -/
structure Later (merging later : Merging) : Prop where
  size : merging.size ≤ later.size
  into : ∀ ref : FrameRef, ref.index < merging.size → later.into ref = merging.into ref

/-- The frames of the second store are those of the first, but for blank ones. -/
structure Relates (merging : Merging) (left right : Store) : Prop where
  size : left.frames.size = merging.size
  closures : right.closureCount = left.closureCount
  formed : left.WellFormed
  frames : ∀ ref frame, left.frame? ref = some frame →
    merging.Kept ref ∧ right.frame? (merging.into ref) = some (frame.rename merging.into) ∨
      frame.entries = [] ∧ ∃ parent,
        frame.parent = some parent ∧ merging.into ref = merging.into parent
  inside : ∀ ref : FrameRef, ref.index < merging.size → (merging.into ref).index < right.frames.size

theorem Later.refl (merging : Merging) : merging.Later merging :=
  ⟨Nat.le_refl _, fun _ _ => rfl⟩

theorem Later.trans {first second third : Merging} (left : first.Later second)
    (right : second.Later third) : first.Later third where
  size := Nat.le_trans left.size right.size
  into ref inside :=
    (right.into ref (Nat.lt_of_lt_of_le inside left.size)).trans (left.into ref inside)

section Later

variable {merging later : Merging} {ref : FrameRef} {left right : Value}

theorem Later.kept (grows : merging.Later later) (inside : ref.index < merging.size)
    (kept : merging.Kept ref) : later.Kept ref := by
  intro older less
  rw [grows.into older (by omega), grows.into ref inside]
  exact kept older less

theorem Later.same (grows : merging.Later later) (same : merging.Same left right) :
    later.Same left right := by
  obtain ⟨rfl, below⟩ := same
  exact ⟨(Value.rename_congr below grows.into).symm, below.of_le grows.size⟩

theorem Kept.injective {other : FrameRef} (kept : merging.Kept ref) (keptOther : merging.Kept other)
    (same : merging.into ref = merging.into other) : ref = other := by
  rcases Nat.lt_trichotomy ref.index other.index with less | equal | more
  · have apart := keptOther ref less
    rw [same] at apart
    omega
  · cases ref
    cases other
    simpa using equal
  · have apart := kept other more
    rw [same] at apart
    omega

end Later

namespace Relates

variable {merging : Merging} {left right : Store} {ref : FrameRef}

/-- A frame that does not stay apart is blank. -/
theorem blank_of_merged (relates : merging.Relates left right) {frame : Frame} {parent : FrameRef}
    (found : left.frame? ref = some frame) (up : frame.parent = some parent)
    (merged : merging.into ref = merging.into parent) : ¬ merging.Kept ref := by
  intro kept
  have apart := kept parent (relates.formed.older ref frame parent found up)
  rw [merged] at apart
  omega

/-- A search goes through both stores alike and ends in a frame that is not blank. -/
theorem search (relates : merging.Relates left right) (name : String) {count more : Nat}
    (enough : ref.index < count) (enoughMore : (merging.into ref).index < more)
    (inside : ref.index < merging.size) :
    right.search name more (merging.into ref) =
        (left.search name count ref).map
          (fun found => (merging.into found.1, found.2.rename merging.into)) ∧
      ∀ owner slot, left.search name count ref = some (owner, slot) → merging.Kept owner := by
  induction count generalizing ref more with
  | zero => omega
  | succ count ih =>
      obtain ⟨frame, found⟩ := Store.frame?_of_lt (relates.size ▸ inside)
      rw [Store.search_succ name count found]
      rcases relates.frames ref frame found with ⟨kept, foundRight⟩ | ⟨blank, parent, up, merged⟩
      · obtain ⟨less, rfl⟩ : ∃ less, more = less + 1 := ⟨more - 1, by omega⟩
        rw [Store.search_succ name less foundRight, Frame.find?_rename]
        cases frame.find? name with
        | some slot =>
            refine ⟨rfl, ?_⟩
            rintro owner other ⟨⟩
            exact kept
        | none =>
            simp only [Option.map_none, Frame.rename]
            cases up : frame.parent with
            | none => exact ⟨rfl, by simp⟩
            | some parent =>
                have older := relates.formed.older ref frame parent found up
                have olderRight := kept parent older
                exact ih (by omega) (by omega) (by omega)
      · have older := relates.formed.older ref frame parent found up
        have absent : frame.find? name = none := by
          rw [Frame.find?, blank]
          rfl
        rw [absent, up, merged]
        exact ih (by omega) (merged ▸ enoughMore) (by omega)

theorem nearest (relates : merging.Relates left right) (name : String)
    (inside : ref.index < merging.size) :
    right.nearest? (merging.into ref) name =
        (left.nearest? ref name).map
          (fun found => (merging.into found.1, found.2.rename merging.into)) ∧
      ∀ owner slot, left.nearest? ref name = some (owner, slot) →
        merging.Kept owner ∧ owner.index < merging.size ∧
          ∀ value, slot = .bound value → value.Below merging.size := by
  obtain ⟨same, kept⟩ := relates.search name (Nat.lt_succ_self ref.index)
    (Nat.lt_succ_self (merging.into ref).index) inside
  refine ⟨same, fun owner slot found => ⟨kept owner slot found, ?_⟩⟩
  obtain ⟨-, frame, here, member⟩ := Store.search_within (fun _ => True)
    (fun _ _ _ _ _ _ => trivial) trivial found
  rw [← relates.size]
  refine ⟨Store.lt_size here, ?_⟩
  rintro value rfl
  exact relates.formed.scopes owner frame name value here member

theorem define (relates : merging.Relates left right) (kept : merging.Kept ref)
    (name : String) {value : Option Value} (below : ∀ given ∈ value, given.Below merging.size) :
    merging.Relates (left.define ref name value)
      (right.define (merging.into ref) name (value.map (·.rename merging.into))) where
  size := by rw [Store.size_define, relates.size]
  closures := relates.closures
  formed := relates.formed.define ref name (relates.size ▸ below)
  frames other frame found := by
    rw [Store.frame?_define, Option.map_eq_some_iff] at found
    obtain ⟨before, found, rfl⟩ := found
    rcases relates.frames other before found with ⟨keptOther, foundRight⟩
        | ⟨blank, parent, up, merged⟩
    · refine .inl ⟨keptOther, ?_⟩
      rw [Store.frame?_define, foundRight, Option.map_some]
      by_cases here : other = ref
      · rw [if_pos here, if_pos (here ▸ rfl), Frame.rename_insert, Slot.rename_ofOption]
      · have apart : merging.into other ≠ merging.into ref := fun same =>
          here (keptOther.injective kept same)
        rw [if_neg here, if_neg apart]
    · have other : other ≠ ref := by
        rintro rfl
        exact relates.blank_of_merged found up merged kept
      rw [if_neg other]
      exact .inr ⟨blank, parent, up, merged⟩
  inside other less := by
    rw [Store.size_define]
    exact relates.inside other less

end Relates

/-! ### New frames -/

variable {merging : Merging} {left right : Store}

/-- The merging with one more frame, which goes to a given place. -/
def extend (merging : Merging) (place : FrameRef) : Merging where
  into ref := if ref.index = merging.size then place else merging.into ref
  size := merging.size + 1

theorem later_extend (merging : Merging) (place : FrameRef) :
    merging.Later (merging.extend place) where
  size := Nat.le_succ _
  into _ inside := if_neg (Nat.ne_of_lt inside)

@[simp] theorem extend_into_size (merging : Merging) (place : FrameRef) :
    (merging.extend place).into ⟨merging.size⟩ = place :=
  if_pos rfl

/-- A frame is added to the first store; the second one has another, or goes on with the parent. -/
theorem Relates.extend {other : Store} (relates : merging.Relates left right) {parent : FrameRef}
    (inside : parent.index < merging.size) (place : FrameRef)
    (closures : other.closureCount = right.closureCount)
    (kept : ∀ ref frame, right.frame? ref = some frame → other.frame? ref = some frame)
    (present : place.index < other.frames.size)
    (new : (merging.extend place).Kept ⟨merging.size⟩ ∧
        other.frame? place = some ⟨[], some (merging.into parent)⟩ ∨ place = merging.into parent) :
    (merging.extend place).Relates (left.addChild parent).2 other := by
  have later := merging.later_extend place
  have next : left.nextRef = ⟨merging.size⟩ := by rw [Store.nextRef, relates.size]
  have size : (left.addChild parent).2.frames.size = merging.size + 1 := by
    rw [Store.addChild, Store.size_addFrame, relates.size]
  have formed : (left.addChild parent).2.WellFormed := by
    refine relates.formed.addFrame ?_
    rintro ref ⟨⟩
    rwa [relates.size]
  refine ⟨size, closures.trans relates.closures, formed, ?_, ?_⟩
  · intro ref frame found
    rw [Store.addChild, Store.frame?_addFrame, next] at found
    split at found
    · rename_i here
      cases found
      rw [here, extend_into_size]
      rcases new with ⟨apart, foundOther⟩ | rfl
      · refine .inl ⟨apart, ?_⟩
        rw [foundOther, Frame.rename, Option.map_some, later.into parent inside]
        rfl
      · exact .inr ⟨rfl, parent, rfl, (later.into parent inside).symm⟩
    · have old : ref.index < merging.size := relates.size ▸ Store.lt_size found
      rcases relates.frames ref frame found with ⟨apart, foundRight⟩ | ⟨blank, up, same, merged⟩
      · refine .inl ⟨later.kept old apart, ?_⟩
        rw [later.into ref old, kept _ _ foundRight]
        exact congrArg some
          (Frame.rename_congr relates.formed found (relates.size ▸ later.into)).symm
      · have older := relates.formed.older ref frame up found same
        refine .inr ⟨blank, up, same, ?_⟩
        rw [later.into ref old, later.into up (by omega), merged]
  · intro ref less
    rcases Nat.lt_succ_iff_lt_or_eq.mp less with old | here
    · rw [later.into ref old]
      obtain ⟨frame, found⟩ := Store.frame?_of_lt (relates.inside ref old)
      exact Store.lt_size (kept _ _ found)
    · obtain rfl : ref = ⟨merging.size⟩ := by rw [← here]
      rwa [extend_into_size]

/-- Both stores have a new frame. -/
theorem Relates.addBoth (relates : merging.Relates left right) {parent : FrameRef}
    (inside : parent.index < merging.size) :
    (merging.extend right.nextRef).Kept ⟨merging.size⟩ ∧
      (merging.extend right.nextRef).Relates (left.addChild parent).2
        (right.addChild (merging.into parent)).2 := by
  have kept : (merging.extend right.nextRef).Kept ⟨merging.size⟩ := by
    intro older less
    rw [extend_into_size, (merging.later_extend _).into older less]
    exact relates.inside older less
  refine ⟨kept, relates.extend inside _ rfl ?_ ?_ (.inl ⟨kept, ?_⟩)⟩
  · intro ref _ found
    have apart : ref ≠ right.nextRef := by
      rintro rfl
      exact absurd (Store.lt_size found) (Nat.lt_irrefl _)
    rw [Store.addChild, Store.frame?_addFrame, if_neg apart, found]
  · rw [Store.addChild, Store.size_addFrame]
    exact Nat.lt_succ_self _
  · rw [Store.addChild, Store.frame?_addFrame, if_pos rfl]

/-- The first store has a new frame, and the second one goes on with its parent. -/
theorem Relates.addBlank (relates : merging.Relates left right) {parent : FrameRef}
    (inside : parent.index < merging.size) :
    (merging.extend (merging.into parent)).Relates (left.addChild parent).2 right :=
  relates.extend inside _ rfl (fun _ _ found => found) (relates.inside parent inside) (.inr rfl)

/-! ### The identity -/

/-- Every frame of a store stays where it is. -/
def identity (store : Store) : Merging := ⟨id, store.frames.size⟩

theorem kept_identity (store : Store) (ref : FrameRef) : (identity store).Kept ref :=
  fun _ less => less

theorem relates_identity {store : Store} (formed : store.WellFormed) :
    (identity store).Relates store store where
  size := rfl
  closures := rfl
  formed := formed
  frames ref frame found := by
    refine .inl ⟨kept_identity store ref, ?_⟩
    rw [identity, Frame.rename_id]
    exact found
  inside ref inside := inside

end Merging

end Lox
