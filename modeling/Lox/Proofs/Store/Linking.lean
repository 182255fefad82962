import Lox.Proofs.Store.Frames
import Lox.Proofs.Syntax.Alike
import Lox.Proofs.Value.Results

/-!
Stores parts of which are the same.

A `Link` pairs frames of one store with frames of another, and closures of one with closures of the
other, one to one. Values are the same along a link if they are equal or closures that are paired,
with frames that are paired and code that is alike. Nothing is said of frames that are not paired:
the two stores may hold anything there.

What is paired stays so when a name is bound in paired frames, when a frame is added to both stores,
and when a closure is made in both (`Stores.define`, `Stores.addFrame`, `Stores.makeClosure`); the
new frames and the new closures become a pair. Since parents of paired frames are paired, a search
for a name from one never leaves the pairs (`Stores.nearest`).
-/

namespace Lox

/-- Pairs of frames and of closures, between stores whose code is alike up to `lines`. -/
structure Link (lines : Nat → Nat → Prop) where
  frames : FrameRef → FrameRef → Prop
  /-- Pairs of identities of closures. -/
  closures : Nat → Nat → Prop

namespace Link

variable {lines : Nat → Nat → Prop}

/-- Everything is paired with one thing at most. -/
structure OneOne (link : Link lines) : Prop where
  frames : ∀ {ref ref' other other'}, link.frames ref ref' → link.frames other other' →
    (ref = other ↔ ref' = other')
  closures : ∀ {id id' other other'}, link.closures id id' → link.closures other other' →
    (id = other ↔ id' = other')

/-- All pairs of a link are pairs of another. -/
structure Within (link later : Link lines) : Prop where
  frames : ∀ {ref ref'}, link.frames ref ref' → later.frames ref ref'
  closures : ∀ {id id'}, link.closures id id' → later.closures id id'

theorem Within.refl (link : Link lines) : link.Within link :=
  ⟨fun pair => pair, fun pair => pair⟩

theorem Within.trans {link later last : Link lines} (first : link.Within later)
    (second : later.Within last) : link.Within last :=
  ⟨fun pair => second.frames (first.frames pair), fun pair => second.closures (first.closures pair)⟩

/-- The link with one more pair of frames. -/
def addFrame (link : Link lines) (ref ref' : FrameRef) : Link lines :=
  { link with frames := fun one other => link.frames one other ∨ one = ref ∧ other = ref' }

/-- The link with one more pair of closures. -/
def addClosure (link : Link lines) (id id' : Nat) : Link lines :=
  { link with closures := fun one other => link.closures one other ∨ one = id ∧ other = id' }

theorem within_addFrame (link : Link lines) (ref ref' : FrameRef) :
    link.Within (link.addFrame ref ref') :=
  ⟨.inl, fun pair => pair⟩

theorem within_addClosure (link : Link lines) (id id' : Nat) :
    link.Within (link.addClosure id id') :=
  ⟨fun pair => pair, .inl⟩

/-! ### Values -/

/-- The same value along a link. -/
inductive Values (link : Link lines) : Value → Value → Prop where
  | nil : Values link .nil .nil
  | bool (value : Bool) : Values link (.bool value) (.bool value)
  | number (value : Float) : Values link (.number value) (.number value)
  | text (value : String) : Values link (.text value) (.text value)
  | native (given : Native) : Values link (.function (.native given)) (.function (.native given))
  | closure {made made' : Closure} (ids : link.closures made.id made'.id)
      (decls : made.decl.Alike lines made'.decl) (scopes : link.frames made.scope made'.scope) :
      Values link (.function (.closure made)) (.function (.closure made'))

/-- The same slot along a link. -/
inductive Slots (link : Link lines) : Slot → Slot → Prop where
  | uninitialized : Slots link .uninitialized .uninitialized
  | bound {value value'} (values : link.Values value value') :
      Slots link (.bound value) (.bound value')

/-- The same entry of a frame along a link. -/
structure Entries (link : Link lines) (entry entry' : String × Slot) : Prop where
  name : entry.1 = entry'.1
  slots : link.Slots entry.2 entry'.2

/-- The same contents of a frame along a link. -/
structure Contents (link : Link lines) (frame frame' : Frame) : Prop where
  entries : List.Forall₂ link.Entries frame.entries frame'.entries
  parent : Option.Rel link.frames frame.parent frame'.parent

/-- The same result of a computation along a link. -/
inductive Results (link : Link lines) : Except Fault Value → Except Fault Value → Prop where
  | ok {value value'} (values : link.Values value value') : Results link (.ok value) (.ok value')
  | error (fault : Fault) : Results link (.error fault) (.error fault)

section Within

variable {link more : Link lines} (within : link.Within more)
include within

theorem Values.mono {value value' : Value} (values : link.Values value value') :
    more.Values value value' := by
  cases values with
  | nil => exact .nil
  | bool value => exact .bool value
  | number value => exact .number value
  | text value => exact .text value
  | native given => exact .native given
  | closure ids decls scopes => exact .closure (within.closures ids) decls (within.frames scopes)

theorem Slots.mono {slot slot' : Slot} (slots : link.Slots slot slot') : more.Slots slot slot' := by
  cases slots with
  | uninitialized => exact .uninitialized
  | bound values => exact .bound (values.mono within)

theorem Contents.mono {frame frame' : Frame} (contents : link.Contents frame frame') :
    more.Contents frame frame' where
  entries := contents.entries.imp fun _ _ entries => ⟨entries.name, entries.slots.mono within⟩
  parent := by
    obtain ⟨-, parent⟩ := contents
    revert parent
    generalize frame.parent = up
    generalize frame'.parent = up'
    intro parent
    cases parent with
    | none => exact .none
    | some pair => exact .some (within.frames pair)

end Within

section Values

variable {link : Link lines} {value value' other other' : Value}

theorem Values.looks (values : link.Values value value') : value.Looks value' := by
  cases values with
  | closure ids decls scopes => exact .closures decls.name.text
  | nil | bool | number | text | native => exact .same _

theorem Values.equal (oneOne : link.OneOne) (values : link.Values value value')
    (others : link.Values other other') : value.equal other = value'.equal other' := by
  cases values with
  | closure ids decls scopes =>
      cases others with
      | closure otherIds _ _ =>
          have same := oneOne.closures ids otherIds
          simp only [Value.equal, Function.same, beq_eq_beq, same]
      | nil | bool | number | text | native => rfl
  | nil | bool | number | text | native => cases others <;> rfl

/-- A value without a frame is the same along every link. -/
theorem values_ofLiteral (link : Link lines) (value : Literal) :
    link.Values (.ofLiteral value) (.ofLiteral value) := by
  cases value <;> constructor

/-- A result without a closure is the same along every link. -/
theorem results_of_plain (link : Link lines) {result : Except Fault Value}
    (plain : PlainResult [] result) :
    link.Results result result := by
  match result with
  | .error fault => exact .error fault
  | .ok (.function (.closure made)) => exact absurd (plain made rfl) List.not_mem_nil
  | .ok (.function (.native given)) => exact .ok (.native given)
  | .ok .nil => exact .ok .nil
  | .ok (.bool value) => exact .ok (.bool value)
  | .ok (.number value) => exact .ok (.number value)
  | .ok (.text value) => exact .ok (.text value)

end Values

/-! ### Frames -/

section Frames

variable {link : Link lines} {frame frame' : Frame} {slot slot' : Slot}

theorem slots_ofOption {value value' : Option Value}
    (values : Option.Rel link.Values value value') :
    link.Slots (.ofOption value) (.ofOption value') := by
  cases values with
  | none => exact .uninitialized
  | some values => exact .bound values

theorem insertEntry_entries {entries entries' : List (String × Slot)} (name : String)
    (slots : link.Slots slot slot') (same : List.Forall₂ link.Entries entries entries') :
    List.Forall₂ link.Entries (Frame.insertEntry name slot entries)
      (Frame.insertEntry name slot' entries') := by
  induction same with
  | nil => exact .cons ⟨rfl, slots⟩ .nil
  | @cons entry entry' rest rest' first others ih =>
      obtain ⟨other, held⟩ := entry
      obtain ⟨_, held'⟩ := entry'
      obtain ⟨rfl, heldSlots⟩ := first
      rw [Frame.insertEntry, Frame.insertEntry]
      split
      · exact .cons ⟨rfl, slots⟩ others
      · split
        · exact .cons ⟨rfl, slots⟩ (.cons ⟨rfl, heldSlots⟩ others)
        · exact .cons ⟨rfl, heldSlots⟩ ih

theorem Contents.insert (contents : link.Contents frame frame') (name : String)
    (slots : link.Slots slot slot') :
    link.Contents (frame.insert name slot) (frame'.insert name slot') :=
  ⟨insertEntry_entries name slots contents.entries, contents.parent⟩

theorem Contents.find? (contents : link.Contents frame frame') (name : String) :
    Option.Rel link.Slots (frame.find? name) (frame'.find? name) := by
  obtain ⟨entries, -⟩ := contents
  unfold Frame.find?
  revert entries
  generalize frame.entries = row
  generalize frame'.entries = row'
  intro entries
  induction entries with
  | nil => exact .none
  | @cons entry entry' rest rest' first others ih =>
      obtain ⟨other, held⟩ := entry
      obtain ⟨_, held'⟩ := entry'
      obtain ⟨rfl, heldSlots⟩ := first
      simp only [List.lookup_cons]
      cases name == other with
      | true => exact .some heldSlots
      | false => exact ih

end Frames

/-! ### Stores -/

/-- Two stores that hold the same in all paired frames. -/
structure Stores (link : Link lines) (store store' : Store) : Prop where
  oneOne : link.OneOne
  contents : ∀ {ref ref'}, link.frames ref ref' → ∃ frame frame', store.frame? ref = some frame ∧
    store'.frame? ref' = some frame' ∧ link.Contents frame frame'
  /-- Parents are older than their children, on both sides. -/
  older : ∀ {ref ref' frame parent}, link.frames ref ref' → store.frame? ref = some frame →
    frame.parent = some parent → parent.index < ref.index
  older' : ∀ {ref ref' frame parent}, link.frames ref ref' → store'.frame? ref' = some frame →
    frame.parent = some parent → parent.index < ref'.index
  /-- The closures that are paired have been made. -/
  made : ∀ {id id'}, link.closures id id' → id < store.closureCount ∧ id' < store'.closureCount

/-- Where a search ends on both sides, if it does: in paired frames, which hold the same there. -/
def Found (link : Link lines) (found found' : FrameRef × Slot) : Prop :=
  link.frames found.1 found'.1 ∧ link.Slots found.2 found'.2

namespace Stores

variable {link : Link lines} {store store' : Store} {ref ref' : FrameRef}

/-- A search from paired frames goes the same way on both sides. -/
theorem search (stores : link.Stores store store') (name : String) {count count' : Nat}
    (pair : link.frames ref ref') (enough : ref.index < count) (enough' : ref'.index < count') :
    Option.Rel link.Found (store.search name count ref) (store'.search name count' ref') := by
  induction count generalizing count' ref ref' with
  | zero => exact absurd enough (Nat.not_lt_zero _)
  | succ count ih =>
      obtain ⟨fewer, rfl⟩ : ∃ fewer, count' = fewer + 1 := ⟨count' - 1, by omega⟩
      obtain ⟨frame, frame', found, found', contents⟩ := stores.contents pair
      rw [Store.search_succ name count found, Store.search_succ name fewer found']
      have slots := contents.find? name
      revert slots
      generalize frame.find? name = slot
      generalize frame'.find? name = slot'
      intro slots
      cases slots with
      | some slots => exact .some ⟨pair, slots⟩
      | none =>
          have parents := contents.parent
          have older (parent) (up : frame.parent = some parent) := stores.older pair found up
          have older' (parent) (up : frame'.parent = some parent) := stores.older' pair found' up
          revert parents older older'
          generalize frame.parent = up
          generalize frame'.parent = up'
          intro parents older older'
          cases parents with
          | none => exact .none
          | some above =>
              have above_lt := older _ rfl
              have above_lt' := older' _ rfl
              exact ih above (by omega) (by omega)

/-- Looking up a name from paired frames ends in the same way on both sides. -/
theorem nearest (stores : link.Stores store store') (name : String) (pair : link.frames ref ref') :
    Option.Rel link.Found (store.nearest? ref name) (store'.nearest? ref' name) :=
  stores.search name pair (Nat.lt_succ_self _) (Nat.lt_succ_self _)

/-- Binding a name leaves the parents of all frames. -/
theorem parent_define {name : String} {value : Option Value} {frame : Frame}
    (found : (store.define ref' name value).frame? ref = some frame) :
    ∃ before, store.frame? ref = some before ∧ before.parent = frame.parent := by
  rw [Store.frame?_define, Option.map_eq_some_iff] at found
  obtain ⟨before, found, rfl⟩ := found
  refine ⟨before, found, ?_⟩
  split <;> rfl

/-- Binding a name in paired frames. -/
theorem define (stores : link.Stores store store') (pair : link.frames ref ref') (name : String)
    {value value' : Option Value} (values : Option.Rel link.Values value value') :
    link.Stores (store.define ref name value) (store'.define ref' name value') where
  oneOne := stores.oneOne
  contents := by
    intro other other' others
    obtain ⟨frame, frame', found, found', contents⟩ := stores.contents others
    rw [Store.frame?_define, Store.frame?_define, found, found', Option.map_some, Option.map_some]
    refine ⟨_, _, rfl, rfl, ?_⟩
    have same := stores.oneOne.frames others pair
    by_cases here : other = ref
    · rw [if_pos here, if_pos (same.mp here)]
      exact contents.insert name (slots_ofOption values)
    · rw [if_neg here, if_neg fun there => here (same.mpr there)]
      exact contents
  older := by
    intro other other' frame parent others found up
    obtain ⟨before, found, same⟩ := parent_define found
    exact stores.older others found (same.trans up)
  older' := by
    intro other other' frame parent others found up
    obtain ⟨before, found, same⟩ := parent_define found
    exact stores.older' others found (same.trans up)
  made := stores.made

/-- The frames that are paired exist. -/
theorem lt_size (stores : link.Stores store store') (pair : link.frames ref ref') :
    ref.index < store.frames.size ∧ ref'.index < store'.frames.size := by
  obtain ⟨frame, frame', found, found', -⟩ := stores.contents pair
  exact ⟨Store.lt_size found, Store.lt_size found'⟩

theorem ne_nextRef (stores : link.Stores store store') (pair : link.frames ref ref') :
    ref ≠ store.nextRef ∧ ref' ≠ store'.nextRef := by
  obtain ⟨inside, inside'⟩ := stores.lt_size pair
  refine ⟨?_, ?_⟩
  · rintro rfl
    exact absurd inside (Nat.lt_irrefl _)
  · rintro rfl
    exact absurd inside' (Nat.lt_irrefl _)

/-- A new frame on both sides, under paired parents. -/
theorem addFrame (stores : link.Stores store store') {parent parent' : Option FrameRef}
    (parents : Option.Rel link.frames parent parent') :
    (link.addFrame store.nextRef store'.nextRef).Stores (store.addFrame parent).2
      (store'.addFrame parent').2 where
  oneOne := by
    refine ⟨?_, stores.oneOne.closures⟩
    rintro ref ref' other other' (pair | ⟨rfl, rfl⟩) (others | ⟨rfl, rfl⟩)
    · exact stores.oneOne.frames pair others
    · obtain ⟨apart, apart'⟩ := stores.ne_nextRef pair
      exact iff_of_false apart apart'
    · obtain ⟨apart, apart'⟩ := stores.ne_nextRef others
      exact iff_of_false (Ne.symm apart) (Ne.symm apart')
    · exact iff_of_true rfl rfl
  contents := by
    rintro ref ref' (pair | ⟨rfl, rfl⟩)
    · obtain ⟨frame, frame', found, found', contents⟩ := stores.contents pair
      obtain ⟨apart, apart'⟩ := stores.ne_nextRef pair
      rw [Store.frame?_addFrame, Store.frame?_addFrame, if_neg apart, if_neg apart']
      exact ⟨frame, frame', found, found', contents.mono (within_addFrame _ _ _)⟩
    · rw [Store.frame?_addFrame, Store.frame?_addFrame, if_pos rfl, if_pos rfl]
      refine ⟨_, _, rfl, rfl, .nil, ?_⟩
      cases parents with
      | none => exact .none
      | some pair => exact .some (.inl pair)
  older := by
    rintro ref ref' frame up (pair | ⟨rfl, rfl⟩) found above
    · rw [Store.frame?_addFrame, if_neg (stores.ne_nextRef pair).1] at found
      exact stores.older pair found above
    · rw [Store.frame?_addFrame, if_pos rfl] at found
      cases found
      obtain rfl : parent = some up := above
      cases parents with
      | some pair => exact (stores.lt_size pair).1
  older' := by
    rintro ref ref' frame up (pair | ⟨rfl, rfl⟩) found above
    · rw [Store.frame?_addFrame, if_neg (stores.ne_nextRef pair).2] at found
      exact stores.older' pair found above
    · rw [Store.frame?_addFrame, if_pos rfl] at found
      cases found
      obtain rfl : parent' = some up := above
      cases parents with
      | some pair => exact (stores.lt_size pair).2
  made := stores.made

/-- A new closure on both sides. -/
theorem makeClosure (stores : link.Stores store store') (decl decl' : FunctionDecl)
    (scope scope' : FrameRef) :
    (link.addClosure store.closureCount store'.closureCount).Stores (store.makeClosure decl scope).2
      (store'.makeClosure decl' scope').2 where
  oneOne := by
    refine ⟨stores.oneOne.frames, ?_⟩
    rintro id id' other other' (pair | ⟨rfl, rfl⟩) (others | ⟨rfl, rfl⟩)
    · exact stores.oneOne.closures pair others
    · obtain ⟨less, less'⟩ := stores.made pair
      exact iff_of_false (Nat.ne_of_lt less) (Nat.ne_of_lt less')
    · obtain ⟨less, less'⟩ := stores.made others
      exact iff_of_false (Nat.ne_of_gt less) (Nat.ne_of_gt less')
    · exact iff_of_true rfl rfl
  contents := by
    intro ref ref' pair
    obtain ⟨frame, frame', found, found', contents⟩ := stores.contents pair
    exact ⟨frame, frame', found, found', contents.mono (within_addClosure _ _ _)⟩
  older := stores.older
  older' := stores.older'
  made := by
    rintro id id' (pair | ⟨rfl, rfl⟩)
    · obtain ⟨less, less'⟩ := stores.made pair
      exact ⟨Nat.lt_succ_of_lt less, Nat.lt_succ_of_lt less'⟩
    · exact ⟨Nat.lt_succ_self _, Nat.lt_succ_self _⟩

end Stores

/-! ### Since a moment -/

/-- Two stores at some moment, and what was paired then. -/
structure Moment (lines : Nat → Nat → Prop) where
  link : Link lines
  store : Store
  store' : Store

/-- What may have become of two stores since: only paired frames have changed, and what has been
paired since has been made since, on both sides. -/
structure Since (moment : Moment lines) (link : Link lines) (store store' : Store) : Prop where
  stores : link.Stores store store'
  within : moment.link.Within link
  frames : ∀ {ref ref'}, link.frames ref ref' → moment.link.frames ref ref' ∨
    moment.store.frames.size ≤ ref.index ∧ moment.store'.frames.size ≤ ref'.index
  closures : ∀ {id id'}, link.closures id id' → moment.link.closures id id' ∨
    moment.store.closureCount ≤ id ∧ moment.store'.closureCount ≤ id'
  size : moment.store.frames.size ≤ store.frames.size ∧
    moment.store'.frames.size ≤ store'.frames.size
  count : moment.store.closureCount ≤ store.closureCount ∧
    moment.store'.closureCount ≤ store'.closureCount
  /-- A frame of the first store that was not paired is as it was. -/
  kept : ∀ ref : FrameRef, ref.index < moment.store.frames.size →
    (∀ ref', ¬ moment.link.frames ref ref') → store.frame? ref = moment.store.frame? ref
  /-- A frame of the first store that is new is paired. -/
  added : ∀ ref : FrameRef, moment.store.frames.size ≤ ref.index → ref.index < store.frames.size →
    ∃ ref', link.frames ref ref'

namespace Since

variable {moment : Moment lines} {link : Link lines} {store store' : Store} {ref ref' : FrameRef}

theorem start (stores : link.Stores store store') : Since ⟨link, store, store'⟩ link store store' :=
  ⟨stores, .refl link, .inl, .inl, ⟨Nat.le_refl _, Nat.le_refl _⟩, ⟨Nat.le_refl _, Nat.le_refl _⟩,
    fun _ _ _ => rfl, fun _ new inside => absurd inside (Nat.not_lt.mpr new)⟩

theorem define (since : Since moment link store store') (pair : link.frames ref ref')
    (name : String) {value value' : Option Value} (values : Option.Rel link.Values value value') :
    Since moment link (store.define ref name value) (store'.define ref' name value') :=
  { since with
    stores := since.stores.define pair name values
    size := by
      rw [Store.size_define, Store.size_define]
      exact since.size
    kept := by
      intro other inside apart
      have elsewhere : other ≠ ref := by
        rintro rfl
        rcases since.frames pair with before | ⟨outside, -⟩
        · exact apart _ before
        · omega
      rw [Store.frame?_define, ← since.kept other inside apart]
      simp [elsewhere]
    added := by
      intro other new inside
      rw [Store.size_define] at inside
      exact since.added other new inside }

theorem addFrame (since : Since moment link store store') {parent parent' : Option FrameRef}
    (parents : Option.Rel link.frames parent parent') :
    Since moment (link.addFrame store.nextRef store'.nextRef) (store.addFrame parent).2
      (store'.addFrame parent').2 where
  stores := since.stores.addFrame parents
  within := since.within.trans (within_addFrame _ _ _)
  frames := by
    rintro ref ref' (pair | ⟨rfl, rfl⟩)
    · exact since.frames pair
    · exact .inr since.size
  closures := since.closures
  size := by
    rw [Store.size_addFrame, Store.size_addFrame]
    exact ⟨Nat.le_succ_of_le since.size.1, Nat.le_succ_of_le since.size.2⟩
  count := since.count
  kept := by
    intro other inside apart
    have older : other ≠ store.nextRef := by
      rintro rfl
      exact absurd (Nat.lt_of_lt_of_le inside since.size.1) (Nat.lt_irrefl _)
    rw [Store.frame?_addFrame, if_neg older, since.kept other inside apart]
  added := by
    intro other new inside
    rw [Store.size_addFrame] at inside
    by_cases last : other = store.nextRef
    · exact ⟨_, .inr ⟨last, rfl⟩⟩
    · have less : other.index ≠ store.frames.size := fun same => last (congrArg FrameRef.mk same)
      obtain ⟨other', pair⟩ := since.added other new (by omega)
      exact ⟨other', .inl pair⟩

theorem makeClosure (since : Since moment link store store') (decl decl' : FunctionDecl)
    (scope scope' : FrameRef) :
    Since moment (link.addClosure store.closureCount store'.closureCount)
      (store.makeClosure decl scope).2 (store'.makeClosure decl' scope').2 where
  stores := since.stores.makeClosure decl decl' scope scope'
  within := since.within.trans (within_addClosure _ _ _)
  frames := since.frames
  closures := by
    rintro id id' (pair | ⟨rfl, rfl⟩)
    · exact since.closures pair
    · exact .inr since.count
  size := since.size
  count := ⟨Nat.le_succ_of_le since.count.1, Nat.le_succ_of_le since.count.2⟩
  kept := since.kept
  added := since.added

end Since

end Link

/-- A function of the host that does the same with arguments that are the same along any link. -/
def HostFunction.Parametric (lines : Nat → Nat → Prop) (function : HostFunction) : Prop :=
  ∀ result, function.action = .compute result → ∀ (link : Link lines), link.OneOne →
    ∀ values values', List.Forall₂ link.Values values values' →
      link.Results (result values) (result values')

end Lox
