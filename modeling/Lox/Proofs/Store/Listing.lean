import Lox.Proofs.Decimal.Digits
import Lox.Proofs.Store.Chains
import Lox.Proofs.Text.Bytes

/-!
The listing of a frame.

Frames are kept in the order of their names (`Built.ordered`), so a frame is determined by what it
has for each name, and so is its listing, however the names came to be bound
(`Ordered.entries_unique`).

The listing has an entry for each name, and an entry is printed as it is. It takes one line as long
as there is no newline in it (`pieces_dump`, `one_line_each_iff`), and then the names can be read
back. A string that holds a newline breaks its entry up, and what follows may look like an entry of
a name that is not declared (`listing_forged`).
-/

namespace Lox

/-! ### Lines -/

namespace Text

/-- What stands between the newlines of a text. -/
def pieces (text : String) : List (List Char) :=
  text.toList.splitOn '\n'

theorem pieces_eq_singleton {text : String} (free : '\n' ∉ text.toList) :
    pieces text = [text.toList] :=
  List.splitOn_eq_singleton free

theorem length_pieces (text : String) : (pieces text).length = text.toList.count '\n' + 1 := by
  rw [pieces]
  induction text.toList with
  | nil => rfl
  | cons c rest ih =>
      rw [List.splitOn_cons_eq_if_modifyHead, List.count_cons]
      split
      · rw [List.length_cons, ih]
      · rw [List.length_modifyHead, ih, Nat.add_zero]

/-- A row of texts with newlines between them is in the pieces that these are in. -/
theorem pieces_intercalate (first : String) (rest : List String) :
    pieces ("\n".intercalate (first :: rest)) = (first :: rest).flatMap pieces := by
  induction rest generalizing first with
  | nil => simp [String.intercalate_singleton]
  | cons second rest ih =>
      rw [String.intercalate_cons_cons, List.flatMap_cons, ← ih second, pieces, pieces, pieces,
        String.toList_append, String.toList_append, List.append_assoc]
      exact List.splitOn_append_cons_self _ _

theorem length_le_pieces (texts : List String) : texts.length ≤ (texts.flatMap pieces).length := by
  induction texts with
  | nil => exact Nat.le_refl _
  | cons first rest ih =>
      rw [List.flatMap_cons, List.length_append, length_pieces, List.length_cons]
      omega

/-- There are as many pieces as texts exactly if each text is in one piece. -/
theorem length_pieces_eq_iff (texts : List String) :
    (texts.flatMap pieces).length = texts.length ↔ ∀ text ∈ texts, '\n' ∉ text.toList := by
  induction texts with
  | nil => simp
  | cons first rest ih =>
      have least := length_le_pieces rest
      rw [List.forall_mem_cons, ← ih, List.flatMap_cons, List.length_append, length_pieces,
        List.length_cons,
        ← List.count_eq_zero]
      omega

theorem pieces_of_free {texts : List String} (free : ∀ text ∈ texts, '\n' ∉ text.toList) :
    texts.flatMap pieces = texts.map String.toList := by
  induction texts with
  | nil => rfl
  | cons first rest ih =>
      obtain ⟨here, later⟩ := List.forall_mem_cons.mp free
      rw [List.flatMap_cons, pieces_eq_singleton here, ih later]
      rfl

end Text

/-! ### Order -/

namespace Frame

variable {frame frame' : Frame} {name : String} {slot : Slot}

/-- The entries of a frame are in the order of their names. -/
def Ordered (frame : Frame) : Prop :=
  frame.entries.Pairwise fun first second => first.1 < second.1

theorem ordered_insertEntry {entries : List (String × Slot)} (name : String) (slot : Slot)
    (ordered : entries.Pairwise fun first second => first.1 < second.1) :
    (insertEntry name slot entries).Pairwise fun first second => first.1 < second.1 := by
  induction entries with
  | nil => exact List.pairwise_singleton _ _
  | cons first rest ih =>
      obtain ⟨other, held⟩ := first
      obtain ⟨before, ofRest⟩ := List.pairwise_cons.mp ordered
      rw [insertEntry]
      by_cases same : name = other
      · subst same
        rw [if_pos (beq_self_eq_true name)]
        exact List.pairwise_cons.mpr ⟨before, ofRest⟩
      · rw [if_neg (mt beq_iff_eq.mp same)]
        by_cases less : name < other
        · rw [if_pos less]
          refine List.pairwise_cons.mpr
            ⟨List.forall_mem_cons.mpr ⟨less, fun entry member => ?_⟩, ordered⟩
          exact lt_trans less (before entry member)
        · rw [if_neg less]
          have greater : other < name := lt_of_le_of_ne (not_lt.mp less) (Ne.symm same)
          refine List.pairwise_cons.mpr ⟨fun entry member => ?_, ih ofRest⟩
          rcases mem_insertEntry member with rfl | member
          · exact greater
          · exact before entry member

namespace Ordered

theorem insert (ordered : frame.Ordered) (name : String) (slot : Slot) :
    (frame.insert name slot).Ordered :=
  ordered_insertEntry name slot ordered

/-- A frame has for a name what its entry says. -/
theorem find?_eq_some_iff (ordered : frame.Ordered) :
    frame.find? name = some slot ↔ (name, slot) ∈ frame.entries := by
  refine ⟨mem_of_find?, fun member => ?_⟩
  obtain ⟨before, after, entries⟩ := List.append_of_mem member
  rw [find?, List.lookup_eq_some_iff]
  refine ⟨before, after, entries, fun entry earlier => bne_iff_ne.mpr ?_⟩
  rw [Ordered, entries] at ordered
  exact (ordered.rel_of_mem_append earlier List.mem_cons_self).ne'

/-- Frames that have the same for each name have the same entries. -/
theorem entries_unique (ordered : frame.Ordered) (ordered' : frame'.Ordered)
    (same : ∀ name, frame.find? name = frame'.find? name) : frame.entries = frame'.entries := by
  have nodup : ∀ entries : List (String × Slot),
      entries.Pairwise (fun first second => first.1 < second.1) → entries.Nodup :=
    fun entries pairwise => pairwise.imp fun less same => less.ne (congrArg Prod.fst same)
  have perm : frame.entries.Perm frame'.entries := by
    rw [List.perm_ext_iff_of_nodup (nodup _ ordered) (nodup _ ordered')]
    rintro ⟨name, slot⟩
    rw [← ordered.find?_eq_some_iff, ← ordered'.find?_eq_some_iff, same]
  exact perm.eq_of_pairwise (fun _ _ _ _ less greater => absurd greater (lt_asymm less))
    ordered ordered'

end Ordered

end Frame

namespace Store

variable {store : Store} {ref : FrameRef} {frame : Frame}

/-- All frames of a store are in order. -/
def Ordered (store : Store) : Prop :=
  ∀ ref frame, store.frame? ref = some frame → frame.Ordered

theorem Ordered.addFrame (ordered : store.Ordered) (parent : Option FrameRef) :
    (store.addFrame parent).2.Ordered := by
  intro ref frame found
  rw [frame?_addFrame] at found
  split at found
  · cases found
    exact .nil
  · exact ordered ref frame found

theorem Ordered.define (ordered : store.Ordered) (ref : FrameRef) (name : String)
    (value : Option Value) :
    (store.define ref name value).Ordered := by
  intro other frame found
  rw [frame?_define, Option.map_eq_some_iff] at found
  obtain ⟨before, there, rfl⟩ := found
  have kept := ordered other before there
  split
  · exact kept.insert name _
  · exact kept

theorem Built.ordered (built : store.Built) : store.Ordered := by
  induction built with
  | empty =>
      intro ref frame found
      simp [frame?, Store.empty] at found
  | root _ ih => exact ih.addFrame none
  | child _ _ ih => exact ih.addFrame _
  | define _ _ name value ih => exact ih.define _ name value
  | @assign store after ref name value _ assigned ih =>
      rw [Store.assign] at assigned
      split at assigned <;> cases assigned
      exact ih.define _ _ _

end Store

/-! ### Listings -/

/-- The text of a slot. -/
def Slot.text : Slot → String
  | .uninitialized => "<uninitialized>"
  | .bound value => value.render

theorem Decimal.newline_not_mem_text (x : Float) : '\n' ∉ (text x).toList := by
  have formed := wellFormed_ofFloat x
  rw [text]
  cases number : Binary.ofFloat x with
  | notANumber => decide
  | infinite negative => cases negative <;> decide
  | finite negative m q =>
      rw [number] at formed
      have free : '\n' ∉ magnitude m q := fun member =>
        absurd ((magnitude_spec formed).1.digits _ member) (by decide)
      rw [Binary.toList_text_finite]
      cases negative
      · exact free
      · exact List.not_mem_cons_of_ne_of_not_mem (by decide) free

/-- Of all values only strings and functions have newlines in their texts, and functions only in
their names. -/
theorem Value.newline_of_render {value : Value} (newline : '\n' ∈ value.render.toList) :
    (∃ text, value = .text text ∧ '\n' ∈ text.toList) ∨
      ∃ function, value = .function function ∧ '\n' ∈ function.name.toList := by
  cases value with
  | nil => exact absurd newline (by decide)
  | bool value => cases value <;> exact absurd newline (by decide)
  | number value => exact absurd newline (Decimal.newline_not_mem_text value)
  | text text => exact .inl ⟨text, rfl, newline⟩
  | function function =>
      refine .inr ⟨function, rfl, ?_⟩
      cases function <;> simpa [render, Function.text, Function.name] using newline

namespace Frame

variable {frame : Frame}

/-- What the listing of a frame says of a name. -/
def line (frame : Frame) (name : String) : String :=
  name ++ " = " ++ (frame.find? name).elim "" Slot.text

theorem entryLine_eq (name : String) (slot : Slot) :
    entryLine (name, slot) = name ++ " = " ++ slot.text := by
  cases slot with
  | bound value => rfl
  | uninitialized =>
      rw [String.append_assoc]
      rfl

theorem Ordered.lines_eq (ordered : frame.Ordered) :
    frame.entries.map entryLine = frame.names.map frame.line := by
  rw [names, List.map_map]
  refine List.map_congr_left fun entry member => ?_
  rw [Function.comp_apply, line, ordered.find?_eq_some_iff.mpr member, entryLine_eq]
  rfl

theorem mem_names (name : String) : name ∈ frame.names ↔ frame.declares name := by
  rw [names, List.mem_map]
  constructor
  · rintro ⟨⟨name, slot⟩, member, rfl⟩
    exact declares_of_mem member
  · intro declares
    obtain ⟨slot, found⟩ := Option.isSome_iff_exists.mp declares
    exact ⟨_, mem_of_find? found, rfl⟩

theorem dump_of_entries (holds : frame.entries ≠ []) :
    frame.dump = "\n".intercalate (frame.entries.map entryLine) :=
  if_neg (by simpa [isEmpty] using holds)

theorem equals_mem_entryLine (entry : String × Slot) : '=' ∈ (entryLine entry).toList := by
  rw [entryLine_eq, String.toList_append, String.toList_append, List.mem_append, List.mem_append]
  exact .inl (.inr (by decide))

/-- Only a frame without names is listed as empty: entries have an equals sign in them. -/
theorem dump_eq_empty_iff : frame.dump = "[Empty Environment]" ↔ frame.entries = [] := by
  refine ⟨fun same => ?_, fun none => if_pos (by simp [isEmpty, none])⟩
  by_contra holds
  obtain ⟨first, rest, entries⟩ := List.exists_cons_of_ne_nil holds
  have equals : '=' ∈ frame.dump.toList := by
    rw [dump_of_entries holds, entries, List.map_cons]
    cases rest with
    | nil =>
        rw [List.map_nil, String.intercalate_singleton]
        exact equals_mem_entryLine first
    | cons second rest =>
        rw [List.map_cons, String.intercalate_cons_cons, String.append_assoc, String.toList_append]
        exact List.mem_append_left _ (equals_mem_entryLine first)
  rw [same] at equals
  exact absurd equals (by decide)

theorem Ordered.pieces_dump (ordered : frame.Ordered) (holds : frame.names ≠ []) :
    Text.pieces frame.dump = (frame.names.map frame.line).flatMap Text.pieces := by
  have entries : frame.entries ≠ [] := fun none => holds (by rw [names, none, List.map_nil])
  obtain ⟨first, rest, lines⟩ := List.exists_cons_of_ne_nil (mt List.map_eq_nil_iff.mp holds)
  rw [dump_of_entries entries, ordered.lines_eq, lines, Text.pieces_intercalate]

/-- The name of an entry is what stands before the first space, if the name has none. -/
theorem takeWhile_line {name : String} (free : ' ' ∉ name.toList) :
    (frame.line name).toList.takeWhile (· != ' ') = name.toList := by
  rw [line, String.append_assoc, String.toList_append,
    List.takeWhile_append_of_pos fun c member => ?_,
    String.toList_append]
  · exact List.append_nil _
  · exact bne_iff_ne.mpr (ne_of_mem_of_not_mem member free)

theorem entries_eq_nil_iff : frame.entries = [] ↔ ∀ name, ¬ frame.declares name := by
  simp only [← mem_names, ← List.eq_nil_iff_forall_not_mem, names, List.map_eq_nil_iff]

theorem Ordered.names_in_order (ordered : frame.Ordered) :
    frame.names.Pairwise fun name name' => Text.bytes name < Text.bytes name' :=
  List.pairwise_map.mpr (ordered.imp Text.bytes_lt_of_lt)

theorem Ordered.one_line_each_iff (ordered : frame.Ordered) (holds : frame.names ≠ []) :
    (Text.pieces frame.dump).length = frame.names.length ↔
      ∀ name ∈ frame.names, '\n' ∉ (frame.line name).toList := by
  rw [ordered.pieces_dump holds, ← List.length_map (f := frame.line), Text.length_pieces_eq_iff,
    List.forall_mem_map]

theorem Ordered.names_read_back (ordered : frame.Ordered) (holds : frame.names ≠ [])
    (free : ∀ name ∈ frame.names, '\n' ∉ (frame.line name).toList ∧ ' ' ∉ name.toList) :
    (Text.pieces frame.dump).map (List.takeWhile (· != ' ')) = frame.names.map String.toList := by
  have lines : ∀ line ∈ frame.names.map frame.line, '\n' ∉ line.toList :=
    List.forall_mem_map.mpr fun name member => (free name member).1
  rw [ordered.pieces_dump holds, Text.pieces_of_free lines, List.map_map, List.map_map]
  exact List.map_congr_left fun name member => takeWhile_line (free name member).2

theorem newline_of_line {name : String} (plain : '\n' ∉ name.toList)
    (newline : '\n' ∈ (frame.line name).toList) :
    (∃ text, frame.find? name = some (.bound (.text text)) ∧ '\n' ∈ text.toList) ∨
      ∃ function, frame.find? name = some (.bound (.function function)) ∧
        '\n' ∈ function.name.toList := by
  rw [line, String.toList_append, String.toList_append, List.mem_append, List.mem_append] at newline
  rcases newline with (ofName | ofEquals) | ofSlot
  · exact absurd ofName plain
  · exact absurd ofEquals (by decide)
  · cases found : frame.find? name with
    | none =>
        rw [found] at ofSlot
        exact absurd ofSlot (by decide)
    | some slot =>
        rw [found] at ofSlot
        cases slot with
        | uninitialized => exact absurd ofSlot (by decide)
        | bound value =>
            rcases Value.newline_of_render ofSlot with ⟨text, rfl, newline⟩
                | ⟨function, rfl, newline⟩
            · exact .inl ⟨text, rfl, newline⟩
            · exact .inr ⟨function, rfl, newline⟩

theorem Ordered.dump_eq {frame' : Frame} (ordered : frame.Ordered) (ordered' : frame'.Ordered)
    (same : ∀ name, frame.find? name = frame'.find? name) : frame.dump = frame'.dump := by
  rw [dump, dump, isEmpty, isEmpty, ordered.entries_unique ordered' same]

end Frame

/-- **What a listing shows.** In a store that is built in any way, a frame is listed as empty
exactly if it declares nothing. Otherwise its listing consists of the lines of its entries, one
entry `name = value` or `name = <uninitialized>` for each declared name, in strictly increasing
order of the bytes of the names. There is one line for each name exactly if no entry holds a
newline, and then the names can be read back. An entry whose name holds none does so only if the
value is a string with a newline, or a function with one in its name. Frames that have the same for
each name are listed in the same way. -/
theorem dump_lists {store : Store} {ref : FrameRef} {frame : Frame} (built : store.Built)
    (found : store.frame? ref = some frame) :
    (frame.dump = "[Empty Environment]" ↔ ∀ name, ¬ frame.declares name) ∧
    (frame.names.Pairwise (fun name name' => Text.bytes name < Text.bytes name') ∧
      ∀ name, name ∈ frame.names ↔ frame.declares name) ∧
    (frame.names ≠ [] →
      Text.pieces frame.dump = (frame.names.map frame.line).flatMap Text.pieces ∧
      ((Text.pieces frame.dump).length = frame.names.length ↔
        ∀ name ∈ frame.names, '\n' ∉ (frame.line name).toList) ∧
      ((∀ name ∈ frame.names, '\n' ∉ (frame.line name).toList ∧ ' ' ∉ name.toList) →
        (Text.pieces frame.dump).map (List.takeWhile (· != ' ')) = frame.names.map String.toList)) ∧
    (∀ name, '\n' ∉ name.toList → '\n' ∈ (frame.line name).toList →
      (∃ text, frame.find? name = some (.bound (.text text)) ∧ '\n' ∈ text.toList) ∨
        ∃ function, frame.find? name = some (.bound (.function function)) ∧
          '\n' ∈ function.name.toList) ∧
    ∀ (store' : Store) (ref' : FrameRef) (frame' : Frame),
      store'.Built → store'.frame? ref' = some frame' →
      (∀ name, frame.find? name = frame'.find? name) → frame.dump = frame'.dump := by
  have ordered := built.ordered ref frame found
  refine ⟨Frame.dump_eq_empty_iff.trans Frame.entries_eq_nil_iff,
    ⟨ordered.names_in_order, Frame.mem_names⟩,
    fun holds =>
      ⟨ordered.pieces_dump holds, ordered.one_line_each_iff holds, ordered.names_read_back holds⟩,
    fun name => Frame.newline_of_line, fun store' ref' frame' built' found' same => ?_⟩
  exact ordered.dump_eq (built'.ordered ref' frame' found') same

/-- Two names, one without a value, defined in one order and in the other. -/
theorem dump_lists_two :
    let root := Store.empty.addRoot.2
    let store := (root.define ⟨0⟩ "zeta" (some (.text "z"))).define ⟨0⟩ "alpha" none
    let store' := (root.define ⟨0⟩ "alpha" none).define ⟨0⟩ "zeta" (some (.text "z"))
    store.Built ∧ store'.Built ∧ store.frame? ⟨0⟩ = some (store.frame ⟨0⟩) ∧
      (store.frame ⟨0⟩).dump = "alpha = <uninitialized>\nzeta = z" ∧
      (Text.pieces (store.frame ⟨0⟩).dump).length = 2 ∧
      (Text.pieces (store.frame ⟨0⟩).dump).map (List.takeWhile (· != ' ')) =
      ["alpha".toList, "zeta".toList] ∧
      (store.frame ⟨0⟩).dump = (store'.frame ⟨0⟩).dump := by
  intro root store store'
  have made : root.Built := .root .empty
  have built : store.Built := .define (.define made (by decide) _ _) (by decide) _ _
  have built' : store'.Built := .define (.define made (by decide) _ _) (by decide) _ _
  have found : store.frame? ⟨0⟩ = some (store.frame ⟨0⟩) := rfl
  obtain ⟨-, -, lines, -, same⟩ := dump_lists built found
  obtain ⟨-, oneEach, names⟩ := lines (by decide)
  have free : ∀ name ∈ (store.frame ⟨0⟩).names,
      '\n' ∉ ((store.frame ⟨0⟩).line name).toList ∧ ' ' ∉ name.toList := by decide
  exact ⟨built, built', found,
    by decide, oneEach.mpr fun name member => (free name member).1, names free,
    same store' ⟨0⟩ (store'.frame ⟨0⟩) built' rfl fun _ => rfl⟩

/-- A frame that declares one name is listed like one that declares two: a string with a newline in
it ends the line, and what follows looks like an entry. -/
theorem listing_forged :
    let root := Store.empty.addRoot.2
    let one := root.define ⟨0⟩ "a" (some (.text "1\nb = 2"))
    let two := (root.define ⟨0⟩ "a" (some (.text "1"))).define ⟨0⟩ "b" (some (.text "2"))
    one.Built ∧ two.Built ∧ (one.frame ⟨0⟩).names = ["a"] ∧ (two.frame ⟨0⟩).names = ["a", "b"] ∧
      (one.frame ⟨0⟩).dump = "a = 1\nb = 2" ∧ (two.frame ⟨0⟩).dump = "a = 1\nb = 2" ∧
      (Text.pieces (one.frame ⟨0⟩).dump).length = 2 := by
  intro root one two
  have made : root.Built := .root .empty
  refine ⟨.define made (by decide) _ _, .define (.define made (by decide) _ _) (by decide) _ _, ?_⟩
  decide

end Lox
