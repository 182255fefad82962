import Lox.Proofs.Store.Frames
import Lox.Proofs.Value.Results

/-!
Stores with other code in their closures.

A `Recoding` gives functions other bodies and leaves them their names and parameters. A store can be
recoded as a whole: the frames, the names in them and the closures are the same, but the closures
have other bodies. What is defined or found in a store is defined or found in the recoded one,
recoded. Operators do not see the difference, since of a closure they see the name and which one it
is.
-/

namespace Lox

/-- Other bodies for declared functions. -/
structure Recoding where
  code : FunctionDecl → FunctionDecl
  name : ∀ decl, (code decl).name = decl.name
  parameters : ∀ decl, (code decl).parameters = decl.parameters

namespace Recoding

variable (recoding : Recoding)

/-! ### Recoded values -/

/-- The same closure with another body. -/
def closure (closure : Closure) : Closure :=
  { closure with decl := recoding.code closure.decl }

/-- The same value with another body, if it is a closure. -/
def value : Value → Value
  | .function (.closure made) => .function (.closure (recoding.closure made))
  | value => value

/-- The same slot with recoded values. -/
def slot : Slot → Slot
  | .uninitialized => .uninitialized
  | .bound held => .bound (recoding.value held)

/-- The same frame with recoded values. -/
def frame (frame : Frame) : Frame :=
  { frame with entries := frame.entries.map fun entry => (entry.1, recoding.slot entry.2) }

/-- The same store with recoded values. -/
def store (store : Store) : Store :=
  { store with frames := store.frames.map recoding.frame }

theorem slot_ofOption (held : Option Value) :
    recoding.slot (.ofOption held) = .ofOption (held.map recoding.value) := by
  cases held <;> rfl

theorem value_of_plain {held : Value} (plain : PlainResult [] (.ok held)) :
    recoding.value held = held := by
  match held with
  | .function (.closure made) => exact absurd (plain made rfl) List.not_mem_nil
  | .function (.native _) | .nil | .bool _ | .number _ | .text _ => rfl

theorem looks (held : Value) : (recoding.value held).Looks held := by
  rcases held with _ | _ | _ | _ | _ | _
  case function.closure made => exact .closures (congrArg Name.text (recoding.name made.decl))
  all_goals exact .same _

theorem arity (made : Closure) : (recoding.closure made).decl.arity = made.decl.arity :=
  congrArg List.length (recoding.parameters made.decl)

/-- Operators do not see the code of closures. -/
theorem unary (op : UnaryOp) (operand : Value) :
    op.apply (recoding.value operand) = op.apply operand :=
  (recoding.looks operand).unary op

theorem binary (op : BinaryOp) (left right : Value) :
    op.apply (recoding.value left) (recoding.value right) = op.apply left right := by
  refine (recoding.looks left).binary op (recoding.looks right) ?_
  rcases left with _ | _ | _ | _ | _ | _ <;> rcases right with _ | _ | _ | _ | _ | _ <;> rfl

/-! ### Recoded stores -/

variable (before : Store) (ref : FrameRef) (name : String)

theorem frame?_store :
    (recoding.store before).frame? ref = (before.frame? ref).map recoding.frame :=
  Array.getElem?_map

theorem search (count : Nat) : (recoding.store before).search name count ref =
    (before.search name count ref).map fun found => (found.1, recoding.slot found.2) := by
  induction count generalizing ref with
  | zero => rfl
  | succ count ih =>
      have found := recoding.frame?_store before ref
      cases here : before.frame? ref with
      | none =>
          rw [here, Option.map_none] at found
          simp only [Store.search, found, here, Option.map_none]
      | some held =>
          rw [here, Option.map_some] at found
          rw [Store.search_succ name count found, Store.search_succ name count here,
            Frame.find?, frame,
            Frame.lookup_map recoding.slot, ← Frame.find?]
          cases held.find? name with
          | some slot => rfl
          | none =>
              cases held.parent with
              | none => rfl
              | some parent => exact ih parent

theorem nearest : (recoding.store before).nearest? ref name =
    (before.nearest? ref name).map fun found => (found.1, recoding.slot found.2) :=
  recoding.search before ref name (ref.index + 1)

theorem store_define (given : Option Value) : recoding.store (before.define ref name given) =
    (recoding.store before).define ref name (given.map recoding.value) := by
  have frames : (before.define ref name given).frames.map recoding.frame =
      ((recoding.store before).define ref name (given.map recoding.value)).frames := by
    apply Array.ext_getElem?
    intro index
    have left := recoding.frame?_store (before.define ref name given) ⟨index⟩
    rw [Store.frame?_define] at left
    have right :=
      @Store.frame?_define (recoding.store before) ref name (given.map recoding.value) ⟨index⟩
    rw [recoding.frame?_store] at right
    refine left.trans (Eq.trans ?_ right.symm)
    rw [Option.map_map, Option.map_map]
    congr 1
    funext held
    simp only [Function.comp]
    split
    · simp only [Frame.insert, frame, ← recoding.slot_ofOption, Frame.insertEntry_map recoding.slot]
    · rfl
  rw [store, frames]
  rfl

theorem store_addFrame (parent : Option FrameRef) :
    (recoding.store before).addFrame parent =
      ((before.addFrame parent).1, recoding.store (before.addFrame parent).2) := by
  simp [Store.addFrame, Store.nextRef, store, frame]

end Recoding

end Lox
