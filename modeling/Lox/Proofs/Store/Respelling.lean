import Lox.Proofs.Store.Growth
import Lox.Proofs.Syntax.Respelling
import Lox.Proofs.Value.Results

/-!
Stores of respelled programs.

Two stores have the same frames under the same references and the same closures under the same
identities, but the code of the closures is respelled, and what one frame has for a name, the other
has for the name as it is respelled. The order of the entries, which is that of the names, may be
another. As long as no two names are given the same text, what is defined or found in the one store
can be defined and found in the other.

A function shows its name when it is printed, so it is asked that functions keep theirs.
-/

namespace Lox

/-- A declared function with other names. -/
def FunctionDecl.respell (rename : String → String) (decl : FunctionDecl) : FunctionDecl :=
  ⟨decl.name.respell rename, decl.parameters.map (Name.respell rename),
    Stmt.allRespelled rename decl.body⟩

/-- The name of a function and those of the functions in it. -/
def FunctionDecl.functionNames (decl : FunctionDecl) : List String :=
  decl.name.text :: Stmt.allFunctionNames decl.body

section Relations

variable (rename : String → String)

/-- A value and the same of a respelled run: a closure has the respelled code. Functions keep their
names. -/
inductive Value.Respells : Value → Value → Prop
  | plain {value : Value} (other : ∀ closure, value ≠ .function (.closure closure)) :
      Respells value value
  | closure (id : Nat) {decl : FunctionDecl} (scope : FrameRef)
      (kept : ∀ name ∈ decl.functionNames, rename name = name) :
      Respells (.function (.closure ⟨id, decl, scope⟩))
        (.function (.closure ⟨id, decl.respell rename, scope⟩))

/-- What a frame has for a name and what one of a respelled run has for it. -/
inductive Slot.Respells : Slot → Slot → Prop
  | uninitialized : Respells .uninitialized .uninitialized
  | bound {value value' : Value} (values : value.Respells rename value') :
      Respells (.bound value) (.bound value')

/-- A frame and the same of a respelled run. -/
structure Frame.Respells (frame frame' : Frame) : Prop where
  parent : frame'.parent = frame.parent
  slots : ∀ name, Option.Rel (Slot.Respells rename) (frame.find? name) (frame'.find? (rename name))

/-- A store and the same of a respelled run. -/
structure Store.Respells (store store' : Store) : Prop where
  size : store'.frames.size = store.frames.size
  frames : ∀ ref, Option.Rel (Frame.Respells rename) (store.frame? ref) (store'.frame? ref)
  closureCount : store'.closureCount = store.closureCount

end Relations

variable {rename : String → String}

/-! ### Values -/

namespace Value.Respells

variable {value value' other other' : Value}

theorem looks (values : value.Respells rename value') : value.Looks value' := by
  cases values with
  | plain => exact .same _
  | closure id scope kept => exact .closures (kept _ List.mem_cons_self).symm

theorem equal (values : value.Respells rename value') (others : other.Respells rename other') :
    value.equal other = value'.equal other' := by
  cases values with
  | plain apart =>
      cases others with
      | plain => rfl
      | closure id scope kept => rcases value with _ | _ | _ | _ | _ | _ <;> rfl
  | closure id scope kept =>
      cases others with
      | plain apart => rcases other with _ | _ | _ | _ | _ | _ <;> rfl
      | closure => rfl

theorem ofLiteral (literal : Literal) :
    (Value.ofLiteral literal).Respells rename (.ofLiteral literal) := by
  cases literal <;> exact .plain (by rintro _ ⟨⟩)

theorem ofPlain (plain : PlainResult [] (.ok value)) : value.Respells rename value :=
  .plain fun closure same => absurd (plain closure same) List.not_mem_nil

end Value.Respells

/-! ### Stores -/

section Stores

variable (injective : Function.Injective rename)
include injective

theorem Frame.Respells.insert {frame frame' : Frame} (frames : frame.Respells rename frame')
    (name : String) {slot slot' : Slot} (slots : slot.Respells rename slot') :
    (frame.insert name slot).Respells rename (frame'.insert (rename name) slot') where
  parent := frames.parent
  slots other := by
    rw [find?_insert, find?_insert]
    simp only [injective.eq_iff]
    split
    · exact .some slots
    · exact frames.slots other

theorem Store.Respells.define {store store' : Store} (stores : store.Respells rename store')
    (ref : FrameRef) (name : String) {value value' : Option Value}
    (values : Option.Rel (Value.Respells rename) value value') :
    (store.define ref name value).Respells rename (store'.define ref (rename name) value') where
  size := by rw [size_define, size_define, stores.size]
  closureCount := stores.closureCount
  frames other := by
    have slots : (Slot.ofOption value).Respells rename (Slot.ofOption value') := by
      cases values with
      | none => exact .uninitialized
      | some values => exact .bound values
    have here := stores.frames other
    rw [frame?_define, frame?_define]
    revert here
    generalize store.frame? other = held
    generalize store'.frame? other = held'
    intro here
    cases here with
    | none => exact .none
    | some frames =>
        refine .some ?_
        split
        · exact frames.insert injective name slots
        · exact frames

end Stores

theorem Store.Respells.addFrame {store store' : Store} (stores : store.Respells rename store')
    (parent : Option FrameRef) :
    (store.addFrame parent).2.Respells rename (store'.addFrame parent).2 where
  size := by rw [size_addFrame, size_addFrame, stores.size]
  closureCount := stores.closureCount
  frames ref := by
    have next : store'.nextRef = store.nextRef := by rw [nextRef, nextRef, stores.size]
    rw [frame?_addFrame, frame?_addFrame, next]
    split
    · exact .some ⟨rfl, fun name => .none⟩
    · exact stores.frames ref

/-- A name is found where the name is found as it was. -/
theorem Store.Respells.search {store store' : Store} (stores : store.Respells rename store')
    (name : String) (count : Nat) (ref : FrameRef) :
    Option.Rel (fun entry entry' => entry'.1 = entry.1 ∧ entry.2.Respells rename entry'.2)
      (store.search name count ref) (store'.search (rename name) count ref) := by
  induction count generalizing ref with
  | zero => exact .none
  | succ count ih =>
      have here := stores.frames ref
      rw [Store.search, Store.search]
      revert here
      generalize store.frame? ref = held
      generalize store'.frame? ref = held'
      intro here
      cases here with
      | none => exact .none
      | @some frame frame' frames =>
          have slots := frames.slots name
          simp only [frames.parent]
          revert slots
          generalize frame.find? name = slot
          generalize frame'.find? (rename name) = slot'
          intro slots
          cases slots with
          | some slots => exact .some ⟨rfl, slots⟩
          | none =>
              cases frame.parent with
              | none => exact .none
              | some parent => exact ih parent

theorem Store.Respells.nearest {store store' : Store} (stores : store.Respells rename store')
    (ref : FrameRef) (name : String) :
    Option.Rel (fun entry entry' => entry'.1 = entry.1 ∧ entry.2.Respells rename entry'.2)
      (store.nearest? ref name) (store'.nearest? ref (rename name)) :=
  stores.search name (ref.index + 1) ref

end Lox
