import Lox.Fault

/-!
Frames of variables and the store that holds them.

A frame binds names to values or declares them without one, and may have a parent, an older frame.
Its entries are kept in the order of their names, so a frame does not remember in which order its
names were defined. The store only grows: a frame is added at its end, and a reference to a frame is
its place. A name is looked up in a frame, then in its parent, and so on; `nearest?` says in which
frame that search ends. Since parents are older it passes no more frames than the place of the first
says.
-/

namespace Lox

/-- What a frame has for a declared name. -/
inductive Slot where
  | uninitialized
  | bound (value : Value)
  deriving Inhabited

/-- The slot of a declaration with or without a value. -/
def Slot.ofOption : Option Value → Slot
  | none => .uninitialized
  | some value => .bound value

/-- A frame of variables. -/
structure Frame where
  /-- The declared names, in increasing order, with what they are bound to. -/
  entries : List (String × Slot)
  parent : Option FrameRef
  deriving Inhabited

namespace Frame

/-- The entries with a name bound anew; it is put in its place if it is not among them. -/
def insertEntry (name : String) (slot : Slot) : List (String × Slot) → List (String × Slot)
  | [] => [(name, slot)]
  | (other, held) :: rest =>
    if name == other then (name, slot) :: rest
    else if name < other then (name, slot) :: (other, held) :: rest
    else (other, held) :: insertEntry name slot rest

/-- What a frame has for a name. -/
def find? (frame : Frame) (name : String) : Option Slot :=
  frame.entries.lookup name

/-- The frame with a name bound anew. -/
def insert (frame : Frame) (name : String) (slot : Slot) : Frame :=
  { frame with entries := insertEntry name slot frame.entries }

/-- Whether a frame declares a name. -/
def declares (frame : Frame) (name : String) : Bool :=
  (frame.find? name).isSome

/-- Whether a frame declares nothing. -/
def isEmpty (frame : Frame) : Bool :=
  frame.entries.isEmpty

/-- The names that a frame declares, in increasing order. -/
def names (frame : Frame) : List String :=
  frame.entries.map (·.1)

/-- The line of an entry in the listing of a frame. -/
def entryLine : String × Slot → String
  | (name, .bound value) => name ++ " = " ++ value.render
  | (name, .uninitialized) => name ++ " = <uninitialized>"

/-- The listing of a frame: one entry after another, in the order of names. -/
def dump (frame : Frame) : String :=
  if frame.isEmpty then "[Empty Environment]"
  else "\n".intercalate (frame.entries.map entryLine)

/-- A short description of a frame: its names, and whether it has a parent. -/
def describe (frame : Frame) : String :=
  "Environment \x7b names: [" ++ ", ".intercalate (frame.names.map Text.quoted)
    ++ "], has_parent: " ++ toString frame.parent.isSome ++ " \x7d"

end Frame

/-- All frames, oldest first, and the number of closures made so far. -/
structure Store where
  frames : Array Frame
  closureCount : Nat
  deriving Inhabited

namespace Store

/-- The store without frames. -/
def empty : Store := ⟨#[], 0⟩

/-- The reference that the next frame will have. -/
def nextRef (store : Store) : FrameRef := ⟨store.frames.size⟩

/-- The frame that a reference means. -/
def frame? (store : Store) (ref : FrameRef) : Option Frame :=
  store.frames[ref.index]?

/-- The frame that a reference means; there is nothing in one that does not exist. -/
def frame (store : Store) (ref : FrameRef) : Frame :=
  (store.frame? ref).getD ⟨[], none⟩

/-- A new frame without entries. -/
def addFrame (store : Store) (parent : Option FrameRef) : FrameRef × Store :=
  (store.nextRef, { store with frames := store.frames.push ⟨[], parent⟩ })

/-- A new frame without a parent. -/
def addRoot (store : Store) : FrameRef × Store :=
  store.addFrame none

/-- A new frame whose parent is a given one. -/
def addChild (store : Store) (parent : FrameRef) : FrameRef × Store :=
  store.addFrame (some parent)

/-- The parent of a frame. -/
def parent? (store : Store) (ref : FrameRef) : Option FrameRef :=
  (store.frame ref).parent

/-- Bind a name in a frame, or declare it there without a value. -/
def define (store : Store) (ref : FrameRef) (name : String) (value : Option Value) : Store :=
  { store with frames := store.frames.modify ref.index fun frame =>
      frame.insert name (.ofOption value) }

/-- The nearest frame that declares a name and what it has for it, among at most `count` frames from
a given one on to its parent, its parent's parent and so on. -/
def search (store : Store) (name : String) : (count : Nat) → FrameRef → Option (FrameRef × Slot)
  | 0, _ => none
  | count + 1, ref =>
    match store.frame? ref with
    | none => none
    | some frame =>
      match frame.find? name with
      | some slot => some (ref, slot)
      | none =>
        match frame.parent with
        | none => none
        | some parent => store.search name count parent

/-- The nearest frame that declares a name, from a given one outward, and what it has for it. -/
def nearest? (store : Store) (ref : FrameRef) (name : String) : Option (FrameRef × Slot) :=
  store.search name (ref.index + 1) ref

/-- The value of a name as seen from a frame. -/
def get (store : Store) (ref : FrameRef) (name : String) : Except LookupFault Value :=
  match store.nearest? ref name with
  | some (_, .bound value) => .ok value
  | some (_, .uninitialized) => .error .uninitialized
  | none => .error .undefined

/-- Give a name another value in the nearest frame that declares it. -/
def assign (store : Store) (ref : FrameRef) (name : String) (value : Value) :
    Except LookupFault Store :=
  match store.nearest? ref name with
  | some (owner, _) => .ok (store.define owner name (some value))
  | none => .error .undefined

/-- A closure that is different from all others. -/
def makeClosure (store : Store) (decl : FunctionDecl) (scope : FrameRef) : Closure × Store :=
  (⟨store.closureCount, decl, scope⟩, { store with closureCount := store.closureCount + 1 })

end Store

end Lox
