import Lox.Syntax.Basic

/-!
What surrounds the place that is being parsed, as far as `break`, `continue` and `return` depend on
it.

* `Context` says whether the place is inside a loop body and whether it is inside a function body.
* `Labels` holds the labels of all enclosing labelled statements, and apart from them those that
  belong to loops. A `break` may name any of the former, a `continue` any of the latter.
* A label in front of a loop is handed to it through `pendingLoop`, since the loop's body is what a
  `continue` with that label ends.

A scope also says whether the faults that are found at the place are reported. They are not while
the input is only tried as something that it need not be.
-/

namespace Lox

/-- Whether a place is inside a loop body and inside a function body; also a choice among the
two. -/
structure Context where
  inLoop : Bool
  inFunction : Bool
  deriving DecidableEq, Repr

namespace Context

/-- Code outside all loops and functions. -/
def topLevel : Context := ⟨false, false⟩

/-- The inside of a loop body. -/
def loop : Context := ⟨true, false⟩

/-- The inside of a function body. -/
def function : Context := ⟨false, true⟩

/-- What holds in either of two contexts. -/
def add (context other : Context) : Context :=
  ⟨context.inLoop || other.inLoop, context.inFunction || other.inFunction⟩

/-- What holds in the first context and not in the second. -/
def remove (context other : Context) : Context :=
  ⟨context.inLoop && !other.inLoop, context.inFunction && !other.inFunction⟩

/-- Whether something holds in both contexts. -/
def meets (context other : Context) : Bool :=
  (context.inLoop && other.inLoop) || (context.inFunction && other.inFunction)

end Context

/-- The labels of the enclosing statements, innermost first. -/
structure Labels where
  all : List String
  /-- The labels that belong to loops. -/
  loops : List String
  deriving DecidableEq, Repr

namespace Labels

/-- No labels. -/
def empty : Labels := ⟨[], []⟩

/-- The labels inside a labelled statement. -/
def push (labels : Labels) (label : String) (isLoop : Bool) : Labels :=
  ⟨label :: labels.all, if isLoop then label :: labels.loops else labels.loops⟩

/-- The labels around a labelled statement; where there is no label there is none to drop. -/
def pop (labels : Labels) (isLoop : Bool) : Labels :=
  ⟨labels.all.tail, if isLoop then labels.loops.tail else labels.loops⟩

/-- Whether there is no label. -/
def isEmpty (labels : Labels) : Bool :=
  labels.all.isEmpty && labels.loops.isEmpty

/-- Whether `break` may name a label. -/
def has (labels : Labels) (label : String) : Bool :=
  labels.all.contains label

/-- Whether `continue` may name a label. -/
def hasLoop (labels : Labels) (label : String) : Bool :=
  labels.loops.contains label

@[simp] theorem pop_push (labels : Labels) (label : String) (isLoop : Bool) :
    (labels.push label isLoop).pop isLoop = labels := by
  cases isLoop <;> rfl

end Labels

/-- What surrounds the place that is being parsed. -/
structure Scope where
  context : Context
  labels : Labels
  /-- The label in front of a loop that is about to be parsed. -/
  pendingLoop : Option Name
  /-- Whether faults are reported when they are found. -/
  reporting : Bool
  deriving DecidableEq, Repr

namespace Scope

/-- The surroundings of a program. -/
def program : Scope := ⟨.topLevel, .empty, none, true⟩

/-- The surroundings of a function body, which sees nothing of what is around the function. -/
def functionBody : Scope := ⟨.function, .empty, none, true⟩

/-- The surroundings of the body of a function in other surroundings. -/
def enterFunction (around : Scope) : Scope :=
  { functionBody with reporting := around.reporting }

end Scope

end Lox
