import Lox.Proofs.Syntax.Surface

/-!
What stops what leaves a statement.

A loop stops a `break` without a label and a labelled statement one with its label, a continue point
stops a `continue`, and a call stops a `return`. `Exits` says which of them are around a statement
in the same function body, and a statement is confined if everything in it that leaves something has
something around it that stops it.

There is one exception. Under a label a `break` without a label may stand outside of every loop, and
nothing stops that one. `Stmt.looseBreaks` are the lines of these, and `Stmt.Confined` asks of them
what it is told to ask.
-/

namespace Lox

/-! ### Exits -/

/-- What is around a statement, in the same function body, to stop what leaves it. -/
structure Exits where
  labels : List String
  /-- The labels of the continue points, `none` for one without a label. -/
  points : List (Option String)
  inLoop : Bool
  inFunction : Bool

namespace Exits

/-- Around the statements of a program. -/
def program : Exits := ⟨[], [], false, false⟩

/-- Around the statements of a function body. -/
def functionBody : Exits := ⟨[], [], false, true⟩

/-- Inside a loop. -/
def withLoop (exits : Exits) : Exits :=
  { exits with inLoop := true }

/-- Inside a labelled statement. -/
def withLabel (exits : Exits) (label : String) : Exits :=
  { exits with labels := label :: exits.labels }

/-- Inside a continue point. -/
def withPoint (exits : Exits) (label : Option String) : Exits :=
  { exits with points := label :: exits.points }

/-- Whether there is a label around. -/
def inLabel (exits : Exits) : Bool :=
  !exits.labels.isEmpty

/-- What a `continue` with or without a label needs. -/
def Resumes (exits : Exits) : Option String → Prop
  | some label => some label ∈ exits.points
  | none => exits.points ≠ []

end Exits

mutual

/-- The lines of the breaks without a label that are inside a label, but inside of no loop, of the
same function body. -/
def Stmt.looseBreaks : Stmt → (inLabel inLoop : Bool) → List Nat
  | .breakOut line none, inLabel, inLoop => if inLabel && !inLoop then [line] else []
  | .block body, inLabel, inLoop => Stmt.looseBreaksIn body inLabel inLoop
  | .conditional _ thenBranch none, inLabel, inLoop => thenBranch.looseBreaks inLabel inLoop
  | .conditional _ thenBranch (some elseBranch), inLabel, inLoop =>
    thenBranch.looseBreaks inLabel inLoop ++ elseBranch.looseBreaks inLabel inLoop
  | .loop _ body, inLabel, _ => body.looseBreaks inLabel true
  | .labelled _ body, _, inLoop => body.looseBreaks true inLoop
  | .continuePoint _ body, inLabel, inLoop => body.looseBreaks inLabel inLoop
  | .function _ _ body, _, _ => Stmt.looseBreaksIn body false false
  | _, _, _ => []

/-- The same for a row of statements. -/
def Stmt.looseBreaksIn : List Stmt → (inLabel inLoop : Bool) → List Nat
  | [], _, _ => []
  | stmt :: rest, inLabel, inLoop =>
    stmt.looseBreaks inLabel inLoop ++ Stmt.looseBreaksIn rest inLabel inLoop

end

mutual

/-- Everything in a statement that leaves something has something around it that stops it, except
for loose breaks, whose lines are as asked. -/
def Stmt.Confined (loose : Nat → Prop) : Stmt → Exits → Prop
  | .breakOut _ (some label), exits => label.text ∈ exits.labels
  | .breakOut line none, exits => exits.inLoop = true ∨ exits.inLabel = true ∧ loose line
  | .continueOn _ label, exits => exits.Resumes (label.map (·.text))
  | .returning _ _, exits => exits.inFunction = true
  | .block body, exits => Stmt.AllConfined loose body exits
  | .conditional _ thenBranch none, exits => thenBranch.Confined loose exits
  | .conditional _ thenBranch (some elseBranch), exits =>
    thenBranch.Confined loose exits ∧ elseBranch.Confined loose exits
  | .loop _ body, exits => body.Confined loose exits.withLoop
  | .labelled label body, exits => body.Confined loose (exits.withLabel label.text)
  | .continuePoint label body, exits => body.Confined loose (exits.withPoint (label.map (·.text)))
  | .function _ _ body, _ => Stmt.AllConfined loose body .functionBody
  | .expression _, _ | .print _, _ | .define _ _, _ => True

/-- The same for a row of statements. -/
def Stmt.AllConfined (loose : Nat → Prop) : List Stmt → Exits → Prop
  | [], _ => True
  | stmt :: rest, exits => stmt.Confined loose exits ∧ Stmt.AllConfined loose rest exits

end

/-! ### Loose breaks -/

section Tighten

variable {loose strict : Nat → Prop}

mutual

/-- It is enough to ask something of the loose breaks that there are. -/
theorem Stmt.Confined.tighten : ∀ (stmt : Stmt) (exits : Exits), stmt.Confined loose exits →
    (∀ line ∈ stmt.looseBreaks exits.inLabel exits.inLoop, strict line) → stmt.Confined strict exits
  | .breakOut _ (some _), _, confined, _ => confined
  | .breakOut line none, exits, confined, all => by
      by_cases inLoop : exits.inLoop = true
      · exact .inl inLoop
      · have inLabel : exits.inLabel = true := (confined.resolve_left inLoop).1
        refine .inr ⟨inLabel, all line ?_⟩
        simp [Stmt.looseBreaks, inLabel, inLoop]
  | .continueOn _ _, _, confined, _ => confined
  | .returning _ _, _, confined, _ => confined
  | .block body, exits, confined, all => Stmt.AllConfined.tighten body exits confined all
  | .conditional _ thenBranch none, exits, confined, all =>
      Stmt.Confined.tighten thenBranch exits confined all
  | .conditional _ thenBranch (some elseBranch), exits, confined, all => by
      obtain ⟨ofThen, ofElse⟩ := List.forall_mem_append.mp all
      exact ⟨Stmt.Confined.tighten thenBranch exits confined.1 ofThen,
        Stmt.Confined.tighten elseBranch exits confined.2 ofElse⟩
  | .loop _ body, exits, confined, all => Stmt.Confined.tighten body exits.withLoop confined all
  | .labelled label body, exits, confined, all =>
      Stmt.Confined.tighten body (exits.withLabel label.text) confined all
  | .continuePoint label body, exits, confined, all =>
      Stmt.Confined.tighten body (exits.withPoint _) confined all
  | .function _ _ body, _, confined, all => Stmt.AllConfined.tighten body .functionBody confined all
  | .expression _, _, _, _ | .print _, _, _, _ | .define _ _, _, _, _ => trivial

/-- The same for a row of statements. -/
theorem Stmt.AllConfined.tighten : ∀ (body : List Stmt) (exits : Exits),
    Stmt.AllConfined loose body exits →
      (∀ line ∈ Stmt.looseBreaksIn body exits.inLabel exits.inLoop, strict line) →
        Stmt.AllConfined strict body exits
  | [], _, _, _ => trivial
  | first :: rest, exits, confined, all => by
      obtain ⟨ofFirst, ofRest⟩ := List.forall_mem_append.mp all
      exact ⟨Stmt.Confined.tighten first exits confined.1 ofFirst,
        Stmt.AllConfined.tighten rest exits confined.2 ofRest⟩

end

end Tighten

/-! ### Lawful programs -/

/-- The exits that the rules promise at a place. A label in front of a loop waits for the continue
point in that loop. -/
structure Place.Covers (place : Place) (waiting : Option Name) (exits : Exits) : Prop where
  label : ∀ text ofLoop, .label text ofLoop ∈ place.enclosures → text ∈ exits.labels
  loop : .loop ∈ place.enclosures → exits.inLoop = true ∧ exits.points ≠ []
  point : ∀ text, .label text true ∈ place.enclosures →
    some text ∈ exits.points ∨ waiting.map (·.text) = some text
  inFunction : place.inFunction = true → exits.inFunction = true

namespace Place.Covers

variable {place : Place} {waiting : Option Name} {exits : Exits}

theorem program : Place.program.Covers none .program := by
  constructor <;> simp [Place.program]

theorem functionBody : Place.functionBody.Covers none .functionBody := by
  constructor <;> simp [Place.functionBody, Exits.functionBody]

/-- In the body of a loop, in the continue point that has the label in front of the loop. -/
theorem enterLoop (covers : place.Covers waiting exits) :
    (place.enter .loop).Covers none (exits.withLoop.withPoint (waiting.map (·.text))) where
  label text ofLoop member := covers.label text ofLoop (by simpa [Place.enter] using member)
  loop _ := ⟨rfl, List.cons_ne_nil _ _⟩
  point text member := by
    rcases covers.point text (by simpa [Place.enter] using member) with point | waits
    · exact .inl (List.mem_cons_of_mem _ point)
    · exact .inl (by simp [Exits.withPoint, waits])
  inFunction := covers.inFunction

theorem enterLabel (covers : place.Covers none exits) (label : Name) (ofLoop : Bool) :
    (place.enter (.label label.text ofLoop)).Covers (if ofLoop then some label else none)
      (exits.withLabel label.text) where
  label text other member := by
    rcases List.mem_cons.mp member with same | member
    · cases same
      exact List.mem_cons_self
    · exact List.mem_cons_of_mem _ (covers.label text other member)
  loop member := covers.loop (by simpa [Place.enter] using member)
  point text member := by
    rcases List.mem_cons.mp member with same | member
    · cases same
      exact .inr rfl
    · exact .inl ((covers.point text member).resolve_right (by simp))
  inFunction := covers.inFunction

theorem breakOut (covers : place.Covers none exits) (line : Nat) {label : Option Name}
    (allowed : place.AllowsBreak label) :
    (Stmt.breakOut line label).Confined (fun _ => True) exits := by
  cases label with
  | some label =>
      obtain ⟨ofLoop, member⟩ := allowed
      exact covers.label label.text ofLoop member
  | none =>
      obtain ⟨enclosure, member⟩ := List.exists_mem_of_ne_nil _ allowed
      cases enclosure with
      | loop => exact .inl (covers.loop member).1
      | label text ofLoop =>
          have around := covers.label text ofLoop member
          refine .inr ⟨?_, trivial⟩
          cases labels : exits.labels with
          | nil => simp [labels] at around
          | cons first rest => simp [Exits.inLabel, labels]

theorem continueOn (covers : place.Covers none exits) (line : Nat) {label : Option Name}
    (allowed : place.AllowsContinue label) :
    (Stmt.continueOn line label).Confined (fun _ => True) exits := by
  cases label with
  | some label => exact (covers.point label.text allowed).resolve_right (by simp)
  | none => exact (covers.loop allowed).2

end Place.Covers

section Trees

variable {loose : Nat → Prop} {exits : Exits}

theorem allConfined_clause (clause : Option Clause) {rest : List Stmt}
    (confined : Stmt.AllConfined loose rest exits) :
    Stmt.AllConfined loose ((clause.map Clause.tree).toList ++ rest) exits := by
  cases clause with
  | none => exact confined
  | some clause => cases clause <;> exact ⟨trivial, confined⟩

theorem allConfined_last (last : Option Expr) :
    Stmt.AllConfined loose (last.map Stmt.expression).toList exits := by
  cases last with
  | none => trivial
  | some value => exact ⟨trivial, trivial⟩

end Trees

mutual

/-- What becomes of a lawful statement is confined. -/
theorem Phrase.tree_confined : ∀ (phrase : Phrase) (place : Place) (waiting : Option Name)
    (exits : Exits), phrase.Obeys place → place.Covers waiting exits →
      (phrase.isLoop = false → waiting = none) →
      (phrase.tree waiting).Confined (fun _ => True) exits
  | .expression _, _, _, _, _, _, _ | .print _, _, _, _, _, _, _ => trivial
  | .block body, place, waiting, exits, obeys, covers, plain => by
      obtain rfl := plain rfl
      exact Declaration.trees_confined body place exits obeys covers
  | .ifThen _ thenBranch, place, waiting, exits, obeys, covers, plain => by
      obtain rfl := plain rfl
      exact Phrase.tree_confined thenBranch place none exits obeys covers fun _ => rfl
  | .ifElse _ thenBranch elseBranch, place, waiting, exits, obeys, covers, plain => by
      obtain rfl := plain rfl
      exact ⟨Phrase.tree_confined thenBranch place none exits obeys.1 covers fun _ => rfl,
        Phrase.tree_confined elseBranch place none exits obeys.2 covers fun _ => rfl⟩
  | .whileLoop _ body, place, waiting, exits, obeys, covers, _ =>
      Phrase.tree_confined body (place.enter .loop) none _ obeys covers.enterLoop fun _ => rfl
  | .forLoop first _ last body, place, waiting, exits, obeys, covers, _ => by
      have inside := Phrase.tree_confined body (place.enter .loop) none _ obeys covers.enterLoop
        fun _ => rfl
      exact allConfined_clause first ⟨⟨inside, allConfined_last last⟩, trivial⟩
  | .breakOut line _, _, waiting, _, obeys, covers, plain => by
      obtain rfl := plain rfl
      exact covers.breakOut line obeys
  | .continueOn line _, _, waiting, _, obeys, covers, plain => by
      obtain rfl := plain rfl
      exact covers.continueOn line obeys
  | .returning _ _, _, _, _, obeys, covers, _ => covers.inFunction obeys
  | .labelled label target, place, waiting, exits, obeys, covers, plain => by
      obtain rfl := plain rfl
      refine Phrase.tree_confined target _ _ _ obeys (covers.enterLabel label target.isLoop) ?_
      intro other
      simp [other]

/-- What becomes of a lawful declaration is confined. -/
theorem Declaration.tree_confined : ∀ (declared : Declaration) (place : Place) (exits : Exits),
    declared.Obeys place → place.Covers none exits → declared.tree.Confined (fun _ => True) exits
  | .variable _ _, _, _, _, _ => trivial
  | .function _ _ body, _, _, obeys, _ =>
      Declaration.trees_confined body .functionBody .functionBody obeys.2 .functionBody
  | .statement phrase, place, exits, obeys, covers =>
      Phrase.tree_confined phrase place none exits obeys covers fun _ => rfl

/-- What becomes of a row of lawful declarations is confined. -/
theorem Declaration.trees_confined : ∀ (body : List Declaration) (place : Place) (exits : Exits),
    Declaration.AllObey body place → place.Covers none exits →
      Stmt.AllConfined (fun _ => True) (Declaration.trees body) exits
  | [], _, _, _, _ => trivial
  | first :: rest, place, exits, obeys, covers =>
      ⟨Declaration.tree_confined first place exits obeys.1 covers,
        Declaration.trees_confined rest place exits obeys.2 covers⟩

end

end Lox
