import Lox.Proofs.Syntax.Parts
import Lox.Proofs.Syntax.Undeclaring

/-!
Braces around a single statement.

A block around one statement that declares nothing makes a frame in which nothing is ever bound.
`unbraced` takes all such blocks out of a tree, in the bodies of functions too, and leaves
everything else as it is. To put such a block around a statement anywhere in a program, which is
what the contexts `Around` are for, changes the program but not what it is without braces
(`Around.unbraced_braced`).
-/

namespace Lox

namespace Stmt

/-- Whether nothing in a statement outside of its blocks and function bodies is a declaration can be
computed. -/
def decideUndeclaring : (stmt : Stmt) → Decidable stmt.Undeclaring
  | .define _ _ | .function _ _ _ => .isFalse id
  | .conditional _ thenBranch none => decideUndeclaring thenBranch
  | .conditional _ thenBranch (some elseBranch) =>
    @instDecidableAnd _ _ (decideUndeclaring thenBranch) (decideUndeclaring elseBranch)
  | .loop _ body | .labelled _ body | .continuePoint _ body => decideUndeclaring body
  | .expression _ | .print _ | .block _ | .breakOut _ _ | .continueOn _ _ | .returning _ _ =>
      .isTrue trivial

instance : DecidablePred Undeclaring := decideUndeclaring

/-- The block of some statements, or the statement itself if there is one that declares nothing. -/
def ofBody : List Stmt → Stmt
  | [stmt] => if stmt.Undeclaring then stmt else .block [stmt]
  | body => .block body

mutual

/-- The statement without blocks around single statements that declare nothing. -/
def unbraced : Stmt → Stmt
  | .block body => ofBody (allUnbraced body)
  | .conditional condition thenBranch none => .conditional condition thenBranch.unbraced none
  | .conditional condition thenBranch (some elseBranch) =>
    .conditional condition thenBranch.unbraced (some elseBranch.unbraced)
  | .loop condition body => .loop condition body.unbraced
  | .labelled label body => .labelled label body.unbraced
  | .continuePoint label body => .continuePoint label body.unbraced
  | .function name parameters body => .function name parameters (allUnbraced body)
  | .expression value => .expression value
  | .print value => .print value
  | .define name first => .define name first
  | .breakOut line label => .breakOut line label
  | .continueOn line label => .continueOn line label
  | .returning line value => .returning line value

/-- The statements of a row without such blocks. -/
def allUnbraced : List Stmt → List Stmt
  | [] => []
  | stmt :: rest => stmt.unbraced :: allUnbraced rest

end

theorem allUnbraced_append (front back : List Stmt) :
    allUnbraced (front ++ back) = allUnbraced front ++ allUnbraced back := by
  induction front with
  | nil => rfl
  | cons stmt rest ih => rw [List.cons_append, allUnbraced, allUnbraced, ih, List.cons_append]

theorem ofBody_single {stmt : Stmt} (undeclaring : stmt.Undeclaring) : ofBody [stmt] = stmt :=
  if_pos undeclaring

theorem undeclaring_ofBody (body : List Stmt) : (ofBody body).Undeclaring := by
  match body with
  | [] | _ :: _ :: _ => trivial
  | [stmt] =>
      by_cases undeclaring : stmt.Undeclaring
      · rwa [ofBody_single undeclaring]
      · rw [ofBody, if_neg undeclaring]
        trivial

/-- Whether a statement declares something does not depend on braces in it. -/
theorem undeclaring_unbraced : ∀ stmt : Stmt, stmt.unbraced.Undeclaring ↔ stmt.Undeclaring
  | .block body => by
      rw [unbraced]
      exact iff_of_true (undeclaring_ofBody _) trivial
  | .conditional _ thenBranch none => by
      rw [unbraced]
      exact undeclaring_unbraced thenBranch
  | .conditional _ thenBranch (some elseBranch) => by
      rw [unbraced]
      exact and_congr (undeclaring_unbraced thenBranch) (undeclaring_unbraced elseBranch)
  | .loop _ body | .labelled _ body | .continuePoint _ body => by
      rw [unbraced]
      exact undeclaring_unbraced body
  | .function _ _ _ => by
      rw [unbraced]
      exact Iff.rfl
  | .define _ _ | .expression _ | .print _ | .breakOut _ _ | .continueOn _ _ | .returning _ _ => by
      rw [unbraced]

theorem unbraced_braced {stmt : Stmt} (undeclaring : stmt.Undeclaring) :
    (Stmt.block [stmt]).unbraced = stmt.unbraced := by
  rw [unbraced, allUnbraced, allUnbraced,
    ofBody_single ((undeclaring_unbraced stmt).mpr undeclaring)]

/-- What a block is without braces: the one statement in it, or again a block. -/
theorem unbraced_block (body : List Stmt) :
    (∃ stmt, body = [stmt] ∧ stmt.Undeclaring ∧ (Stmt.block body).unbraced = stmt.unbraced) ∨
      (Stmt.block body).unbraced = .block (allUnbraced body) := by
  match body with
  | [] | _ :: _ :: _ => exact .inr rfl
  | [stmt] =>
      by_cases undeclaring : stmt.Undeclaring
      · exact .inl ⟨stmt, rfl, undeclaring, unbraced_braced undeclaring⟩
      · refine .inr ?_
        rw [unbraced, allUnbraced, allUnbraced, ofBody,
          if_neg (mt (undeclaring_unbraced stmt).mp undeclaring)]

end Stmt

/-- A declared function without such blocks in its body. -/
def FunctionDecl.unbraced (decl : FunctionDecl) : FunctionDecl :=
  { decl with body := Stmt.allUnbraced decl.body }

/-! ### Somewhere in a program -/

/-- The surroundings of a place in a statement where a statement stands. -/
inductive Stmt.Around where
  | here
  | block (before : List Stmt) (around : Around) (after : List Stmt)
  | thenPart (condition : Expr) (around : Around) (elseBranch : Option Stmt)
  | elsePart (condition : Expr) (thenBranch : Stmt) (around : Around)
  | loop (condition : Expr) (around : Around)
  | labelled (label : Name) (around : Around)
  | continuePoint (label : Option Name) (around : Around)
  | function (name : Name) (parameters : List Name) (before : List Stmt) (around : Around)
      (after : List Stmt)

namespace Stmt.Around

/-- The statement with another one put in its place. -/
def fill (stmt : Stmt) : Around → Stmt
  | .here => stmt
  | .block before around after => .block (before ++ around.fill stmt :: after)
  | .thenPart condition around elseBranch => .conditional condition (around.fill stmt) elseBranch
  | .elsePart condition thenBranch around =>
      .conditional condition thenBranch (some (around.fill stmt))
  | .loop condition around => .loop condition (around.fill stmt)
  | .labelled label around => .labelled label (around.fill stmt)
  | .continuePoint label around => .continuePoint label (around.fill stmt)
  | .function name parameters before around after =>
    .function name parameters (before ++ around.fill stmt :: after)

/-! Every statement of a program has surroundings in it. -/

section Surrounded

variable {holds : Stmt → Prop}

mutual

/-- What holds of all that stands somewhere in a statement holds of all statements in it. -/
theorem all_of_fill : ∀ stmt : Stmt, (∀ around part, fill part around = stmt → holds part) →
    stmt.All (fun _ => True) holds
  | .expression value, fills => .expression (fills .here _ rfl) value.all_true
  | .print value, fills => .print (fills .here _ rfl) value.all_true
  | .define _ _, fills =>
      .define (fills .here _ rfl) fun value _ => value.all_true
  | .block body, fills =>
      .block (fills .here _ rfl) <|
        row_of_fill body fun before stmt after same around part filled =>
        fills (.block before around after) part (by rw [fill, filled, same])
  | .conditional condition thenBranch none, fills =>
      .conditional (fills .here _ rfl) condition.all_true
        (all_of_fill thenBranch fun around part filled =>
          fills (.thenPart condition around none) part (by rw [fill, filled]))
        (by simp)
  | .conditional condition thenBranch (some elseBranch), fills => by
      have elses := all_of_fill elseBranch fun around part filled =>
        fills (.elsePart condition thenBranch around) part (by rw [fill, filled])
      refine .conditional (fills .here _ rfl) condition.all_true
        (all_of_fill thenBranch fun around part filled =>
          fills (.thenPart condition around (some elseBranch)) part (by rw [fill, filled])) ?_
      rintro stmt ⟨⟩
      exact elses
  | .loop condition body, fills =>
      .loop (fills .here _ rfl) condition.all_true <|
        all_of_fill body fun around part filled =>
          fills (.loop condition around) part (by rw [fill, filled])
  | .breakOut _ _, fills => .breakOut (fills .here _ rfl)
  | .continueOn _ _, fills => .continueOn (fills .here _ rfl)
  | .labelled label body, fills =>
      .labelled (fills .here _ rfl) <| all_of_fill body fun around part filled =>
        fills (.labelled label around) part (by rw [fill, filled])
  | .continuePoint label body, fills =>
      .continuePoint (fills .here _ rfl) <| all_of_fill body fun around part filled =>
        fills (.continuePoint label around) part (by rw [fill, filled])
  | .function name parameters body, fills =>
      .function (fills .here _ rfl) <|
        row_of_fill body fun before stmt after same around part filled =>
        fills (.function name parameters before around after) part (by rw [fill, filled, same])
  | .returning _ value, fills => .returning (fills .here _ rfl) value.all_true

theorem row_of_fill : ∀ body : List Stmt,
    (∀ before stmt after, body = before ++ stmt :: after →
      ∀ around part, fill part around = stmt → holds part) →
      ∀ stmt ∈ body, stmt.All (fun _ => True) holds
  | [], _ => fun _ member => absurd member List.not_mem_nil
  | first :: rest, fills =>
      List.forall_mem_cons.mpr ⟨all_of_fill first (fills [] first rest rfl),
        row_of_fill rest fun before stmt after same =>
          fills (first :: before) stmt after (by rw [same, List.cons_append])⟩

end

/-- A statement of a program stands somewhere in it. -/
theorem of_part {program : List Stmt} {stmt : Stmt} (part : stmt.PartOf program) :
    ∃ before around after, program = before ++ fill stmt around :: after := by
  apply part (fun _ => True) fun stmt =>
    ∃ before around after, program = before ++ fill stmt around :: after
  apply row_of_fill
  rintro before top after same around inner rfl
  exact ⟨before, around, after, same⟩

end Surrounded

theorem unbraced_fill {stmt other : Stmt} (same : stmt.unbraced = other.unbraced)
    (around : Around) :
    (around.fill stmt).unbraced = (around.fill other).unbraced := by
  have rows (before after : List Stmt) {first second : Stmt}
      (same : first.unbraced = second.unbraced) :
      allUnbraced (before ++ first :: after) = allUnbraced (before ++ second :: after) := by
    rw [allUnbraced_append, allUnbraced_append, allUnbraced, allUnbraced, same]
  induction around with
  | here => exact same
  | block before around after ih => rw [fill, fill, unbraced, unbraced, rows before after ih]
  | thenPart condition around elseBranch ih =>
      cases elseBranch with
      | none => rw [fill, fill, unbraced, unbraced, ih]
      | some elseBranch => rw [fill, fill, unbraced, unbraced, ih]
  | elsePart condition thenBranch around ih => rw [fill, fill, unbraced, unbraced, ih]
  | loop condition around ih => rw [fill, fill, unbraced, unbraced, ih]
  | labelled label around ih => rw [fill, fill, unbraced, unbraced, ih]
  | continuePoint label around ih => rw [fill, fill, unbraced, unbraced, ih]
  | function name parameters before around after ih =>
      rw [fill, fill, unbraced, unbraced, rows before after ih]

/-- Braces around a statement that declares nothing are not there without braces. -/
theorem unbraced_braced {stmt : Stmt} (undeclaring : stmt.Undeclaring) (around : Around) :
    (around.fill (.block [stmt])).unbraced = (around.fill stmt).unbraced :=
  unbraced_fill (Stmt.unbraced_braced undeclaring) around

end Stmt.Around

end Lox
