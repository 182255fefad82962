import Lox.Proofs.Syntax.Parts
import Lox.Proofs.Syntax.Surface

/-!
Where the parts of a program are written.

The tokens of a part lie next to each other among the tokens of the whole: the spelling of every
expression in a declaration is a stretch of the spelling of the declaration
(`Declaration.tree_written`), and so is that of everything that leaves a loop. The condition of a
`for` that is left out is the one expression that is not written. The rules that bind the parts, on
how long their lists may be, hold of each.
-/

namespace Lox

variable {marks more : List Mark}

theorem Spells.infix {tokens : List Token} (spells : Spells marks tokens)
    (inside : more <:+: marks) :
    ∃ segment, segment <:+: tokens ∧ Spells more segment := by
  obtain ⟨front, back, rfl⟩ := inside
  obtain ⟨before, after, rfl, spellsBefore, -⟩ := Spells.append_iff.mp spells
  obtain ⟨first, segment, rfl, -, spellsHere⟩ := Spells.append_iff.mp spellsBefore
  exact ⟨segment, ⟨first, after, rfl⟩, spellsHere⟩

theorem infix_separated {row : List Mark} {rows : List (List Mark)} (member : row ∈ rows) :
    row <:+: separated rows := by
  induction rows using separated.induct with
  | case1 => cases member
  | case2 first =>
      obtain rfl := List.mem_singleton.mp member
      exact List.infix_refl row
  | case3 first second rest ih =>
      rw [separated]
      rcases List.mem_cons.mp member with rfl | member
      · exact (List.prefix_append row _).isInfix
      · exact (ih member).trans ⟨first ++ [.fixed .comma], [], by simp⟩

/-- An expression of a text with a spelling: it is written there, as one that the ladder of
operators allows, or it is what stands for a condition that is left out. -/
def Expr.Within (marks : List Mark) (expr : Expr) : Prop :=
  expr.WellLevelled ∧ expr.spelling <:+: marks ∨ expr = .literal (.bool true)

/-- A statement of a text with a spelling: what leaves a loop is written there, and a function has
no more parameters than it may have. -/
def Stmt.Within (marks : List Mark) : Stmt → Prop
  | .breakOut line label => jumpSpelling .kwBreak line label <:+: marks
  | .continueOn line label => jumpSpelling .kwContinue line label <:+: marks
  | .function _ parameters _ => parameters.length ≤ argumentLimit
  | _ => True

/-- The parts of an expression are written within it. -/
abbrev Expr.Written (marks : List Mark) : Expr → Prop :=
  Expr.All (Expr.Within marks)

/-- The parts of a statement are written within it. -/
abbrev Stmt.Written (marks : List Mark) : Stmt → Prop :=
  Stmt.All (Expr.Within marks) (Stmt.Within marks)

theorem Expr.Within.grow {expr : Expr} (within : expr.Within marks) (inside : marks <:+: more) :
    expr.Within more :=
  within.imp_left fun written => ⟨written.1, written.2.trans inside⟩

theorem Stmt.Within.grow {stmt : Stmt} (within : stmt.Within marks) (inside : marks <:+: more) :
    stmt.Within more := by
  cases stmt with
  | breakOut line label => exact List.IsInfix.trans within inside
  | continueOn line label => exact List.IsInfix.trans within inside
  | _ => exact within

theorem Expr.Written.grow {expr : Expr} (written : expr.Written marks) (inside : marks <:+: more) :
    expr.Written more :=
  written.mono fun _ within => within.grow inside

theorem Stmt.Written.grow {stmt : Stmt} (written : stmt.Written marks) (inside : marks <:+: more) :
    stmt.Written more :=
  written.mono (fun _ within => within.grow inside) fun _ within => within.grow inside

namespace Expr

theorem within_self {expr : Expr} (levelled : expr.WellLevelled) : expr.Within expr.spelling :=
  .inl ⟨levelled, List.infix_refl _⟩

/-- The parts of an expression that the ladder allows are written within it. -/
theorem written {expr : Expr} (levelled : expr.WellLevelled) : expr.Written expr.spelling := by
  induction expr with
  | literal value => exact .literal (within_self levelled)
  | named name => exact .variable (within_self levelled)
  | group inner ih =>
      refine .group (within_self levelled) ((ih levelled).grow ?_)
      exact ⟨[.fixed .leftParen], [.fixed .rightParen], by simp [spelling]⟩
  | unary op line operand ih =>
      refine .unary (within_self levelled) ((ih levelled.2).grow ?_)
      exact ⟨[.on op.kind line], [], by simp [spelling]⟩
  | operation op line left right ihLeft ihRight =>
      obtain ⟨⟨-, ofLeft⟩, -, ofRight⟩ := (wellLevelled_combine op line left right).mp levelled
      have first : left.Written (op.combine line left right).spelling :=
        (ihLeft ofLeft).grow ⟨[], op.mark line :: right.spelling, by simp⟩
      have second : right.Written (op.combine line left right).spelling :=
        (ihRight ofRight).grow ⟨left.spelling ++ [op.mark line], [], by simp⟩
      cases op with
      | logical op => exact .logical (within_self levelled) first second
      | binary op => exact .binary (within_self levelled) first second
  | assign name value ih =>
      refine .assign (within_self levelled) ((ih levelled).grow ?_)
      exact ⟨[.ofName name, .fixed .equal], [], by simp [spelling]⟩
  | call callee arguments closeLine ihCallee ihArguments =>
      have here := within_self levelled
      obtain ⟨⟨-, ofCallee⟩, -, ofArguments⟩ := levelled
      rw [allWellLevelled_iff] at ofArguments
      refine .call here ((ihCallee ofCallee).grow ?_) fun argument member => ?_
      · exact ⟨[],
          .fixed .leftParen :: (separated (spellings arguments) ++ [.on .rightParen closeLine]),
          by simp [spelling]⟩
      · refine (ihArguments argument member (ofArguments argument member)).grow ?_
        refine (infix_separated (List.mem_map_of_mem (f := spelling) member)).trans ?_
        exact ⟨callee.spelling ++ [.fixed .leftParen], [.on .rightParen closeLine],
          by simp [spelling]⟩

/-- The parts of an expression that a text goes on with are written within the text. -/
theorem written_in {expr : Expr} (levelled : expr.WellLevelled) (front back : List Mark) :
    expr.Written (front ++ expr.spelling ++ back) :=
  (written levelled).grow ⟨front, back, rfl⟩

end Expr

/-! ### Statements -/

theorem written_initializer {name : Name} {first : Option Expr}
    (levelled : ∀ value ∈ first, value.WellLevelled) :
    (Stmt.define name first).Written (variableSpelling name first) := by
  refine .define trivial fun value given => ?_
  obtain rfl : first = some value := given
  refine (Expr.written (levelled value rfl)).grow ?_
  exact ⟨[.fixed .kwVar, .ofName name, .fixed .equal], [.fixed .semicolon], by
    simp [variableSpelling, initializerSpelling]⟩

theorem written_clause {clause : Clause} (formed : clause.WellFormed) :
    clause.tree.Written clause.spelling := by
  cases clause with
  | «variable» name first => exact written_initializer formed
  | expression value => exact .expression trivial (Expr.written_in formed [] [.fixed .semicolon])

section Loops

variable {first : Option Clause} {condition last : Option Expr} {body : Phrase}

/-- What a `for` becomes is written within it if its body is written within its own tokens. -/
theorem written_forLoop (formed : (Phrase.forLoop first condition last body).WellFormed)
    (ofBody : (body.tree none).Written body.spelling) (label : Option Name) :
    ((Phrase.forLoop first condition last body).tree label).Written
      (Phrase.forLoop first condition last body).spelling := by
  obtain ⟨ofFirst, ofCondition, ofLast, -⟩ := formed
  have opening : first.elim [.fixed .semicolon] Clause.spelling <:+:
      (Phrase.forLoop first condition last body).spelling :=
    ⟨[.fixed .kwFor, .fixed .leftParen], condition.elim [] Expr.spelling ++ .fixed .semicolon ::
      (last.elim [] Expr.spelling ++ .fixed .rightParen :: body.spelling), by
        simp [Phrase.spelling]⟩
  have middle : condition.elim [] Expr.spelling <:+:
      (Phrase.forLoop first condition last body).spelling :=
    ⟨.fixed .kwFor :: .fixed .leftParen :: first.elim [.fixed .semicolon] Clause.spelling,
      .fixed .semicolon :: (last.elim [] Expr.spelling ++ .fixed .rightParen :: body.spelling), by
      simp [Phrase.spelling]⟩
  have closing : last.elim [] Expr.spelling <:+:
      (Phrase.forLoop first condition last body).spelling :=
    ⟨.fixed .kwFor :: .fixed .leftParen :: (first.elim [.fixed .semicolon] Clause.spelling ++
      (condition.elim [] Expr.spelling ++ [.fixed .semicolon])),
        .fixed .rightParen :: body.spelling, by
      simp [Phrase.spelling]⟩
  have inside : body.spelling <:+: (Phrase.forLoop first condition last body).spelling :=
    ⟨.fixed .kwFor :: .fixed .leftParen :: (first.elim [.fixed .semicolon] Clause.spelling ++
      (condition.elim [] Expr.spelling ++ .fixed .semicolon :: (last.elim [] Expr.spelling ++
        [.fixed .rightParen]))), [], by simp [Phrase.spelling]⟩
  refine .block trivial (List.forall_mem_append.mpr ⟨?_, List.forall_mem_singleton.mpr ?_⟩)
  · intro stmt member
    obtain ⟨clause, rfl, rfl⟩ : ∃ clause, first = some clause ∧ clause.tree = stmt := by
      simpa using member
    exact (written_clause (ofFirst clause rfl)).grow opening
  · refine .loop trivial ?_ (.block trivial (List.forall_mem_cons.mpr ⟨?_, ?_⟩))
    · cases condition with
      | none => exact .literal (.inr rfl)
      | some value => exact (Expr.written (ofCondition value rfl)).grow middle
    · exact .continuePoint trivial (ofBody.grow inside)
    · intro stmt member
      obtain ⟨value, rfl, rfl⟩ : ∃ value, last = some value ∧ Stmt.expression value = stmt := by
        simpa using member
      exact .expression trivial ((Expr.written (ofLast value rfl)).grow closing)

end Loops

mutual

/-- What becomes of a lawful statement is written within it. -/
theorem Phrase.tree_written : ∀ (phrase : Phrase) (place : Place) (label : Option Name),
    phrase.WellFormed → phrase.Obeys place → (phrase.tree label).Written phrase.spelling
  | .expression _, _, _, formed, _ =>
      .expression trivial (Expr.written_in formed [] [.fixed .semicolon])
  | .print _, _, _, formed, _ =>
      .print trivial (Expr.written_in formed [.fixed .kwPrint] [.fixed .semicolon])
  | .block body, place, _, formed, obeys =>
      .block trivial fun stmt member =>
        (Declaration.trees_written body place formed obeys stmt member).grow
          ⟨[.fixed .leftBrace], [.fixed .rightBrace], by simp [Phrase.spelling]⟩
  | .ifThen condition thenBranch, place, _, formed, obeys =>
      .conditional trivial
        ((Expr.written formed.1).grow ⟨[.fixed .kwIf, .fixed .leftParen],
          .fixed .rightParen :: thenBranch.spelling, by simp [Phrase.spelling]⟩)
        ((Phrase.tree_written thenBranch place none formed.2 obeys).grow
          ⟨.fixed .kwIf :: .fixed .leftParen :: (condition.spelling ++ [.fixed .rightParen]), [], by
            simp [Phrase.spelling]⟩)
        (by simp)
  | .ifElse condition thenBranch elseBranch, place, _, formed, obeys => by
      have ofThen := Phrase.tree_written thenBranch place none formed.2.1.1 obeys.1
      have ofElse := Phrase.tree_written elseBranch place none formed.2.2 obeys.2
      refine .conditional trivial ((Expr.written formed.1).grow ?_) (ofThen.grow ?_) ?_
      · exact ⟨[.fixed .kwIf, .fixed .leftParen], .fixed .rightParen :: (thenBranch.spelling ++
          .fixed .kwElse :: elseBranch.spelling), by simp [Phrase.spelling]⟩
      · exact ⟨.fixed .kwIf :: .fixed .leftParen :: (condition.spelling ++ [.fixed .rightParen]),
          .fixed .kwElse :: elseBranch.spelling, by simp [Phrase.spelling]⟩
      · rintro _ ⟨⟩
        exact ofElse.grow
          ⟨.fixed .kwIf :: .fixed .leftParen :: (condition.spelling ++ .fixed .rightParen ::
          (thenBranch.spelling ++ [.fixed .kwElse])), [], by simp [Phrase.spelling]⟩
  | .whileLoop condition body, place, _, formed, obeys =>
      .loop trivial
        ((Expr.written formed.1).grow ⟨[.fixed .kwWhile, .fixed .leftParen],
          .fixed .rightParen :: body.spelling, by simp [Phrase.spelling]⟩)
        (.continuePoint trivial
          ((Phrase.tree_written body (place.enter .loop) none formed.2 obeys).grow
          ⟨.fixed .kwWhile :: .fixed .leftParen ::
            (condition.spelling ++ [.fixed .rightParen]), [], by
            simp [Phrase.spelling]⟩))
  | .forLoop _ _ _ body, place, label, formed, obeys =>
      written_forLoop formed
        (Phrase.tree_written body (place.enter .loop) none formed.2.2.2 obeys) label
  | .breakOut _ _, _, _, _, _ => .breakOut (List.infix_refl _)
  | .continueOn _ _, _, _, _, _ => .continueOn (List.infix_refl _)
  | .returning line _, _, _, formed, _ =>
      .returning trivial (Expr.written_in formed [.on .kwReturn line] [.fixed .semicolon])
  | .labelled label target, place, _, formed, obeys =>
      .labelled trivial ((Phrase.tree_written target _ _ formed.2 obeys).grow
        ⟨[.fixed .colon, .ofName label], [], by simp [Phrase.spelling]⟩)

/-- What becomes of a lawful declaration is written within it. -/
theorem Declaration.tree_written : ∀ (declared : Declaration) (place : Place), declared.WellFormed →
    declared.Obeys place → declared.tree.Written declared.spelling
  | .variable _ _, _, formed, _ => written_initializer formed
  | .function name parameters body, _, formed, obeys =>
      .function obeys.1 fun stmt member =>
        (Declaration.trees_written body .functionBody formed obeys.2 stmt member).grow
          ⟨.fixed .kwFun :: .ofName name :: .fixed .leftParen ::
            (separated (parameters.map fun parameter => [.ofName parameter]) ++
              [.fixed .rightParen, .fixed .leftBrace]), [.fixed .rightBrace], by
            simp [Declaration.spelling]⟩
  | .statement phrase, place, formed, obeys => Phrase.tree_written phrase place none formed obeys

/-- What becomes of a row of lawful declarations is written within it. -/
theorem Declaration.trees_written : ∀ (body : List Declaration) (place : Place),
    Declaration.AllWellFormed body → Declaration.AllObey body place →
      ∀ stmt ∈ Declaration.trees body, stmt.Written (Declaration.spellings body)
  | [], _, _, _ => by simp [Declaration.trees]
  | first :: rest, place, formed, obeys => by
      have ofFirst := Declaration.tree_written first place formed.1 obeys.1
      have ofRest := Declaration.trees_written rest place formed.2 obeys.2
      refine List.forall_mem_cons.mpr
        ⟨ofFirst.grow ?_, fun stmt member => (ofRest stmt member).grow ?_⟩
      · exact ⟨[], Declaration.spellings rest, by simp [Declaration.spellings]⟩
      · exact ⟨first.spelling, [], by simp [Declaration.spellings]⟩

end

end Lox
