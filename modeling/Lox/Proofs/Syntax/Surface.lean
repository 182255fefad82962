import Lox.Parser.Statement
import Lox.Proofs.Syntax.Spelling

/-!
The surface language of statements.

A `Phrase` is a statement as it is written and a `Declaration` what stands in a row of them; both
are trees of the surface grammar, in which a `for` is still a `for` and a label in front of a loop
is not yet part of it. `spelling` is the row of tokens of such a tree and `tree` is what becomes of
it.

Three things are asked of a tree beyond its form. It is well formed if its expressions are those
that the ladder of operators allows, an `else` belongs to the nearest `if`, and a label stands in
front of something that may have one. It obeys the rules if everything that leaves a loop, a label
or a function has one around it in the same function body (`Place`), and no list of parameters is
too long.
-/

namespace Lox

/-! ### Trees -/

/-- The first clause of a `for`. -/
inductive Clause where
  | variable (name : Name) (first : Option Expr)
  | expression (value : Expr)

mutual

/-- Statements as they are written. -/
inductive Phrase where
  | expression (value : Expr)
  | print (value : Expr)
  | block (body : List Declaration)
  | ifThen (condition : Expr) (thenBranch : Phrase)
  | ifElse (condition : Expr) (thenBranch elseBranch : Phrase)
  | whileLoop (condition : Expr) (body : Phrase)
  | forLoop (first : Option Clause) (condition last : Option Expr) (body : Phrase)
  | breakOut (line : Nat) (label : Option Name)
  | continueOn (line : Nat) (label : Option Name)
  | returning (line : Nat) (value : Expr)
  | labelled (label : Name) (target : Phrase)

/-- What may stand at the top level, in a block and in a function body. -/
inductive Declaration where
  | variable (name : Name) (first : Option Expr)
  | function (name : Name) (parameters : List Name) (body : List Declaration)
  | statement (phrase : Phrase)

end

namespace Phrase

/-- Whether a statement is a loop. -/
def isLoop : Phrase → Bool
  | whileLoop _ _ | forLoop _ _ _ _ => true
  | _ => false

/-- Whether a statement may have a label. -/
def mayBeLabelled : Phrase → Bool
  | whileLoop _ _ | forLoop _ _ _ _ | ifThen _ _ | ifElse _ _ _ | block _ => true
  | _ => false

/-- Whether an `else` behind a statement would belong to an `if` in it. -/
def isOpen : Phrase → Bool
  | ifThen _ _ => true
  | ifElse _ _ elseBranch => elseBranch.isOpen
  | whileLoop _ body | forLoop _ _ _ body => body.isOpen
  | labelled _ target => target.isOpen
  | _ => false

end Phrase

/-! ### Tokens -/

/-- The first value of a variable with what ends its declaration. -/
def initializerSpelling (first : Option Expr) : List Mark :=
  first.elim [] (fun value => .fixed .equal :: value.spelling) ++ [.fixed .semicolon]

/-- The tokens of the declaration of a variable. -/
def variableSpelling (name : Name) (first : Option Expr) : List Mark :=
  .fixed .kwVar :: .ofName name :: initializerSpelling first

/-- The tokens of a first clause with the semicolon that ends it. -/
def Clause.spelling : Clause → List Mark
  | .variable name first => variableSpelling name first
  | .expression value => value.spelling ++ [.fixed .semicolon]

/-- The tokens of a statement that leaves something, with a label or without one. -/
def jumpSpelling (keyword : TokenKind) (line : Nat) (label : Option Name) : List Mark :=
  .on keyword line :: (label.toList.map Mark.ofName ++ [.fixed .semicolon])

mutual

/-- The tokens of a statement, from left to right. -/
def Phrase.spelling : Phrase → List Mark
  | .expression value => value.spelling ++ [.fixed .semicolon]
  | .print value => .fixed .kwPrint :: (value.spelling ++ [.fixed .semicolon])
  | .block body => .fixed .leftBrace :: (Declaration.spellings body ++ [.fixed .rightBrace])
  | .ifThen condition thenBranch =>
    .fixed .kwIf :: .fixed .leftParen ::
      (condition.spelling ++ .fixed .rightParen :: thenBranch.spelling)
  | .ifElse condition thenBranch elseBranch =>
    .fixed .kwIf :: .fixed .leftParen :: (condition.spelling ++ .fixed .rightParen ::
      (thenBranch.spelling ++ .fixed .kwElse :: elseBranch.spelling))
  | .whileLoop condition body =>
    .fixed .kwWhile :: .fixed .leftParen ::
      (condition.spelling ++ .fixed .rightParen :: body.spelling)
  | .forLoop first condition last body =>
    .fixed .kwFor :: .fixed .leftParen :: (first.elim [.fixed .semicolon] Clause.spelling ++
      (condition.elim [] Expr.spelling ++ .fixed .semicolon ::
        (last.elim [] Expr.spelling ++ .fixed .rightParen :: body.spelling)))
  | .breakOut line label => jumpSpelling .kwBreak line label
  | .continueOn line label => jumpSpelling .kwContinue line label
  | .returning line value => .on .kwReturn line :: (value.spelling ++ [.fixed .semicolon])
  | .labelled label target => .fixed .colon :: .ofName label :: target.spelling

/-- The tokens of a declaration, from left to right. -/
def Declaration.spelling : Declaration → List Mark
  | .variable name first => variableSpelling name first
  | .function name parameters body =>
    .fixed .kwFun :: .ofName name :: .fixed .leftParen ::
      (separated (parameters.map fun parameter => [.ofName parameter]) ++ .fixed .rightParen ::
        .fixed .leftBrace :: (Declaration.spellings body ++ [.fixed .rightBrace]))
  | .statement phrase => phrase.spelling

/-- The tokens of a row of declarations. -/
def Declaration.spellings : List Declaration → List Mark
  | [] => []
  | declaration :: rest => declaration.spelling ++ Declaration.spellings rest

end

/-! ### What becomes of them -/

/-- The statement that a first clause is. -/
def Clause.tree : Clause → Stmt
  | .variable name first => .define name first
  | .expression value => .expression value

mutual

/-- What becomes of a statement. The label in front of a loop goes into it: the body of a loop is
where a `continue` with that label goes on. -/
def Phrase.tree : Phrase → (label : Option Name) → Stmt
  | .expression value, _ => .expression value
  | .print value, _ => .print value
  | .block body, _ => .block (Declaration.trees body)
  | .ifThen condition thenBranch, _ => .conditional condition (thenBranch.tree none) none
  | .ifElse condition thenBranch elseBranch, _ =>
    .conditional condition (thenBranch.tree none) (some (elseBranch.tree none))
  | .whileLoop condition body, label => .loop condition (.continuePoint label (body.tree none))
  | .forLoop first condition last body, label =>
    .block ((first.map Clause.tree).toList ++ [.loop (condition.getD (.literal (.bool true)))
      (.block (.continuePoint label (body.tree none) :: (last.map .expression).toList))])
  | .breakOut line label, _ => .breakOut line label
  | .continueOn line label, _ => .continueOn line label
  | .returning line value, _ => .returning line value
  | .labelled label target, _ =>
    .labelled label (target.tree (if target.isLoop then some label else none))

/-- What becomes of a declaration. -/
def Declaration.tree : Declaration → Stmt
  | .variable name first => .define name first
  | .function name parameters body => .function name parameters (Declaration.trees body)
  | .statement phrase => phrase.tree none

/-- What becomes of a row of declarations: none is left out. -/
def Declaration.trees : List Declaration → List Stmt
  | [] => []
  | declaration :: rest => declaration.tree :: Declaration.trees rest

end

/-! ### Form -/

/-- Each expression of a clause is one that the ladder allows. -/
def Clause.WellFormed : Clause → Prop
  | .variable _ first => ∀ value ∈ first, value.WellLevelled
  | .expression value => value.WellLevelled

mutual

/-- Each expression is one that the ladder allows, no `else` would belong to an `if` in front of
which another one stands, and labels stand in front of what may have one. -/
def Phrase.WellFormed : Phrase → Prop
  | .expression value | .print value | .returning _ value => value.WellLevelled
  | .block body => Declaration.AllWellFormed body
  | .ifThen condition thenBranch => condition.WellLevelled ∧ thenBranch.WellFormed
  | .ifElse condition thenBranch elseBranch =>
    condition.WellLevelled ∧ (thenBranch.WellFormed ∧ thenBranch.isOpen = false) ∧
      elseBranch.WellFormed
  | .whileLoop condition body => condition.WellLevelled ∧ body.WellFormed
  | .forLoop first condition last body =>
    (∀ clause ∈ first, clause.WellFormed) ∧ (∀ value ∈ condition, value.WellLevelled) ∧
      (∀ value ∈ last, value.WellLevelled) ∧ body.WellFormed
  | .breakOut _ _ | .continueOn _ _ => True
  | .labelled _ target => target.mayBeLabelled = true ∧ target.WellFormed

/-- The same for a declaration. -/
def Declaration.WellFormed : Declaration → Prop
  | .variable _ first => ∀ value ∈ first, value.WellLevelled
  | .function _ _ body => Declaration.AllWellFormed body
  | .statement phrase => phrase.WellFormed

/-- The same for a row of declarations. -/
def Declaration.AllWellFormed : List Declaration → Prop
  | [] => True
  | declaration :: rest => declaration.WellFormed ∧ Declaration.AllWellFormed rest

end

/-! ### Rules -/

/-- What may be around a statement: the body of a loop, or a label in front of a loop or of
something else. -/
inductive Enclosure where
  | loop
  | label (text : String) (ofLoop : Bool)
  deriving DecidableEq

/-- A place in a program: what is around it in the same function body, and whether that is one. -/
structure Place where
  enclosures : List Enclosure
  inFunction : Bool

namespace Place

/-- The top level. -/
def program : Place := ⟨[], false⟩

/-- The body of a function, whatever is around the function. -/
def functionBody : Place := ⟨[], true⟩

/-- A place inside something. -/
def enter (place : Place) (enclosure : Enclosure) : Place :=
  { place with enclosures := enclosure :: place.enclosures }

/-- Whether a `break` with or without a label may stand at a place. -/
def AllowsBreak (place : Place) : Option Name → Prop
  | none => place.enclosures ≠ []
  | some label => ∃ ofLoop, .label label.text ofLoop ∈ place.enclosures

/-- Whether a `continue` with or without a label may stand at a place. -/
def AllowsContinue (place : Place) : Option Name → Prop
  | none => .loop ∈ place.enclosures
  | some label => .label label.text true ∈ place.enclosures

end Place

mutual

/-- Everything in a statement that leaves a loop, a label or a function has one around it. -/
def Phrase.Obeys : Phrase → Place → Prop
  | .expression _, _ | .print _, _ => True
  | .block body, place => Declaration.AllObey body place
  | .ifThen _ thenBranch, place => thenBranch.Obeys place
  | .ifElse _ thenBranch elseBranch, place => thenBranch.Obeys place ∧ elseBranch.Obeys place
  | .whileLoop _ body, place | .forLoop _ _ _ body, place => body.Obeys (place.enter .loop)
  | .breakOut _ label, place => place.AllowsBreak label
  | .continueOn _ label, place => place.AllowsContinue label
  | .returning _ _, place => place.inFunction = true
  | .labelled label target, place => target.Obeys (place.enter (.label label.text target.isLoop))

/-- The same for a declaration; besides, a function has no more parameters than it may have. -/
def Declaration.Obeys : Declaration → Place → Prop
  | .variable _ _, _ => True
  | .function _ parameters body, _ =>
    parameters.length ≤ argumentLimit ∧ Declaration.AllObey body .functionBody
  | .statement phrase, place => phrase.Obeys place

/-- The same for a row of declarations. -/
def Declaration.AllObey : List Declaration → Place → Prop
  | [], _ => True
  | declaration :: rest, place => declaration.Obeys place ∧ Declaration.AllObey rest place

end

/-! ### First tokens -/

/-- The kinds of token that a statement may begin with. -/
def startsPhrase : List TokenKind :=
  startsExpression ++ Parser.statementKinds

/-- Whether a statement with a first token of a kind is a loop and whether it may have a label. -/
def Phrase.BeginsWith (phrase : Phrase) (kind : TokenKind) : Prop :=
  Parser.startsLoop kind = phrase.isLoop ∧ Parser.takesLabel kind = phrase.mayBeLabelled

theorem startsExpression_plain {kind : TokenKind} (starts : kind ∈ startsExpression) :
    Parser.statementKinds.contains kind = false := by
  simp only [startsExpression, List.mem_cons, List.not_mem_nil, or_false] at starts
  rcases starts with rfl | rfl | rfl | rfl | rfl | rfl | rfl | rfl | rfl <;> decide

theorem Phrase.expression_beginsWith (value : Expr) {kind : TokenKind}
    (plain : Parser.statementKinds.contains kind = false) :
    (Phrase.expression value).BeginsWith kind := by
  constructor
  · cases loops : Parser.startsLoop kind with
    | false => rfl
    | true =>
        rcases (by simpa [Parser.startsLoop] using loops : kind = .kwFor ∨ kind = .kwWhile) with
            rfl | rfl <;>
          cases plain
  · cases takes : Parser.takesLabel kind with
    | false => rfl
    | true =>
        rcases (by simpa [Parser.takesLabel, Parser.startsLoop] using takes :
          ((kind = .kwFor ∨ kind = .kwWhile) ∨ kind = .kwIf) ∨ kind = .leftBrace) with
          ((rfl | rfl) | rfl) | rfl <;> cases plain

/-- The first token of a statement tells whether it is a loop and whether it may have a label. -/
theorem Phrase.spelling_starts (phrase : Phrase) :
    ∃ mark rest, phrase.spelling = mark :: rest ∧ mark.kind ∈ startsPhrase ∧
      phrase.BeginsWith mark.kind := by
  cases phrase with
  | expression value =>
      obtain ⟨mark, rest, spelling, starts⟩ := value.spelling_starts
      exact ⟨mark, _, by rw [Phrase.spelling, spelling, List.cons_append],
        List.mem_append_left _ starts, expression_beginsWith value (startsExpression_plain starts)⟩
  | print value => exact ⟨_, _, rfl, by simp [startsPhrase, Parser.statementKinds], rfl, rfl⟩
  | block body => exact ⟨_, _, rfl, by simp [startsPhrase, Parser.statementKinds], rfl, rfl⟩
  | ifThen condition thenBranch =>
      exact ⟨_, _, rfl, by simp [startsPhrase, Parser.statementKinds], rfl, rfl⟩
  | ifElse condition thenBranch elseBranch =>
      exact ⟨_, _, rfl, by simp [startsPhrase, Parser.statementKinds], rfl, rfl⟩
  | whileLoop condition body =>
      exact ⟨_, _, rfl, by simp [startsPhrase, Parser.statementKinds], rfl, rfl⟩
  | forLoop first condition last body =>
      exact ⟨_, _, rfl, by simp [startsPhrase, Parser.statementKinds], rfl, rfl⟩
  | breakOut line label =>
      exact ⟨_, _, rfl, by simp [startsPhrase, Parser.statementKinds], rfl, rfl⟩
  | continueOn line label =>
      exact ⟨_, _, rfl, by simp [startsPhrase, Parser.statementKinds], rfl, rfl⟩
  | returning line value =>
      exact ⟨_, _, rfl, by simp [startsPhrase, Parser.statementKinds], rfl, rfl⟩
  | labelled label target =>
      exact ⟨_, _, rfl, by simp [startsPhrase, Parser.statementKinds], rfl, rfl⟩

/-- The kinds of token that a declaration may begin with. -/
def startsDeclaration : List TokenKind :=
  [.kwVar, .kwFun] ++ startsPhrase

theorem Declaration.spelling_starts (declaration : Declaration) :
    ∃ mark rest, declaration.spelling = mark :: rest ∧ mark.kind ∈ startsDeclaration := by
  cases declaration with
  | «variable» name first => exact ⟨_, _, rfl, by simp [startsDeclaration]⟩
  | function name parameters body => exact ⟨_, _, rfl, by simp [startsDeclaration]⟩
  | statement phrase =>
      obtain ⟨mark, rest, spelling, starts, -⟩ := phrase.spelling_starts
      exact ⟨mark, rest, spelling, List.mem_append_right _ starts⟩

theorem Declaration.trees_eq (body : List Declaration) : trees body = body.map tree := by
  induction body with
  | nil => rfl
  | cons first rest ih => rw [trees, ih, List.map_cons]

end Lox
