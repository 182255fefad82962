import Lox.Proofs.Syntax.Surface

/-!
Programs with other names.

To respell something is to put another text in the place of each name in it, be it that of a
variable, a parameter, a function or a label, on the line on which it is. Respelling does not get in
the way of anything that is said of the surface language: a respelled tree is written with respelled
tokens, becomes what the tree becomes, respelled, and is lawful if the tree is.
-/

namespace Lox

/-! ### Definitions -/

/-- A name with another text. -/
def Name.respell (rename : String → String) (name : Name) : Name :=
  ⟨rename name.text, name.line⟩

/-- A token in which an identifier has another text. -/
def Token.respell (rename : String → String) (token : Token) : Token :=
  if token.kind = .identifier then { token with lexeme := rename token.lexeme } else token

mutual

/-- An expression with other names. -/
def Expr.respell (rename : String → String) : Expr → Expr
  | .literal value => .literal value
  | .variable name => .variable (name.respell rename)
  | .group inner => .group (inner.respell rename)
  | .unary op line operand => .unary op line (operand.respell rename)
  | .binary op line left right => .binary op line (left.respell rename) (right.respell rename)
  | .logical op left right => .logical op (left.respell rename) (right.respell rename)
  | .assign name value => .assign (name.respell rename) (value.respell rename)
  | .call callee arguments closeLine =>
    .call (callee.respell rename) (Expr.allRespelled rename arguments) closeLine

/-- A row of expressions with other names. -/
def Expr.allRespelled (rename : String → String) : List Expr → List Expr
  | [] => []
  | expr :: rest => expr.respell rename :: Expr.allRespelled rename rest

end

mutual

/-- A statement with other names. -/
def Stmt.respell (rename : String → String) : Stmt → Stmt
  | .expression value => .expression (value.respell rename)
  | .print value => .print (value.respell rename)
  | .define name first => .define (name.respell rename) (first.map (Expr.respell rename))
  | .block body => .block (Stmt.allRespelled rename body)
  | .conditional condition thenBranch none =>
    .conditional (condition.respell rename) (thenBranch.respell rename) none
  | .conditional condition thenBranch (some elseBranch) =>
    .conditional (condition.respell rename) (thenBranch.respell rename)
      (some (elseBranch.respell rename))
  | .loop condition body => .loop (condition.respell rename) (body.respell rename)
  | .breakOut line label => .breakOut line (label.map (Name.respell rename))
  | .continueOn line label => .continueOn line (label.map (Name.respell rename))
  | .labelled label body => .labelled (label.respell rename) (body.respell rename)
  | .continuePoint label body =>
      .continuePoint (label.map (Name.respell rename)) (body.respell rename)
  | .function name parameters body =>
    .function (name.respell rename) (parameters.map (Name.respell rename))
      (Stmt.allRespelled rename body)
  | .returning line value => .returning line (value.respell rename)

/-- A row of statements with other names. -/
def Stmt.allRespelled (rename : String → String) : List Stmt → List Stmt
  | [] => []
  | stmt :: rest => stmt.respell rename :: Stmt.allRespelled rename rest

end

mutual

/-- The names of the functions that are declared in a statement, however deep. -/
def Stmt.functionNames : Stmt → List String
  | .block body => Stmt.allFunctionNames body
  | .conditional _ thenBranch none => thenBranch.functionNames
  | .conditional _ thenBranch (some elseBranch) =>
      thenBranch.functionNames ++ elseBranch.functionNames
  | .loop _ body | .labelled _ body | .continuePoint _ body => body.functionNames
  | .function name _ body => name.text :: Stmt.allFunctionNames body
  | .expression _ | .print _ | .define _ _ | .breakOut _ _ | .continueOn _ _ | .returning _ _ => []

/-- The names of the functions that are declared in a row of statements. -/
def Stmt.allFunctionNames : List Stmt → List String
  | [] => []
  | stmt :: rest => stmt.functionNames ++ Stmt.allFunctionNames rest

end

/-- A first clause with other names. -/
def Clause.respell (rename : String → String) : Clause → Clause
  | .variable name first => .variable (name.respell rename) (first.map (Expr.respell rename))
  | .expression value => .expression (value.respell rename)

mutual

/-- A statement of the surface language with other names. -/
def Phrase.respell (rename : String → String) : Phrase → Phrase
  | .expression value => .expression (value.respell rename)
  | .print value => .print (value.respell rename)
  | .block body => .block (Declaration.allRespelled rename body)
  | .ifThen condition thenBranch => .ifThen (condition.respell rename) (thenBranch.respell rename)
  | .ifElse condition thenBranch elseBranch =>
    .ifElse (condition.respell rename) (thenBranch.respell rename) (elseBranch.respell rename)
  | .whileLoop condition body => .whileLoop (condition.respell rename) (body.respell rename)
  | .forLoop first condition last body =>
    .forLoop (first.map (Clause.respell rename)) (condition.map (Expr.respell rename))
      (last.map (Expr.respell rename)) (body.respell rename)
  | .breakOut line label => .breakOut line (label.map (Name.respell rename))
  | .continueOn line label => .continueOn line (label.map (Name.respell rename))
  | .returning line value => .returning line (value.respell rename)
  | .labelled label target => .labelled (label.respell rename) (target.respell rename)

/-- A declaration with other names. -/
def Declaration.respell (rename : String → String) : Declaration → Declaration
  | .variable name first => .variable (name.respell rename) (first.map (Expr.respell rename))
  | .function name parameters body =>
    .function (name.respell rename) (parameters.map (Name.respell rename))
      (Declaration.allRespelled rename body)
  | .statement phrase => .statement (phrase.respell rename)

/-- A row of declarations with other names. -/
def Declaration.allRespelled (rename : String → String) : List Declaration → List Declaration
  | [] => []
  | declaration :: rest => declaration.respell rename :: Declaration.allRespelled rename rest

end

/-- What is around a statement, with another text for a label. -/
def Enclosure.respell (rename : String → String) : Enclosure → Enclosure
  | .loop => .loop
  | .label text ofLoop => .label (rename text) ofLoop

/-- A place with other labels around. -/
def Place.respell (rename : String → String) (place : Place) : Place :=
  { place with enclosures := place.enclosures.map (Enclosure.respell rename) }

/-- A symbol in which a name has another text. -/
def Symbol.respell (rename : String → String) : Symbol → Symbol
  | .name word => .name (rename word)
  | symbol => symbol

/-- What a tree says of a token, with another text for a name. -/
def Mark.respell (rename : String → String) (mark : Mark) : Mark :=
  { mark with symbol := mark.symbol.respell rename }

variable {rename : String → String}

/-! ### Tokens -/

@[simp] theorem Token.kind_respell (token : Token) : (token.respell rename).kind = token.kind := by
  unfold Token.respell
  split <;> rfl

@[simp] theorem Token.line_respell (token : Token) : (token.respell rename).line = token.line := by
  unfold Token.respell
  split <;> rfl

theorem Token.symbol_respell (token : Token) :
    (token.respell rename).symbol = token.symbol.respell rename := by
  unfold Token.respell
  split
  · rename_i kind
    simp only [Token.symbol, kind, Symbol.respell]
  · rename_i other
    unfold Token.symbol
    split <;> first | rfl | contradiction

/-- If tokens are what marks say, respelled tokens are what respelled marks say. -/
theorem Spells.respell {marks : List Mark} {tokens : List Token} (spells : Spells marks tokens) :
    Spells (marks.map (Mark.respell rename)) (tokens.map (Token.respell rename)) := by
  rw [Spells, List.forall₂_map_left_iff, List.forall₂_map_right_iff]
  refine spells.imp fun mark token fits => ?_
  refine ⟨?_, fun line same => ?_⟩
  · rw [Token.symbol_respell, fits.1]
    rfl
  · rw [Token.line_respell]
    exact fits.2 line same

namespace Mark

-- `simp` takes the marks of a row apart with these in all that follows, by unfolding alone.

@[simp] theorem respell_ofName (name : Name) :
    (ofName name).respell rename = ofName (name.respell rename) := rfl

@[simp] theorem respell_fixed (kind : TokenKind) : (fixed kind).respell rename = fixed kind := rfl

@[simp] theorem respell_on (kind : TokenKind) (line : Nat) :
    (on kind line).respell rename = on kind line := rfl

end Mark

theorem separated_respell (rows : List (List Mark)) :
    (separated rows).map (Mark.respell rename) =
      separated (rows.map (List.map (Mark.respell rename))) := by
  induction rows using separated.induct with
  | case1 => rfl
  | case2 first => rfl
  | case3 first second rest ih => simpa [separated] using ih

/-! ### Expressions -/

namespace Expr

@[simp] theorem allRespelled_eq (exprs : List Expr) :
    allRespelled rename exprs = exprs.map (respell rename) := by
  induction exprs with
  | nil => rfl
  | cons expr rest ih => rw [allRespelled, ih, List.map_cons]

@[simp] theorem respell_combine (op : InfixOp) (line : Nat) (left right : Expr) :
    (op.combine line left right).respell rename =
      op.combine line (left.respell rename) (right.respell rename) := by
  cases op <;> simp [InfixOp.combine, respell]

@[simp] theorem rank_respell (expr : Expr) : (expr.respell rename).rank = expr.rank := by
  cases expr <;> simp [respell, rank]

@[simp] theorem wellLevelled_respell (expr : Expr) :
    (expr.respell rename).WellLevelled ↔ expr.WellLevelled := by
  induction expr with
  | literal value => rfl
  | named name => rfl
  | group inner ih => exact ih
  | unary op line operand ih => simp only [respell, WellLevelled, rank_respell, ih]
  | operation op line left right first second =>
      simp only [respell_combine, wellLevelled_combine, rank_respell, first, second]
  | assign name value ih => exact ih
  | call callee arguments closeLine first all =>
      simp only [respell, WellLevelled, rank_respell, first, allRespelled_eq, allWellLevelled_iff,
        List.length_map, List.forall_mem_map]
      exact and_congr_right fun _ => and_congr_right fun _ =>
        forall₂_congr fun argument given => all argument given

@[simp] theorem spelling_respell (expr : Expr) :
    (expr.respell rename).spelling = expr.spelling.map (Mark.respell rename) := by
  induction expr with
  | literal value => rcases value with _ | ⟨_ | _⟩ | _ | _ <;> rfl
  | named name => rfl
  | group inner ih => simp [respell, spelling, ih]
  | unary op line operand ih => simp [respell, spelling, ih]
  | operation op line left right first second =>
      have mark : (op.mark line).respell rename = op.mark line := by cases op <;> rfl
      simp [first, second, mark]
  | assign name value ih => simp [respell, spelling, ih]
  | call callee arguments closeLine first all =>
      have each : arguments.map (fun argument => (argument.respell rename).spelling) =
          arguments.map fun argument => argument.spelling.map (Mark.respell rename) :=
        List.map_congr_left all
      simp [respell, spelling, first, separated_respell, Function.comp_def, each]

end Expr

/-! ### Statements -/

@[simp] theorem Stmt.allRespelled_eq (body : List Stmt) :
    Stmt.allRespelled rename body = body.map (Stmt.respell rename) := by
  induction body with
  | nil => rfl
  | cons stmt rest ih => rw [allRespelled, ih, List.map_cons]

namespace Phrase

@[simp] theorem isLoop_respell (phrase : Phrase) :
    (phrase.respell rename).isLoop = phrase.isLoop := by
  cases phrase <;> rfl

@[simp] theorem mayBeLabelled_respell (phrase : Phrase) :
    (phrase.respell rename).mayBeLabelled = phrase.mayBeLabelled := by
  cases phrase <;> rfl

theorem isOpen_respell : ∀ phrase : Phrase, (phrase.respell rename).isOpen = phrase.isOpen
  | .ifElse _ _ elseBranch => isOpen_respell elseBranch
  | .whileLoop _ body => isOpen_respell body
  | .forLoop _ _ _ body => isOpen_respell body
  | .labelled _ target => isOpen_respell target
  | .expression _ | .print _ | .block _ | .ifThen _ _ | .breakOut _ _ | .continueOn _ _
  | .returning _ _ => rfl

end Phrase

/-! ### How statements are written -/

theorem initializerSpelling_respell (first : Option Expr) :
    initializerSpelling (first.map (Expr.respell rename)) =
      (initializerSpelling first).map (Mark.respell rename) := by
  cases first <;> simp [initializerSpelling]

theorem variableSpelling_respell (name : Name) (first : Option Expr) :
    variableSpelling (name.respell rename) (first.map (Expr.respell rename)) =
      (variableSpelling name first).map (Mark.respell rename) := by
  simp [variableSpelling, initializerSpelling_respell]

theorem Clause.spelling_respell (clause : Clause) :
    (clause.respell rename).spelling = clause.spelling.map (Mark.respell rename) := by
  cases clause with
  | «variable» name first => exact variableSpelling_respell name first
  | expression value => simp [Clause.respell, Clause.spelling]

theorem jumpSpelling_respell (keyword : TokenKind) (line : Nat) (label : Option Name) :
    jumpSpelling keyword line (label.map (Name.respell rename)) =
      (jumpSpelling keyword line label).map (Mark.respell rename) := by
  cases label <;> simp [jumpSpelling]

mutual

theorem Phrase.spelling_respell : ∀ phrase : Phrase,
    (phrase.respell rename).spelling = phrase.spelling.map (Mark.respell rename)
  | .expression value => by simp [Phrase.respell, Phrase.spelling]
  | .print value => by simp [Phrase.respell, Phrase.spelling]
  | .block body => by simp [Phrase.respell, Phrase.spelling, Declaration.spellings_respell body]
  | .ifThen condition thenBranch => by
      simp [Phrase.respell, Phrase.spelling, Phrase.spelling_respell thenBranch]
  | .ifElse condition thenBranch elseBranch => by
      simp [Phrase.respell, Phrase.spelling, Phrase.spelling_respell thenBranch,
        Phrase.spelling_respell elseBranch]
  | .whileLoop condition body => by
      simp [Phrase.respell, Phrase.spelling, Phrase.spelling_respell body]
  | .forLoop first condition last body => by
      have ofFirst : (first.map (Clause.respell rename)).elim [.fixed .semicolon] Clause.spelling =
          (first.elim [.fixed .semicolon] Clause.spelling).map (Mark.respell rename) := by
        cases first <;> simp [Clause.spelling_respell]
      have ofOption (value : Option Expr) :
          (value.map (Expr.respell rename)).elim [] Expr.spelling =
          (value.elim [] Expr.spelling).map (Mark.respell rename) := by
        cases value <;> simp
      simp [Phrase.respell, Phrase.spelling, Phrase.spelling_respell body, ofFirst, ofOption]
  | .breakOut line label => jumpSpelling_respell .kwBreak line label
  | .continueOn line label => jumpSpelling_respell .kwContinue line label
  | .returning line value => by simp [Phrase.respell, Phrase.spelling]
  | .labelled label target => by
      simp [Phrase.respell, Phrase.spelling, Phrase.spelling_respell target]

theorem Declaration.spelling_respell : ∀ declared : Declaration,
    (declared.respell rename).spelling = declared.spelling.map (Mark.respell rename)
  | .variable name first => variableSpelling_respell name first
  | .function name parameters body => by
      simp [Declaration.respell, Declaration.spelling, Declaration.spellings_respell body,
        separated_respell,
        Function.comp_def]
  | .statement phrase => Phrase.spelling_respell phrase

/-- A respelled row of declarations is written with respelled tokens. -/
theorem Declaration.spellings_respell : ∀ body : List Declaration,
    Declaration.spellings (Declaration.allRespelled rename body) =
      (Declaration.spellings body).map (Mark.respell rename)
  | [] => rfl
  | first :: rest => by
      simp [Declaration.allRespelled, Declaration.spellings, Declaration.spelling_respell first,
        Declaration.spellings_respell rest]

end

/-! ### What becomes of statements -/

theorem Clause.tree_respell (clause : Clause) :
    (clause.respell rename).tree = clause.tree.respell rename := by
  cases clause <;> rfl

mutual

theorem Phrase.tree_respell : ∀ (phrase : Phrase) (label : Option Name),
    (phrase.respell rename).tree (label.map (Name.respell rename)) =
    (phrase.tree label).respell rename
  | .expression _, _ | .print _, _ | .breakOut _ _, _ | .continueOn _ _, _
  | .returning _ _, _ => rfl
  | .block body, _ => congrArg Stmt.block (Declaration.trees_respell body)
  | .ifThen condition thenBranch, _ => by
      simp only [Phrase.respell, Phrase.tree, Stmt.respell, ← Phrase.tree_respell thenBranch none,
        Option.map_none]
  | .ifElse condition thenBranch elseBranch, _ => by
      simp only [Phrase.respell, Phrase.tree, Stmt.respell, ← Phrase.tree_respell thenBranch none,
        ← Phrase.tree_respell elseBranch none, Option.map_none]
  | .whileLoop condition body, label => by
      simp only [Phrase.respell, Phrase.tree, Stmt.respell, ← Phrase.tree_respell body none,
        Option.map_none]
  | .forLoop first condition last body, label => by
      have ofBody := Phrase.tree_respell body none
      rw [Option.map_none] at ofBody
      cases first <;> cases condition <;> cases last <;>
        simp [Phrase.respell, Phrase.tree, Stmt.respell, Expr.respell, Clause.tree_respell, ofBody]
  | .labelled label target, _ => by
      have inner : (if target.isLoop then some (label.respell rename) else none) =
          (if target.isLoop then some label else none).map (Name.respell rename) := by
        split <;> rfl
      simp only [Phrase.respell, Phrase.tree, Stmt.respell, Phrase.isLoop_respell, inner,
        Phrase.tree_respell target]

theorem Declaration.tree_respell : ∀ declared : Declaration,
    (declared.respell rename).tree = declared.tree.respell rename
  | .variable _ _ => rfl
  | .function name parameters body => by
      simp only [Declaration.respell, Declaration.tree, Stmt.respell,
        Declaration.trees_respell body]
  | .statement phrase => Phrase.tree_respell phrase none

/-- A respelled row of declarations becomes respelled statements. -/
theorem Declaration.trees_respell : ∀ body : List Declaration,
    Declaration.trees (Declaration.allRespelled rename body) =
      Stmt.allRespelled rename (Declaration.trees body)
  | [] => rfl
  | first :: rest => by
      rw [Declaration.allRespelled, Declaration.trees, Declaration.trees, Stmt.allRespelled,
        Declaration.tree_respell first, Declaration.trees_respell rest]

end

/-! ### Form and rules -/

theorem wellLevelled_of_map {value : Option Expr} (formed : ∀ expr ∈ value, expr.WellLevelled) :
    ∀ expr ∈ value.map (Expr.respell rename), expr.WellLevelled := by
  intro expr member
  obtain ⟨given, found, rfl⟩ := Option.map_eq_some_iff.mp member
  exact (Expr.wellLevelled_respell given).mpr (formed given found)

theorem Clause.wellFormed_respell {clause : Clause} (formed : clause.WellFormed) :
    (clause.respell rename).WellFormed := by
  cases clause with
  | «variable» name first => exact wellLevelled_of_map formed
  | expression value => exact (Expr.wellLevelled_respell value).mpr formed

mutual

theorem Phrase.wellFormed_respell :
    ∀ {phrase : Phrase}, phrase.WellFormed → (phrase.respell rename).WellFormed
  | .expression value, formed | .print value, formed | .returning _ value, formed =>
      (Expr.wellLevelled_respell value).mpr formed
  | .block _, formed => Declaration.allWellFormed_respell formed
  | .ifThen condition _, formed =>
      ⟨(Expr.wellLevelled_respell condition).mpr formed.1, Phrase.wellFormed_respell formed.2⟩
  | .ifElse condition thenBranch _, formed =>
      ⟨(Expr.wellLevelled_respell condition).mpr formed.1,
        ⟨Phrase.wellFormed_respell formed.2.1.1,
          (Phrase.isOpen_respell thenBranch).trans formed.2.1.2⟩,
        Phrase.wellFormed_respell formed.2.2⟩
  | .whileLoop condition _, formed =>
      ⟨(Expr.wellLevelled_respell condition).mpr formed.1, Phrase.wellFormed_respell formed.2⟩
  | .forLoop first _ _ _, formed => by
      refine ⟨?_, wellLevelled_of_map formed.2.1, wellLevelled_of_map formed.2.2.1,
        Phrase.wellFormed_respell formed.2.2.2⟩
      intro clause member
      obtain ⟨given, found, rfl⟩ := Option.map_eq_some_iff.mp member
      exact Clause.wellFormed_respell (formed.1 given found)
  | .breakOut _ _, _ | .continueOn _ _, _ => trivial
  | .labelled _ target, formed =>
      ⟨(Phrase.mayBeLabelled_respell target).trans formed.1, Phrase.wellFormed_respell formed.2⟩

theorem Declaration.wellFormed_respell : ∀ {declared : Declaration},
    declared.WellFormed → (declared.respell rename).WellFormed
  | .variable _ _, formed => wellLevelled_of_map formed
  | .function _ _ _, formed => Declaration.allWellFormed_respell formed
  | .statement _, formed => Phrase.wellFormed_respell formed

/-- A respelled row of declarations is well formed. -/
theorem Declaration.allWellFormed_respell : ∀ {body : List Declaration},
    Declaration.AllWellFormed body →
      Declaration.AllWellFormed (Declaration.allRespelled rename body)
  | [], _ => trivial
  | _ :: _, formed =>
      ⟨Declaration.wellFormed_respell formed.1, Declaration.allWellFormed_respell formed.2⟩

end

theorem Place.mem_respell {place : Place} {enclosure : Enclosure}
    (member : enclosure ∈ place.enclosures) :
    enclosure.respell rename ∈ (place.respell rename).enclosures :=
  List.mem_map_of_mem member

theorem Place.allowsBreak_respell {place : Place} {label : Option Name}
    (allows : place.AllowsBreak label) :
    (place.respell rename).AllowsBreak (label.map (Name.respell rename)) := by
  cases label with
  | none => exact mt List.map_eq_nil_iff.mp allows
  | some label => exact allows.imp fun _ => Place.mem_respell

theorem Place.allowsContinue_respell {place : Place} {label : Option Name}
    (allows : place.AllowsContinue label) :
    (place.respell rename).AllowsContinue (label.map (Name.respell rename)) := by
  cases label with
  | none => exact Place.mem_respell allows
  | some label => exact Place.mem_respell allows

mutual

theorem Phrase.obeys_respell : ∀ (phrase : Phrase) (place : Place), phrase.Obeys place →
    (phrase.respell rename).Obeys (place.respell rename)
  | .expression _, _, _ | .print _, _, _ => trivial
  | .block body, place, obeys => Declaration.allObey_respell body place obeys
  | .ifThen _ thenBranch, place, obeys => Phrase.obeys_respell thenBranch place obeys
  | .ifElse _ thenBranch elseBranch, place, obeys =>
      ⟨Phrase.obeys_respell thenBranch place obeys.1, Phrase.obeys_respell elseBranch place obeys.2⟩
  | .whileLoop _ body, place, obeys => Phrase.obeys_respell body (place.enter .loop) obeys
  | .forLoop _ _ _ body, place, obeys => Phrase.obeys_respell body (place.enter .loop) obeys
  | .breakOut _ _, _, obeys => Place.allowsBreak_respell obeys
  | .continueOn _ _, _, obeys => Place.allowsContinue_respell obeys
  | .returning _ _, _, obeys => obeys
  | .labelled label target, place, obeys => by
      have inner :=
        Phrase.obeys_respell target (place.enter (.label label.text target.isLoop)) obeys
      have same : (target.respell rename).isLoop = target.isLoop := Phrase.isLoop_respell target
      rwa [← same] at inner

theorem Declaration.obeys_respell :
    ∀ (declared : Declaration) (place : Place), declared.Obeys place →
    (declared.respell rename).Obeys (place.respell rename)
  | .variable _ _, _, _ => trivial
  | .function _ parameters body, _, obeys => by
      refine ⟨?_, Declaration.allObey_respell body .functionBody obeys.2⟩
      rw [List.length_map]
      exact obeys.1
  | .statement phrase, place, obeys => Phrase.obeys_respell phrase place obeys

/-- A respelled row of declarations obeys the rules in a respelled place. -/
theorem Declaration.allObey_respell :
    ∀ (body : List Declaration) (place : Place), Declaration.AllObey body place →
    Declaration.AllObey (Declaration.allRespelled rename body) (place.respell rename)
  | [], _, _ => trivial
  | first :: rest, place, obeys =>
      ⟨Declaration.obeys_respell first place obeys.1,
        Declaration.allObey_respell rest place obeys.2⟩

end

end Lox
