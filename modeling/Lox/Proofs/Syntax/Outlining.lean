import Lox.Proofs.Decimal.Digits
import Lox.Proofs.Syntax.Alike
import Lox.Proofs.Syntax.Rendering
import Lox.Proofs.Syntax.Shape
import Lox.Proofs.Token.Tiling

/-!
A program can be read off its outline, but for its lines and for numbers that are too great.

The names in a program are words and the numbers in it have no sign. A word is neither a keyword nor
a numeral, so it can be told from everything else that an atom can be, with one exception: an
infinite number is written `inf`, which is a word. What an outline shows is therefore a tree in
which such a number is the variable of that name (`Expr.shown`). Apart from that the first part of a
list and the number of its parts say which form of expression or statement it is the outline of, and
trees with the same outline are alike (`Expr.alike_of_outline`, `Stmt.alike_of_outline`).
-/

namespace Lox

/-! ### Legible trees -/

/-- The text of an identifier. -/
def Word (text : String) : Prop :=
  Piece.Lexeme (.token .identifier text.toList)

/-- A value that can be read off a text: its number has no sign. -/
def Literal.Read : Literal → Prop
  | .number value => Decimal.Binary.ofFloat value = .infinite false ∨
      ∃ m q, Decimal.Binary.ofFloat value = .finite false m q
  | _ => True

/-- A value that can be read off a text and whose number is not too great. -/
def Literal.Finite : Literal → Prop
  | .number value => ∃ m q, Decimal.Binary.ofFloat value = .finite false m q
  | _ => True

/-- What is asked of an expression if its names are to be words, and its values as asked. -/
def Expr.Legible (asked : Literal → Prop) : Expr → Prop
  | .literal value => asked value
  | .variable name | .assign name _ => Word name.text
  | _ => True

/-- What is asked of a statement if its names are to be words. -/
def Stmt.Legible (stmt : Stmt) : Prop :=
  ∀ name ∈ stmt.ownNames, Word name.text

/-! ### What an outline shows -/

/-- A value as its text shows it: an infinite number is the variable `inf`. -/
def Literal.shown : Literal → Expr
  | .number value =>
    if Decimal.Binary.ofFloat value = .infinite false then
      .variable ⟨"inf", 0⟩ else .literal (.number value)
  | value => .literal value

mutual

/-- An expression as its outline shows it. -/
def Expr.shown : Expr → Expr
  | .literal value => value.shown
  | .variable name => .variable name
  | .group inner => .group inner.shown
  | .unary op line operand => .unary op line operand.shown
  | .binary op line left right => .binary op line left.shown right.shown
  | .logical op left right => .logical op left.shown right.shown
  | .assign name value => .assign name value.shown
  | .call callee arguments closeLine => .call callee.shown (Expr.allShown arguments) closeLine

/-- A row of expressions as their outlines show them. -/
def Expr.allShown : List Expr → List Expr
  | [] => []
  | expr :: rest => expr.shown :: Expr.allShown rest

end

mutual

/-- A statement as its outline shows it. -/
def Stmt.shown : Stmt → Stmt
  | .expression value => .expression value.shown
  | .print value => .print value.shown
  | .define name first => .define name (first.map Expr.shown)
  | .block body => .block (Stmt.allShown body)
  | .conditional condition thenBranch none => .conditional condition.shown thenBranch.shown none
  | .conditional condition thenBranch (some elseBranch) =>
    .conditional condition.shown thenBranch.shown (some elseBranch.shown)
  | .loop condition body => .loop condition.shown body.shown
  | .breakOut line label => .breakOut line label
  | .continueOn line label => .continueOn line label
  | .labelled label body => .labelled label body.shown
  | .continuePoint label body => .continuePoint label body.shown
  | .function name parameters body => .function name parameters (Stmt.allShown body)
  | .returning line value => .returning line value.shown

/-- A row of statements as their outlines show them. -/
def Stmt.allShown : List Stmt → List Stmt
  | [] => []
  | stmt :: rest => stmt.shown :: Stmt.allShown rest

end

@[simp] theorem Expr.allShown_eq (exprs : List Expr) :
    Expr.allShown exprs = exprs.map Expr.shown := by
  induction exprs with
  | nil => rfl
  | cons expr rest ih => rw [Expr.allShown, ih, List.map_cons]

@[simp] theorem Stmt.allShown_eq (stmts : List Stmt) :
    Stmt.allShown stmts = stmts.map Stmt.shown := by
  induction stmts with
  | nil => rfl
  | cons stmt rest ih => rw [Stmt.allShown, ih, List.map_cons]

@[simp] theorem Stmt.shown_conditional (condition : Expr) (thenBranch : Stmt)
    (elseBranch : Option Stmt) :
    (Stmt.conditional condition thenBranch elseBranch).shown =
      .conditional condition.shown thenBranch.shown (elseBranch.map Stmt.shown) := by
  cases elseBranch <;> rfl

@[simp] theorem Expr.outlines_eq (exprs : List Expr) :
    Expr.outlines exprs = exprs.map Expr.outline := by
  induction exprs with
  | nil => rfl
  | cons expr rest ih => rw [Expr.outlines, ih, List.map_cons]

@[simp] theorem Stmt.outlines_eq (stmts : List Stmt) :
    Stmt.outlines stmts = stmts.map Stmt.outline := by
  induction stmts with
  | nil => rfl
  | cons stmt rest ih => rw [Stmt.outlines, ih, List.map_cons]

@[simp] theorem Stmt.outline_define (name : Name) (first : Option Expr) :
    (Stmt.define name first).outline =
    .node (.atom "var" :: .ofName name :: (first.map Expr.outline).toList) := by
  cases first <;> rfl

@[simp] theorem Stmt.outline_conditional (condition : Expr) (thenBranch : Stmt)
    (elseBranch : Option Stmt) :
    (Stmt.conditional condition thenBranch elseBranch).outline =
      .node (.atom "if" :: condition.outline :: thenBranch.outline ::
        (elseBranch.map Stmt.outline).toList) := by
  cases elseBranch <;> rfl

/-! ### An outline shows no more than that -/

theorem Literal.outline_shown (value : Literal) : value.shown.outline = .atom value.render := by
  cases value with
  | number value =>
      rw [Literal.shown]
      split
      · rename_i infinite
        rw [Expr.outline, Outline.ofName, Literal.render, Decimal.text, infinite]
        rfl
      · rfl
  | _ => rfl

mutual

theorem Expr.outline_shown : ∀ expr : Expr, expr.shown.outline = expr.outline
  | .literal value => value.outline_shown
  | .variable _ => rfl
  | .group inner => by rw [shown, outline, inner.outline_shown, outline]
  | .unary _ _ operand => by rw [shown, outline, operand.outline_shown, outline]
  | .binary _ _ left right => by
      rw [shown, outline, left.outline_shown, right.outline_shown, outline]
  | .logical _ left right => by
      rw [shown, outline, left.outline_shown, right.outline_shown, outline]
  | .assign _ value => by rw [shown, outline, value.outline_shown, outline]
  | .call callee arguments _ => by
      rw [shown, outline, callee.outline_shown, Expr.outlines_shown arguments, outline]

theorem Expr.outlines_shown :
    ∀ exprs : List Expr, Expr.outlines (Expr.allShown exprs) = Expr.outlines exprs
  | [] => rfl
  | expr :: rest => by
      rw [allShown, outlines, expr.outline_shown, Expr.outlines_shown rest, outlines]

end

mutual

/-- A statement has the outline of what its outline shows. -/
theorem Stmt.outline_shown : ∀ stmt : Stmt, stmt.shown.outline = stmt.outline
  | .expression value | .print value => by rw [shown, outline, value.outline_shown, outline]
  | .returning _ value => by rw [shown, outline, value.outline_shown, outline]
  | .define _ none => rfl
  | .define _ (some value) => by rw [shown, Option.map_some, outline, value.outline_shown, outline]
  | .block body => by rw [shown, outline, Stmt.outlines_shown body, outline]
  | .conditional condition thenBranch none => by
      rw [shown, outline, condition.outline_shown, thenBranch.outline_shown, outline]
  | .conditional condition thenBranch (some elseBranch) => by
      rw [shown, outline, condition.outline_shown, thenBranch.outline_shown,
        elseBranch.outline_shown, outline]
  | .loop condition body => by
      rw [shown, outline, condition.outline_shown, body.outline_shown, outline]
  | .breakOut _ _ | .continueOn _ _ => rfl
  | .labelled _ body | .continuePoint _ body => by rw [shown, outline, body.outline_shown, outline]
  | .function _ _ body => by rw [shown, outline, Stmt.outlines_shown body, outline]

theorem Stmt.outlines_shown :
    ∀ stmts : List Stmt, Stmt.outlines (Stmt.allShown stmts) = Stmt.outlines stmts
  | [] => rfl
  | stmt :: rest => by
      rw [allShown, outlines, stmt.outline_shown, Stmt.outlines_shown rest, outlines]

end

section Alike

variable {lines : Nat → Nat → Prop}

theorem Name.Alike.outline_eq {name other : Name} (alike : name.Alike lines other) :
    Outline.ofName name = .ofName other :=
  congrArg Outline.atom alike.text

theorem Name.map_outline_eq {names others : List Name}
    (alike : List.Forall₂ (Name.Alike lines) names others) :
    names.map Outline.ofName = others.map Outline.ofName := by
  rw [← List.forall₂_eq_eq_eq, List.forall₂_map_left_iff, List.forall₂_map_right_iff]
  exact alike.imp fun _ _ => Name.Alike.outline_eq

theorem Name.label_outline_eq {label other : Option Name}
    (alike : Option.Rel (Name.Alike lines) label other) :
    label.toList.map Outline.ofName = other.toList.map Outline.ofName := by
  cases alike with
  | none => rfl
  | some alike => exact congrArg (fun outline => [outline]) alike.outline_eq

mutual

theorem Expr.Alike.outline_eq :
    ∀ {expr other : Expr}, expr.Alike lines other → expr.outline = other.outline
  | .literal _, _, .literal _ => rfl
  | .unary .., _, .unary _ _ operands => by rw [outline, operands.outline_eq, outline]
  | .binary .., _, .binary _ _ lefts rights => by
      rw [outline, lefts.outline_eq, rights.outline_eq, outline]
  | .logical .., _, .logical _ lefts rights => by
      rw [outline, lefts.outline_eq, rights.outline_eq, outline]
  | .group _, _, .group inners => by rw [outline, inners.outline_eq, outline]
  | .variable _, _, .variable names => by rw [outline, names.outline_eq, outline]
  | .assign .., _, .assign names values => by
      rw [outline, names.outline_eq, values.outline_eq, outline]
  | .call .., _, .call callees given _ => by
      rw [outline, callees.outline_eq, Expr.outlines_alike given, outline]

theorem Expr.outlines_alike : ∀ {exprs others : List Expr},
    List.Forall₂ (Expr.Alike lines) exprs others → Expr.outlines exprs = Expr.outlines others
  | [], _, .nil => rfl
  | _ :: _, _, .cons first rest => by
      rw [outlines, first.outline_eq, Expr.outlines_alike rest, outlines]

end

mutual

/-- Lines do not show in an outline. -/
theorem Stmt.Alike.outline_eq :
    ∀ {stmt other : Stmt}, stmt.Alike lines other → stmt.outline = other.outline
  | .expression _, _, .expression values => by rw [outline, values.outline_eq, outline]
  | .print _, _, .print values => by rw [outline, values.outline_eq, outline]
  | .define _ none, _, .define names .none => by rw [outline, names.outline_eq, outline]
  | .define _ (some _), _, .define names (.some values) => by
      rw [outline, names.outline_eq, values.outline_eq, outline]
  | .block _, _, .block bodies => by rw [outline, Stmt.outlines_alike bodies, outline]
  | .conditional _ _ none, _, .conditional conditions thens .none => by
      rw [outline, conditions.outline_eq, thens.outline_eq, outline]
  | .conditional _ _ (some _), _, .conditional conditions thens (.some elses) => by
      rw [outline, conditions.outline_eq, thens.outline_eq, elses.outline_eq, outline]
  | .loop .., _, .loop conditions bodies => by
      rw [outline, conditions.outline_eq, bodies.outline_eq, outline]
  | .breakOut .., _, .breakOut _ labels => by rw [outline, Name.label_outline_eq labels, outline]
  | .continueOn .., _, .continueOn _ labels => by
      rw [outline, Name.label_outline_eq labels, outline]
  | .labelled .., _, .labelled labels bodies => by
      rw [outline, labels.outline_eq, bodies.outline_eq, outline]
  | .continuePoint .., _, .continuePoint labels bodies => by
      rw [outline, Name.label_outline_eq labels, bodies.outline_eq, outline]
  | .function .., _, .function names parameters bodies => by
      rw [outline, names.outline_eq, Name.map_outline_eq parameters,
        Stmt.outlines_alike bodies, outline]
  | .returning .., _, .returning _ values => by rw [outline, values.outline_eq, outline]

theorem Stmt.outlines_alike : ∀ {stmts others : List Stmt},
    List.Forall₂ (Stmt.Alike lines) stmts others → Stmt.outlines stmts = Stmt.outlines others
  | [], _, .nil => rfl
  | _ :: _, _, .cons first rest => by
      rw [outlines, first.outline_eq, Stmt.outlines_alike rest, outlines]

end

end Alike

/-! ### Atoms -/

theorem Word.view {text : String} (word : Word text) : (∀ kind, (text, kind) ∉ TokenKind.reserved) ∧
    ∃ c rest, text.toList = c :: rest ∧ Piece.startsWord c ∧ ∀ d ∈ rest, Piece.continuesWord d := by
  unfold Word at word
  rw [← String.ofList_toList (s := text), String.toList_ofList]
  generalize text.toList = letters at word ⊢
  cases word with
  | identifier starts goesOn free => exact ⟨free, _, _, rfl, starts, goesOn⟩
  | operator listed => exact absurd listed (by simp [Piece.operators])
  | keyword reserved => exact absurd reserved (by simp [TokenKind.reserved])

theorem word_infinite : Word "inf" := by
  change Piece.Lexeme (.token .identifier ('i' :: ['n', 'f']))
  exact .identifier (by decide) (List.all_eq_true.mp (by decide)) (by simp [TokenKind.reserved])

theorem continues_free {c : Char} (goesOn : Piece.continuesWord c) :
    Outline.endsAtom c = false ∧ c ≠ '(' ∧ c ≠ '"' := by
  refine ⟨?_, ?_, ?_⟩
  · by_contra ends
    simp only [Outline.endsAtom, Bool.not_eq_false, Bool.or_eq_true, beq_iff_eq] at ends
    rcases ends with (rfl | rfl) | rfl <;> exact absurd goesOn (by decide)
  · rintro rfl
    exact absurd goesOn (by decide)
  · rintro rfl
    exact absurd goesOn (by decide)

theorem Word.bare {text : String} (word : Word text) : Outline.Bare text.toList := by
  obtain ⟨-, c, rest, letters, starts, goesOn⟩ := word.view
  rw [letters]
  refine ⟨by simp, List.forall_mem_cons.mpr ⟨continues_free ?_, fun d member =>
    continues_free (goesOn d member)⟩⟩
  rw [Piece.continuesWord, starts, Bool.true_or]

namespace Literal

variable {value other : Literal}

theorem numeral {number : Float} (finite : (Literal.number number).Finite) :
    Decimal.Numeral (Decimal.text number).toList := by
  obtain ⟨m, q, found⟩ := finite
  have canonical : (Decimal.Binary.ofFloat number).WellFormed := Decimal.wellFormed_ofFloat number
  rw [found] at canonical
  rw [Decimal.text, found, Decimal.Binary.toList_text_finite, if_neg Bool.false_ne_true]
  exact (Decimal.magnitude_spec canonical).1

theorem atomic (finite : value.Finite) : Outline.Atomic value.render := by
  cases value with
  | nil => exact .bare (by decide)
  | bool value => cases value <;> exact .bare (by decide)
  | number number =>
      obtain ⟨first, rest, starts, -⟩ := (numeral finite).starts
      refine .bare ⟨?_, fun c member => ?_⟩
      · rw [render, starts]
        simp
      · rcases (numeral finite).digits c member with digit | rfl
        · exact continues_free (by rw [Piece.continuesWord, digit, Bool.or_true])
        · decide
  | text value => exact .quoted value

/-- What begins with a digit is neither a word nor quoted. -/
theorem number_ne {number : Float} (finite : (Literal.number number).Finite) {text : String}
    {c : Char} {rest : List Char} (letters : text.toList = c :: rest) (apart : c.isDigit = false) :
    Decimal.text number ≠ text := by
  rintro rfl
  obtain ⟨first, others, starts, digit⟩ := (numeral finite).starts
  rw [starts] at letters
  rw [List.head_eq_of_cons_eq letters, apart] at digit
  cases digit

theorem quoted_ne {value text : String} {c : Char} {rest : List Char}
    (letters : text.toList = c :: rest) (apart : c ≠ '"') : Text.quoted value ≠ text := by
  rintro rfl
  obtain ⟨others, starts⟩ := Outline.quoted_starts value
  rw [starts] at letters
  exact apart (List.head_eq_of_cons_eq letters).symm

theorem render_ne_word (finite : value.Finite) {text : String} (word : Word text) :
    value.render ≠ text := by
  obtain ⟨free, c, rest, letters, starts, goesOn⟩ := word.view
  cases value with
  | nil =>
      rintro rfl
      exact free .kwNil (by decide)
  | bool value =>
      rintro rfl
      cases value
      · exact free .kwFalse (by decide)
      · exact free .kwTrue (by decide)
  | number number => exact number_ne finite letters (Piece.digit_not_starts starts)
  | text value =>
      refine quoted_ne letters ?_
      rintro rfl
      exact absurd starts (by decide)

theorem eq_number {number : Float} (numberFinite : (Literal.number number).Finite)
    (same : value.render = Decimal.text number) : value = .number number := by
  cases value with
  | nil => exact absurd same.symm (number_ne numberFinite (c := 'n') rfl (by decide))
  | bool value =>
      cases value
      · exact absurd same.symm (number_ne numberFinite (c := 'f') rfl (by decide))
      · exact absurd same.symm (number_ne numberFinite (c := 't') rfl (by decide))
  | number value =>
      obtain ⟨m, q, found⟩ := numberFinite
      rw [Decimal.text_inj (by rw [found]; exact Decimal.Binary.noConfusion) same.symm]
  | text value =>
      obtain ⟨rest, starts⟩ := Outline.quoted_starts value
      exact absurd same.symm (number_ne numberFinite starts (by decide))

theorem eq_text (finite : value.Finite) {text : String} (same : value.render = Text.quoted text) :
    value = .text text := by
  cases value with
  | nil => exact absurd same.symm (quoted_ne (c := 'n') rfl (by decide))
  | bool value =>
      cases value
      · exact absurd same.symm (quoted_ne (c := 'f') rfl (by decide))
      · exact absurd same.symm (quoted_ne (c := 't') rfl (by decide))
  | number value =>
      obtain ⟨rest, starts⟩ := Outline.quoted_starts text
      exact absurd same (number_ne finite starts (by decide))
  | text value => rw [Text.quoted_inj same]

theorem render_inj (finite : value.Finite) (otherFinite : other.Finite)
    (same : value.render = other.render) :
    value = other := by
  cases other with
  | number other => exact eq_number otherFinite same
  | text other => exact eq_text finite same
  | nil =>
      cases value with
      | nil => rfl
      | bool value => cases value <;> exact absurd same (by decide)
      | number value => exact (eq_number finite same.symm).symm
      | text value => exact (eq_text otherFinite same.symm).symm
  | bool other =>
      cases value with
      | nil => cases other <;> exact absurd same (by decide)
      | bool value => cases value <;> cases other <;> first | rfl | exact absurd same (by decide)
      | number value => exact (eq_number finite same.symm).symm
      | text value => exact (eq_text otherFinite same.symm).symm

end Literal

/-! ### Operators -/

theorem UnaryOp.symbol_inj {op other : UnaryOp} (same : op.symbol = other.symbol) : op = other := by
  cases op <;> cases other <;> first | rfl | exact absurd same (by decide)

theorem BinaryOp.symbol_inj {op other : BinaryOp} (same : op.symbol = other.symbol) :
    op = other := by
  cases op <;> cases other <;> first | rfl | exact absurd same (by decide)

theorem LogicalOp.symbol_inj {op other : LogicalOp} (same : op.symbol = other.symbol) :
    op = other := by
  cases op <;> cases other <;> first | rfl | exact absurd same (by decide)

theorem UnaryOp.atomic_symbol (op : UnaryOp) : Outline.Atomic op.symbol := by
  cases op <;> exact .bare (by decide)

theorem BinaryOp.atomic_symbol (op : BinaryOp) : Outline.Atomic op.symbol := by
  cases op <;> exact .bare (by decide)

theorem LogicalOp.atomic_symbol (op : LogicalOp) : Outline.Atomic op.symbol := by
  cases op <;> exact .bare (by decide)

/-- The symbols of operators in front are not the words that other lists begin with. -/
theorem UnaryOp.symbol_apart (op : UnaryOp) : "group" ≠ op.symbol ∧ "call" ≠ op.symbol := by
  cases op <;> decide

theorem BinaryOp.symbol_apart (op : BinaryOp) :
    "=" ≠ op.symbol ∧ "call" ≠ op.symbol ∧ ∀ logical : LogicalOp, logical.symbol ≠ op.symbol := by
  refine ⟨?_, ?_, fun logical => ?_⟩
  · cases op <;> decide
  · cases op <;> decide
  · cases op <;> cases logical <;> decide

theorem LogicalOp.symbol_apart (op : LogicalOp) : "=" ≠ op.symbol ∧ "call" ≠ op.symbol := by
  cases op <;> decide

/-! ### Expressions -/

theorem wellFormed_keyword {text : String} (bare : Outline.Bare text.toList) {parts : List Outline}
    (ofParts : ∀ part ∈ parts, part.WellFormed) : (Outline.node (.atom text :: parts)).WellFormed :=
  .node (List.forall_mem_cons.mpr ⟨.atom (.bare bare), ofParts⟩)

theorem Word.wellFormed {name : Name} (word : Word name.text) : (Outline.ofName name).WellFormed :=
  .atom (.bare word.bare)

namespace Expr

variable {expr other : Expr}

/-- The outline of an expression whose names are words and whose numbers are finite. -/
theorem wellFormed_outline (legible : expr.All (Legible Literal.Finite)) :
    expr.outline.WellFormed := by
  induction legible with
  | literal here => exact .atom (Literal.atomic here)
  | «variable» here => exact Word.wellFormed here
  | @unary op _ _ _ _ operand =>
      exact .node (by simp [operand, Outline.WellFormed.atom op.atomic_symbol])
  | @binary op _ _ _ _ _ _ left right =>
      exact .node (by simp [left, right, Outline.WellFormed.atom op.atomic_symbol])
  | @logical op _ _ _ _ _ left right =>
      exact .node (by simp [left, right, Outline.WellFormed.atom op.atomic_symbol])
  | group _ _ inner => exact wellFormed_keyword (by decide) (by simp [inner])
  | assign here _ value =>
      exact wellFormed_keyword (by decide) (by simp [value, Word.wellFormed here])
  | call _ _ _ callee arguments =>
      rw [outline, outlines_eq]
      exact wellFormed_keyword (by decide)
        (List.forall_mem_cons.mpr ⟨callee, by simpa using arguments⟩)

end Expr

theorem forall₂_of_map_eq {α : Type} {related : α → α → Prop} {outline : α → Outline}
    {row others : List α}
    (each : ∀ first ∈ row, ∀ second ∈ others, outline first = outline second → related first second)
    (same : row.map outline = others.map outline) : List.Forall₂ related row others := by
  induction row generalizing others with
  | nil =>
      obtain rfl := List.map_eq_nil_iff.mp same.symm
      exact .nil
  | cons first row ih =>
      cases others with
      | nil => cases same
      | cons second others =>
          rw [List.map_cons, List.map_cons, List.cons.injEq] at same
          refine .cons (each first List.mem_cons_self second List.mem_cons_self same.1)
            (ih ?_ same.2)
          exact fun first here second there =>
            each first (List.mem_cons_of_mem _ here) second (List.mem_cons_of_mem _ there)

theorem rel_of_map_eq {α : Type} {related : α → α → Prop} {outline : α → Outline}
    {part? other? : Option α}
    (each : ∀ first ∈ part?,
      ∀ second ∈ other?, outline first = outline second → related first second)
    (same : (part?.map outline).toList = (other?.map outline).toList) :
    Option.Rel related part? other? := by
  cases part? with
  | none =>
      cases other? with
      | none => exact .none
      | some other => cases same
  | some part =>
      cases other? with
      | none => cases same
      | some other => exact .some (each part rfl other rfl (List.head_eq_of_cons_eq same))

theorem alike_of_text {name other : Name} (same : Outline.ofName name = .ofName other) :
    name.Alike anyLines other :=
  ⟨Outline.atom.inj same, trivial⟩

/-- Expressions with the same outline are alike, if their names are words and their numbers
finite. -/
theorem Expr.alike_of_outline {expr other : Expr} (legible : expr.All (Legible Literal.Finite))
    (otherLegible : other.All (Legible Literal.Finite)) (same : expr.outline = other.outline) :
    expr.Alike anyLines other := by
  induction legible generalizing other with
  | literal here =>
      cases otherLegible with
      | literal there =>
          rw [Literal.render_inj here there (Outline.atom.inj same)]
          exact .literal _
      | «variable» there => exact absurd (Outline.atom.inj same) (Literal.render_ne_word here there)
      | _ => cases same
  | «variable» here =>
      cases otherLegible with
      | literal there =>
          exact absurd (Outline.atom.inj same).symm (Literal.render_ne_word there here)
      | «variable» there => exact .variable (alike_of_text same)
      | _ => cases same
  | @unary op _ _ _ _ ih =>
      cases otherLegible with
      | unary _ ofOperand =>
          simp only [outline, Outline.node.injEq, List.cons.injEq, Outline.atom.injEq,
            and_true] at same
          rw [UnaryOp.symbol_inj same.1]
          exact .unary _ trivial (ih ofOperand same.2)
      | _ => simp [outline, Outline.ofName, op.symbol_apart.1.symm, op.symbol_apart.2.symm] at same
  | @binary op _ _ _ _ _ _ left right =>
      cases otherLegible with
      | binary _ ofLeft ofRight =>
          simp only [outline, Outline.node.injEq, List.cons.injEq, Outline.atom.injEq,
            and_true] at same
          rw [BinaryOp.symbol_inj same.1]
          exact .binary _ trivial (left ofLeft same.2.1) (right ofRight same.2.2)
      | @logical logical =>
          obtain ⟨-, -, apart⟩ := op.symbol_apart
          simp [outline, (apart logical).symm] at same
      | _ =>
          obtain ⟨assigns, calls, -⟩ := op.symbol_apart
          simp [outline, Outline.ofName, assigns.symm, calls.symm] at same
  | @logical op _ _ _ _ _ left right =>
      cases otherLegible with
      | logical _ ofLeft ofRight =>
          simp only [outline, Outline.node.injEq, List.cons.injEq, Outline.atom.injEq,
            and_true] at same
          rw [LogicalOp.symbol_inj same.1]
          exact .logical _ (left ofLeft same.2.1) (right ofRight same.2.2)
      | @binary binary =>
          obtain ⟨-, -, apart⟩ := binary.symbol_apart
          simp [outline, apart op] at same
      | _ =>
          obtain ⟨assigns, calls⟩ := op.symbol_apart
          simp [outline, Outline.ofName, assigns.symm, calls.symm] at same
  | group _ _ ih =>
      cases otherLegible with
      | group _ ofInner =>
          simp only [outline, Outline.node.injEq, List.cons.injEq, and_true, true_and] at same
          exact .group (ih ofInner same)
      | @unary op => simp [outline, op.symbol_apart.1] at same
      | _ => simp [outline, Outline.ofName] at same
  | assign _ _ ih =>
      cases otherLegible with
      | assign _ ofValue =>
          simp only [outline, Outline.node.injEq, List.cons.injEq, and_true, true_and] at same
          exact .assign (alike_of_text same.1) (ih ofValue same.2)
      | @binary op => simp [outline, op.symbol_apart.1] at same
      | @logical op => simp [outline, op.symbol_apart.1] at same
      | _ => simp [outline, Outline.ofName] at same
  | call _ _ _ callee arguments =>
      cases otherLegible with
      | call _ ofCallee ofArguments =>
          simp only [outline, outlines_eq, Outline.node.injEq, List.cons.injEq, true_and] at same
          refine .call (callee ofCallee same.1) (forall₂_of_map_eq ?_ same.2) trivial
          exact fun first here second there => arguments first here (ofArguments second there)
      | @unary op => simp [outline, op.symbol_apart.2] at same
      | @binary op => simp [outline, op.symbol_apart.2.1] at same
      | @logical op => simp [outline, op.symbol_apart.2] at same
      | _ => simp [outline, Outline.ofName] at same

/-! ### Statements -/

namespace Stmt

theorem wellFormed_names {names : List Name} (words : ∀ name ∈ names, Word name.text) :
    ∀ part ∈ names.map Outline.ofName, part.WellFormed := by
  intro part member
  obtain ⟨name, here, rfl⟩ := List.mem_map.mp member
  exact Word.wellFormed (words name here)

theorem wellFormed_option {α : Type} {outline : α → Outline} {part? : Option α}
    (formed : ∀ part ∈ part?, (outline part).WellFormed) :
    ∀ part ∈ (part?.map outline).toList, part.WellFormed := by
  cases part? with
  | none => simp
  | some part => simpa using formed

theorem wellFormed_row {row : List Stmt} (formed : ∀ stmt ∈ row, stmt.outline.WellFormed) :
    ∀ part ∈ row.map outline, part.WellFormed := by
  intro part member
  obtain ⟨stmt, here, rfl⟩ := List.mem_map.mp member
  exact formed stmt here

/-- The outline of a statement whose names are words and whose numbers are finite. -/
theorem wellFormed_outline {stmt : Stmt}
    (legible : stmt.All (Expr.Legible Literal.Finite) Legible) :
    stmt.outline.WellFormed := by
  induction legible with
  | expression _ value | print _ value | returning _ value =>
      exact wellFormed_keyword (by decide) (by simp [Expr.wellFormed_outline value])
  | @define name first here ofFirst =>
      rw [outline_define]
      refine wellFormed_keyword (by decide) (List.forall_mem_cons.mpr ⟨?_, wellFormed_option ?_⟩)
      · exact Word.wellFormed (here name List.mem_cons_self)
      · exact fun value given => Expr.wellFormed_outline (ofFirst value given)
  | block _ _ body =>
      rw [outline, outlines_eq]
      exact wellFormed_keyword (by decide) (wellFormed_row body)
  | conditional _ condition _ _ thenBranch elseBranch =>
      rw [outline_conditional]
      exact wellFormed_keyword (by decide) (List.forall_mem_cons.mpr
        ⟨Expr.wellFormed_outline condition,
          List.forall_mem_cons.mpr ⟨thenBranch, wellFormed_option elseBranch⟩⟩)
  | loop _ condition _ body =>
      exact wellFormed_keyword (by decide) (by simp [Expr.wellFormed_outline condition, body])
  | breakOut here | continueOn here => exact wellFormed_keyword (by decide) (wellFormed_names here)
  | @labelled name _ here _ body =>
      exact wellFormed_keyword (by decide)
        (by simp [Word.wellFormed (here name List.mem_cons_self), body])
  | continuePoint here _ body =>
      refine wellFormed_keyword (by decide) (List.forall_mem_append.mpr ⟨wellFormed_names here, ?_⟩)
      exact List.forall_mem_singleton.mpr body
  | function here _ body =>
      obtain ⟨ofName, ofParameters⟩ := List.forall_mem_cons.mp here
      rw [outline, outlines_eq]
      exact wellFormed_keyword (by decide) (List.forall_mem_cons.mpr
        ⟨Word.wellFormed ofName,
          List.forall_mem_cons.mpr ⟨.node (wellFormed_names ofParameters), wellFormed_row body⟩⟩)

theorem labels_alike {label other : Option Name}
    (same : label.toList.map Outline.ofName = other.toList.map Outline.ofName) :
    Option.Rel (Name.Alike anyLines) label other := by
  rw [← Option.toList_map, ← Option.toList_map] at same
  exact rel_of_map_eq (fun _ _ _ _ => alike_of_text) same

/-- Statements with the same outline are alike, if their names are words and their numbers
finite. -/
theorem alike_of_outline {stmt other : Stmt}
    (legible : stmt.All (Expr.Legible Literal.Finite) Legible)
    (otherLegible : other.All (Expr.Legible Literal.Finite) Legible)
    (same : stmt.outline = other.outline) :
    stmt.Alike anyLines other := by
  induction legible generalizing other with
  | expression _ value =>
      cases otherLegible with
      | expression _ ofValue =>
          simp only [outline, Outline.node.injEq, List.cons.injEq, and_true, true_and] at same
          exact .expression (Expr.alike_of_outline value ofValue same)
      | _ => simp [outline] at same
  | print _ value =>
      cases otherLegible with
      | print _ ofValue =>
          simp only [outline, Outline.node.injEq, List.cons.injEq, and_true, true_and] at same
          exact .print (Expr.alike_of_outline value ofValue same)
      | _ => simp [outline] at same
  | returning _ value =>
      cases otherLegible with
      | returning _ ofValue =>
          simp only [outline, Outline.node.injEq, List.cons.injEq, and_true, true_and] at same
          exact .returning trivial (Expr.alike_of_outline value ofValue same)
      | _ => simp [outline] at same
  | define _ ofFirst =>
      cases otherLegible with
      | define _ ofOther =>
          simp only [outline_define, Outline.node.injEq, List.cons.injEq, true_and] at same
          refine .define (alike_of_text same.1) (rel_of_map_eq ?_ same.2)
          exact fun value here other there =>
            Expr.alike_of_outline (ofFirst value here) (ofOther other there)
      | _ => simp [outline] at same
  | block _ _ body =>
      cases otherLegible with
      | block _ ofBody =>
          simp only [outline, outlines_eq, Outline.node.injEq, List.cons.injEq, true_and] at same
          refine .block (forall₂_of_map_eq ?_ same)
          exact fun first here second there => body first here (ofBody second there)
      | _ => simp [outline] at same
  | conditional _ condition _ _ thenBranch elseBranch =>
      cases otherLegible with
      | conditional _ ofCondition ofThen ofElse =>
          simp only [outline_conditional, Outline.node.injEq, List.cons.injEq, true_and] at same
          obtain ⟨conditions, thens, elses⟩ := same
          refine .conditional (Expr.alike_of_outline condition ofCondition conditions)
            (thenBranch ofThen thens)
            (rel_of_map_eq ?_ elses)
          exact fun first here second there => elseBranch first here (ofElse second there)
      | _ => simp [outline] at same
  | loop _ condition _ body =>
      cases otherLegible with
      | loop _ ofCondition ofBody =>
          simp only [outline, Outline.node.injEq, List.cons.injEq, and_true, true_and] at same
          exact .loop (Expr.alike_of_outline condition ofCondition same.1) (body ofBody same.2)
      | _ => simp [outline] at same
  | breakOut =>
      cases otherLegible with
      | breakOut =>
          simp only [outline, Outline.node.injEq, List.cons.injEq, true_and] at same
          exact .breakOut trivial (labels_alike same)
      | _ => simp [outline] at same
  | continueOn =>
      cases otherLegible with
      | continueOn =>
          simp only [outline, Outline.node.injEq, List.cons.injEq, true_and] at same
          exact .continueOn trivial (labels_alike same)
      | _ => simp [outline] at same
  | labelled _ _ body =>
      cases otherLegible with
      | labelled _ ofBody =>
          simp only [outline, Outline.node.injEq, List.cons.injEq, and_true, true_and] at same
          exact .labelled (alike_of_text same.1) (body ofBody same.2)
      | _ => simp [outline] at same
  | continuePoint _ _ body =>
      cases otherLegible with
      | continuePoint _ ofBody =>
          simp only [outline, Outline.node.injEq, List.cons.injEq, true_and] at same
          obtain ⟨labels, bodies⟩ := List.append_inj' same rfl
          exact .continuePoint (labels_alike labels) (body ofBody (List.singleton_inj.mp bodies))
      | _ => simp [outline] at same
  | function _ _ body =>
      cases otherLegible with
      | function _ ofBody =>
          simp only [outline, outlines_eq, Outline.node.injEq, List.cons.injEq, true_and] at same
          obtain ⟨names, parameters, bodies⟩ := same
          refine .function (alike_of_text names)
            (forall₂_of_map_eq (fun _ _ _ _ => alike_of_text) parameters) ?_
          exact forall₂_of_map_eq
            (fun first here second there => body first here (ofBody second there)) bodies
      | _ => simp [outline] at same

end Stmt

/-! ### Programs -/

theorem Literal.legible_shown {value : Literal} (read : value.Read) :
    value.shown.All (Expr.Legible Literal.Finite) := by
  cases value with
  | number value =>
      rw [shown]
      split
      · exact .variable word_infinite
      · rename_i finite
        exact .literal (read.resolve_left finite)
  | nil | bool | text => exact .literal trivial

theorem Expr.legible_shown {expr : Expr} (legible : expr.All (Legible Literal.Read)) :
    expr.shown.All (Legible Literal.Finite) := by
  induction legible with
  | literal here => exact Literal.legible_shown here
  | «variable» here => exact .variable here
  | unary _ _ operand => exact .unary trivial operand
  | binary _ _ _ left right => exact .binary trivial left right
  | logical _ _ _ left right => exact .logical trivial left right
  | group _ _ inner => exact .group trivial inner
  | assign here _ value => exact .assign here value
  | call _ _ _ callee arguments =>
      rw [shown, allShown_eq]
      exact .call trivial callee (List.forall_mem_map.mpr arguments)

/-- What an outline shows has finite numbers only. -/
theorem Stmt.legible_shown {stmt : Stmt} (legible : stmt.All (Expr.Legible Literal.Read) Legible) :
    stmt.shown.All (Expr.Legible Literal.Finite) Legible := by
  induction legible with
  | expression here value => exact .expression here (Expr.legible_shown value)
  | print here value => exact .print here (Expr.legible_shown value)
  | returning here value => exact .returning here (Expr.legible_shown value)
  | @define _ first here ofFirst =>
      refine .define here fun value given => ?_
      obtain ⟨value, rfl, rfl⟩ := Option.map_eq_some_iff.mp given
      exact Expr.legible_shown (ofFirst value rfl)
  | block here _ body =>
      rw [shown, allShown_eq]
      exact .block here (List.forall_mem_map.mpr body)
  | conditional here condition _ _ thenBranch elseBranch =>
      rw [shown_conditional]
      refine .conditional here (Expr.legible_shown condition) thenBranch fun stmt given => ?_
      obtain ⟨stmt, rfl, rfl⟩ := Option.map_eq_some_iff.mp given
      exact elseBranch stmt rfl
  | loop here condition _ body => exact .loop here (Expr.legible_shown condition) body
  | breakOut here => exact .breakOut here
  | continueOn here => exact .continueOn here
  | labelled here _ body => exact .labelled here body
  | continuePoint here _ body => exact .continuePoint here body
  | function here _ body =>
      rw [shown, allShown_eq]
      exact .function here (List.forall_mem_map.mpr body)

theorem Stmt.outline_node (stmt : Stmt) : ∃ parts, stmt.outline = .node parts := by
  cases stmt with
  | define name first => cases first <;> exact ⟨_, rfl⟩
  | conditional condition thenBranch elseBranch => cases elseBranch <;> exact ⟨_, rfl⟩
  | _ => exact ⟨_, rfl⟩

theorem toList_renderProgram (program : List Stmt) :
    (renderProgram program).toList = Outline.lines (program.map Stmt.outline) := by
  rw [renderProgram]
  induction program with
  | nil => rfl
  | cons stmt rest ih =>
      rw [List.map_cons, String.join_cons, String.toList_append, ih, String.toList_append,
        List.map_cons]
      rfl

section Programs

variable {program other : List Stmt}

/-- A program of words and numbers without signs. -/
def LegibleProgram (program : List Stmt) : Prop :=
  ∀ stmt ∈ program, stmt.All (Expr.Legible Literal.Read) Stmt.Legible

theorem outlines_shown (program : List Stmt) :
    (program.map Stmt.shown).map Stmt.outline = program.map Stmt.outline := by
  rw [List.map_map]
  exact List.map_congr_left fun stmt _ => stmt.outline_shown

theorem LegibleProgram.wellFormed (legible : LegibleProgram program) :
    ∀ outline ∈ program.map Stmt.outline, outline.WellFormed := by
  intro outline member
  obtain ⟨stmt, here, rfl⟩ := List.mem_map.mp member
  rw [← stmt.outline_shown]
  exact Stmt.wellFormed_outline (Stmt.legible_shown (legible stmt here))

/-- Programs have the same text if and only if they show the same. -/
theorem LegibleProgram.render_eq_iff (legible : LegibleProgram program)
    (otherLegible : LegibleProgram other) :
    renderProgram program = renderProgram other ↔
      List.Forall₂ (Stmt.Alike anyLines) (program.map Stmt.shown) (other.map Stmt.shown) := by
  rw [← String.toList_inj, toList_renderProgram, toList_renderProgram]
  constructor
  · intro same
    have outlines := Outline.lines_inj legible.wellFormed otherLegible.wellFormed same
    rw [← outlines_shown, ← outlines_shown other] at outlines
    refine forall₂_of_map_eq (fun first here second there same => ?_) outlines
    obtain ⟨stmt, member, rfl⟩ := List.mem_map.mp here
    obtain ⟨stmt', member', rfl⟩ := List.mem_map.mp there
    exact Stmt.alike_of_outline (Stmt.legible_shown (legible stmt member))
      (Stmt.legible_shown (otherLegible stmt' member')) same
  · intro alike
    rw [← outlines_shown, ← outlines_shown other, ← Stmt.outlines_eq, ← Stmt.outlines_eq,
      Stmt.outlines_alike alike]

/-- The lines of the text of a program are the texts of its statements. -/
theorem LegibleProgram.lines (legible : LegibleProgram program) :
    Text.lines (renderProgram program) = program.map fun stmt => stmt.outline.render := by
  rw [Text.lines, toList_renderProgram, Outline.linesFrom_lines legible.wellFormed, List.map_map]
  · rfl
  · intro outline member
    obtain ⟨stmt, -, rfl⟩ := List.mem_map.mp member
    exact stmt.outline_node

end Programs

end Lox
