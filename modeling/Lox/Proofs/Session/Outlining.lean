import Lox.Proofs.Decimal.Reading
import Lox.Proofs.Session.Placement
import Lox.Proofs.Syntax.Outlining
import Lox.Proofs.Token.Spacing

/-!
What the outline of a parsed text leaves open.

The names in the trees that are made of a text are its identifiers, and the values in them are those
that its literals stand for, so the trees are legible (`legible_of_parse`). Two texts without a
fault thus have the same outline only if their programs are the same, lines and the names of
infinite numbers apart, and the outline has one line for each statement (`outlines_unambiguous`).
That numbers have to be left apart is a matter of one name: what is too great to be a number is
written as the variable `inf` is (`outline_of_infinite`).
-/

namespace Lox

section Scanned

variable {source : String}

theorem word_of_known {name : Name} (known : Parser.KnownName (· ∈ (scan source).tokens) name) :
    Word name.text := by
  obtain ⟨token, member, kind, rfl⟩ := known
  have formed := scan_formed member (by rw [kind]; decide)
  rwa [kind] at formed

/-- A number in a text is the value of the digits that it is written with. -/
theorem read_of_symbol {token : Token} {value : Float} (member : token ∈ (scan source).tokens)
    (symbol : token.symbol = .number value) : value = Decimal.read token.lexeme.toList := by
  have kind : token.kind = .number := by rw [← token.symbol_kind, symbol, Symbol.kind]
  have formed := scan_formed member (by rw [kind]; decide)
  cases formed.valued rfl String.ofList_toList.symm (scan_valued source token member) with
  | number _ literal =>
      simp only [Token.symbol, kind, literal, Symbol.number.injEq] at symbol
      exact symbol.symm
  | string other => rw [kind] at other; cases other
  | other _ other => exact absurd kind other

theorem read_of_within {tokens : List Token} {marks : List Mark}
    (inside : ∀ token ∈ tokens, token ∈ (scan source).tokens) (spells : Spells marks tokens)
    {value : Literal} (within : (Expr.literal value).Within marks) : value.Read := by
  cases value with
  | number value =>
      rcases within with ⟨-, written⟩ | absent
      · obtain ⟨token, member, fits⟩ :=
          spells.find ⟨.number value, none⟩ (written.subset List.mem_cons_self)
        rw [read_of_symbol (inside token member) fits.1]
        exact Decimal.read_unsigned _
      · cases absent
  | _ => trivial

/-- A text without a fault becomes a legible program. -/
theorem legible_of_parse {expressionOnly : Bool}
    (clean : (parse (scan source).tokens expressionOnly).errorCount = 0) :
    LegibleProgram (parse (scan source).tokens expressionOnly).statements := by
  obtain ⟨shaped, -⟩ := Parser.parse_shaped (scan_ended source) expressionOnly
  obtain ⟨tokens, line, found, scanned⟩ := scan_tokens source
  have accepts := Parser.accepts_of_parse scanned (found ▸ clean)
  rw [← found] at accepts
  obtain ⟨marks, spells, written⟩ := accepts.written
  have inside : ∀ token ∈ tokens, token ∈ (scan source).tokens := fun token member =>
    found ▸ List.mem_append_left _ member
  have named := fun stmt member => (shaped stmt member).names
  intro stmt member
  refine (parts_of_program written stmt member).mono (fun part of => ?_) fun part of name own => ?_
  · cases part with
    | literal value => exact read_of_within inside spells (of _ _ written)
    | «variable» name => exact word_of_known (of _ _ named)
    | assign name value => exact word_of_known (of _ _ named)
    | _ => trivial
  · exact word_of_known (of _ _ named name own)

end Scanned

/-- **Outlines are unambiguous, but for infinite numbers.** Two texts that are parsed without an
error have the same outline if and only if their programs are alike up to lines, with each number
that is too great to be finite read as the variable `inf`. The lines of an outline are the outlines
of the statements, one each. -/
theorem outlines_unambiguous (source other : String)
    (clean : (parse (scan source).tokens false).errorCount = 0)
    (otherClean : (parse (scan other).tokens false).errorCount = 0) :
    let program := (parse (scan source).tokens false).statements
    let otherProgram := (parse (scan other).tokens false).statements
    (renderProgram program = renderProgram otherProgram ↔
      List.Forall₂ (Stmt.Alike anyLines) (program.map Stmt.shown) (otherProgram.map Stmt.shown)) ∧
    Text.lines (renderProgram program) = program.map fun stmt => stmt.outline.render :=
  ⟨(legible_of_parse clean).render_eq_iff (legible_of_parse otherClean),
    (legible_of_parse clean).lines⟩

/-- Two texts of the same number, on different lines. -/
theorem outlines_unambiguous_fraction :
    let program := (parse (scan "var a;\nprint 1.50;").tokens false).statements
    let otherProgram := (parse (scan "var a; print 1.5; // the same").tokens false).statements
    List.Forall₂ (Stmt.Alike anyLines) (program.map Stmt.shown) (otherProgram.map Stmt.shown) ∧
      Text.lines (renderProgram program) = ["(var a)", "(print 1.5)"] := by
  intro program otherProgram
  obtain ⟨same, lines⟩ := outlines_unambiguous "var a;\nprint 1.50;" "var a; print 1.5; // the same"
    (by decide +kernel) (by decide +kernel)
  have shown : program.map (fun stmt => stmt.outline.render) = ["(var a)", "(print 1.5)"] := by
    decide +kernel
  exact ⟨same.mp (by decide +kernel), lines.trans shown⟩

/-- Whether a statement prints the value of a variable. -/
def Stmt.printsVariable : Stmt → Bool
  | .print (.variable _) => true
  | _ => false

theorem Stmt.Alike.printsVariable {lines : Nat → Nat → Prop} {stmt other : Stmt}
    (alike : stmt.Alike lines other) :
    stmt.printsVariable = other.printsVariable := by
  cases alike with
  | print values => cases values <;> rfl
  | _ => rfl

/-- A text that prints a number of three hundred and ten digits. -/
def greatLiteral : List Char :=
  "print 1".toList ++ List.replicate 309 '0' ++ [';']

/-- A number that is too great to be finite has the outline of a variable. -/
theorem outline_of_infinite : ¬ ∀ source other : String,
    (scan source).diagnostics = [] → (scan other).diagnostics = [] →
    (parse (scan source).tokens false).errorCount = 0 →
    (parse (scan other).tokens false).errorCount = 0 →
    renderProgram (parse (scan source).tokens false).statements =
      renderProgram (parse (scan other).tokens false).statements →
    List.Forall₂ (Stmt.Alike anyLines) (parse (scan source).tokens false).statements
      (parse (scan other).tokens false).statements := by
  intro unambiguous
  -- the characters are taken as they are, since there are too many to be decoded again and again
  have scanned : scan (String.ofList greatLiteral) = .ofPieces 1 (pieces greatLiteral) := by
    rw [scan, String.toList_ofList]
  have asserted := unambiguous (String.ofList greatLiteral) "print inf;"
  rw [scanned] at asserted
  have alike := asserted (by decide +kernel) (by decide +kernel) (by decide +kernel)
    (by decide +kernel) (by decide +kernel)
  have same :
      (parse (Scan.ofPieces 1 (pieces greatLiteral)).tokens false).statements.map
        Stmt.printsVariable =
      (parse (scan "print inf;").tokens false).statements.map Stmt.printsVariable := by
    rw [← List.forall₂_eq_eq_eq, List.forall₂_map_left_iff, List.forall₂_map_right_iff]
    exact alike.imp fun _ _ here => here.printsVariable
  exact absurd same (by decide +kernel)

end Lox
