import Lox.Proofs.Parser.Attempt
import Lox.Proofs.Token.Joining

/-!
Programs one after another.

The surface language is closed under putting programs in a row, and every program in the row keeps
its declarations (`Derives.append`). Since a row of tokens is accepted exactly if it derives a
program, texts that are accepted one by one are accepted together, and the statements of the joined
text are those of the texts in their order, but for their lines (`parse_joined`).
-/

namespace Lox

/-! ### Programs in a row -/

namespace Declaration

variable (first second : List Declaration)

theorem spellings_append : spellings (first ++ second) = spellings first ++ spellings second := by
  induction first with
  | nil => rfl
  | cons declaration rest ih => simp only [List.cons_append, spellings, ih, List.append_assoc]

variable {first second}

theorem allWellFormed_append (left : AllWellFormed first) (right : AllWellFormed second) :
    AllWellFormed (first ++ second) := by
  induction first with
  | nil => exact right
  | cons declaration rest ih => exact ⟨left.1, ih left.2⟩

theorem allObey_append {place : Place} (left : AllObey first place) (right : AllObey second place) :
    AllObey (first ++ second) place := by
  induction first with
  | nil => exact right
  | cons declaration rest ih => exact ⟨left.1, ih left.2⟩

end Declaration

theorem Derives.nil : Derives [] [] := ⟨.nil, trivial, trivial⟩

theorem Derives.append {tokens others : List Token} {first second : List Declaration}
    (left : Derives tokens first) (right : Derives others second) :
    Derives (tokens ++ others) (first ++ second) where
  spells := by
    rw [Declaration.spellings_append]
    exact left.spells.append right.spells
  formed := Declaration.allWellFormed_append left.formed right.formed
  obeys := Declaration.allObey_append left.obeys right.obeys

/-- A text in which nothing is wrong, taken as a row of declarations. -/
structure CleanText (text : String) : Prop where
  scans : (scan text).diagnostics = []
  parses : (parse (scan text).tokens false).errorCount = 0

/-- The statements of a text, taken as a row of declarations. -/
def statementsOf (text : String) : List Stmt :=
  (parse (scan text).tokens false).statements

namespace Parser

/-- The tokens of texts that are accepted one by one derive a program together. -/
theorem derives_row {texts : List String} (clean : ∀ text ∈ texts, CleanText text) :
    ∃ program, Derives (texts.flatMap innerTokens) program ∧
      program.map Declaration.tree = texts.flatMap statementsOf := by
  induction texts with
  | nil => exact ⟨[], .nil, rfl⟩
  | cons text rest ih =>
      obtain ⟨here, others⟩ := List.forall_mem_cons.mp clean
      obtain ⟨program, derives, trees⟩ := ih others
      obtain ⟨line, found, inner⟩ := scan_inner text
      obtain ⟨accepts, becomes⟩ := parse_exact line inner
      rw [← found] at accepts becomes
      obtain ⟨first, derivesFirst⟩ := accepts.mp here.parses
      refine ⟨first ++ program, derivesFirst.append derives, ?_⟩
      rw [List.map_append, trees, ← becomes first derivesFirst]
      rfl

/-- Texts that are accepted one by one are accepted when they are joined by line breaks, and become
the same statements. -/
theorem parse_joined {texts : List String} (clean : ∀ text ∈ texts, CleanText text) :
    CleanText (joined texts) ∧
      List.Forall₂ (Stmt.Alike anyLines) (texts.flatMap statementsOf)
        (statementsOf (joined texts)) := by
  obtain ⟨scans, alike⟩ := scan_joined fun text member => (clean text member).scans
  obtain ⟨program, derives, trees⟩ := derives_row clean
  have inner : ∀ token ∈ texts.flatMap innerTokens, token.kind ≠ .endOfInput ∧ token.Carries := by
    intro token member
    obtain ⟨text, -, member⟩ := List.mem_flatMap.mp member
    obtain ⟨line, -, inner⟩ := scan_inner text
    exact inner token member
  obtain ⟨accepts, becomes⟩ := parse_exact 1 inner
  obtain ⟨statements, count, -⟩ := parse_alike (by simp) alike
  rw [becomes program derives, trees] at statements
  exact ⟨⟨scans, count ▸ accepts.mpr ⟨program, derives⟩⟩, statements⟩

end Parser

/-- A text in which nothing is wrong as a row of declarations means the same at the prompt. -/
theorem CleanText.atPrompt {text : String} (clean : CleanText text) :
    parse (scan text).tokens true = parse (scan text).tokens false :=
  have ended := scan_ended text
  Parser.parse_not_bare ended fun _ bare => Parser.bare_not_program ended bare clean.parses

end Lox
