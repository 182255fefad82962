import Lox.Proofs.Token.Joining
import Lox.Proofs.Token.Tiling

/-!
Tokens read back from their texts.

What a token was written as is a text of one piece, and a space ends it. So the texts of tokens with
spaces between them are cut into these tokens and nothing else (`pieces_spaced`), and whatever stood
between the tokens of a text, a text that is put together from theirs has the same tokens and no
mistakes (`scan_spaced`).
-/

namespace Lox

/-- The piece that a token was written as. -/
def Token.piece (token : Token) : Piece :=
  .token token.kind token.lexeme.toList

/-- What there is to a token but for its line. -/
def Token.said (token : Token) : TokenKind × String × Option Token.Literal :=
  (token.kind, token.lexeme, token.literal)

/-- The texts of tokens with one space between each two. -/
def spaced (tokens : List Token) : String :=
  " ".intercalate (tokens.map Token.lexeme)

namespace Piece

theorem filterMap_intersperse {α : Type} {read : Piece → Option α} {between : Piece}
    (none : read between = none) (row : List Piece) :
    (row.intersperse between).filterMap read = row.filterMap read := by
  induction row with
  | nil => rfl
  | cons first others ih =>
      cases others with
      | nil => rfl
      | cons second rest =>
          rw [List.intersperse_cons_cons, List.filterMap_cons, List.filterMap_cons_none none, ih,
            ← List.filterMap_cons]

theorem endsBefore_token (token : Token) (stop : Char) : token.piece.EndsBefore stop := by
  refine ⟨fun _ same => ?_, fun _ same => ?_⟩
  · cases same
  · cases same

/-- Lexemes of tokens with spaces between them are cut into these tokens. -/
theorem pieces_spaced {tokens : List Token} (formed : ∀ token ∈ tokens, Lexeme token.piece) :
    pieces (spaced tokens).toList = (tokens.map Token.piece).intersperse (.space ' ') := by
  induction tokens with
  | nil =>
      rw [spaced, List.map_nil, String.intercalate_nil, String.toList_empty, pieces]
      rfl
  | cons first others ih =>
      obtain ⟨ofFirst, ofOthers⟩ := List.forall_mem_cons.mp formed
      have alone : pieces first.lexeme.toList = [first.piece] := ofFirst.pieces_eq
      cases others with
      | nil =>
          rw [spaced, List.map_singleton, String.intercalate_singleton]
          exact alone
      | cons second rest =>
          have ends : ∀ piece ∈ pieces first.lexeme.toList, piece.EndsBefore ' ' := by
            rw [alone]
            exact List.forall_mem_singleton.mpr (endsBefore_token first ' ')
          have joined : (spaced (first :: second :: rest)).toList =
              first.lexeme.toList ++ ' ' :: (spaced (second :: rest)).toList := by
            simp [spaced, String.intercalate_cons_cons]
          rw [joined, pieces_stop rfl _ _ ends, alone, ih ofOthers]
          rfl

end Piece

/-- What a token says that is of a kind and has a text. -/
def saidBy (read : TokenKind × List Char) : TokenKind × String × Option Token.Literal :=
  (read.1, String.ofList read.2, literalOf read.1 read.2)

theorem map_said {tokens : List Token}
    (valued : ∀ token ∈ tokens, token.literal = literalOf token.kind token.lexeme.toList) :
    tokens.map Token.said =
      (tokens.map fun token => (token.kind, token.lexeme.toList)).map saidBy := by
  rw [List.map_map]
  refine List.map_congr_left fun token member => ?_
  simp only [Token.said, valued token member, Function.comp_apply, saidBy, String.ofList_toList]

/-- The text of a token and its kind are all there is to it, if its value is that of its text. -/
theorem said_of_read {tokens others : List Token}
    (read : others.map (fun token => (token.kind, token.lexeme.toList)) =
      tokens.map fun token => (token.kind, token.lexeme.toList))
    (valued : ∀ token ∈ tokens, token.literal = literalOf token.kind token.lexeme.toList)
    (othersValued : ∀ token ∈ others, token.literal = literalOf token.kind token.lexeme.toList) :
    others.map Token.said = tokens.map Token.said := by
  rw [map_said othersValued, read, map_said valued]

theorem scan_valued (source : String) :
    ∀ token ∈ (scan source).tokens, token.literal = literalOf token.kind token.lexeme.toList := by
  obtain ⟨tokens, last, found, -, valued, -⟩ := Scan.ofPieces_found (pieces source.toList) 1
  rw [scan, found]
  exact List.forall_mem_append.mpr ⟨valued, List.forall_mem_singleton.mpr rfl⟩

/-- **Tokens are read back from their texts.** If the texts of the tokens of a source are put
together with one space between each two, then scanning finds the same tokens with the same values
again, and nothing wrong, whatever stood between the tokens of the source. -/
theorem scan_spaced (source : String) : ∃ tokens line,
    (scan source).tokens = tokens ++ [.endOfInput line] ∧
      (∀ token ∈ tokens, token.kind ≠ .endOfInput) ∧
      ∃ others last, (scan (spaced tokens)).tokens = others ++ [.endOfInput last] ∧
        others.map Token.said = tokens.map Token.said ∧
          (scan (spaced tokens)).diagnostics = [] := by
  obtain ⟨tokens, line, found, read, valued, -⟩ := Scan.ofPieces_found (pieces source.toList) 1
  have tiles := (Piece.tiles_iff source.toList _).mpr rfl
  have formed : ∀ token ∈ tokens, Piece.Lexeme token.piece := tiles.formed read
  obtain ⟨others, last, foundAgain, readAgain, valuedAgain, reported⟩ :=
    Scan.ofPieces_found (pieces (spaced tokens).toList) 1
  have kept {α : Type} {read : Piece → Option α} (none : read (.space ' ') = none) :
      (pieces (spaced tokens).toList).filterMap read = tokens.filterMap (read ∘ Token.piece) := by
    rw [Piece.pieces_spaced formed, Piece.filterMap_intersperse none, List.filterMap_map]
  have same : others.map (fun token => (token.kind, token.lexeme.toList)) =
      tokens.map fun token => (token.kind, token.lexeme.toList) := by
    rw [readAgain, kept rfl, ← List.filterMap_eq_map]
    rfl
  have clean : tokens.filterMap (Piece.fault? ∘ Token.piece) = [] :=
    List.filterMap_eq_nil_iff.mpr fun _ _ => rfl
  rw [kept rfl, clean, List.forall₂_nil_left_iff] at reported
  exact ⟨tokens, line, found, fun token member =>
    (formed token member).inner, others, last, foundAgain,
    said_of_read same valued valuedAgain, reported⟩

end Lox
