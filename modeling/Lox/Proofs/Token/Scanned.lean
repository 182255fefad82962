import Lox.Token.Scan
import Lox.Proofs.Syntax.Spelling

/-!
What is known of the tokens of a scanned text.

The token that stands for the end of the input comes last and nowhere else, since no piece of the
text has its kind, and a number or a string carries what it was written as. So the tokens before the
last are a row that a parser can pass (`scan_tokens`).
-/

namespace Lox

namespace Piece

/-- A piece that may stand in a text: a token in it is not the end of the input. -/
def Inner (piece : Piece) : Prop :=
  ∀ kind text, piece = .token kind text → kind ≠ .endOfInput

theorem keyword_inner {word : String} {kind : TokenKind}
    (found : TokenKind.keyword? word = some kind) :
    kind ≠ .endOfInput := by
  rw [TokenKind.keyword?, List.lookup_eq_some_iff] at found
  obtain ⟨before, after, reserved, -⟩ := found
  have member : (word, kind) ∈ TokenKind.reserved := by simp [reserved]
  rintro rfl
  simp [TokenKind.reserved] at member

theorem single_inner {c : Char} {kind : TokenKind} (found : single? c = some kind) :
    kind ≠ .endOfInput := by
  rintro rfl
  unfold single? at found
  split at found <;> cases found

theorem widening_inner {c : Char} {narrow wide : TokenKind}
    (found : widening? c = some (narrow, wide)) :
    narrow ≠ .endOfInput ∧ wide ≠ .endOfInput := by
  unfold widening? at found
  split at found <;> cases found <;> exact ⟨by simp, by simp⟩

theorem word_inner (letters : List Char) : (word letters).Inner := by
  rintro kind text ⟨⟩
  cases found : TokenKind.keyword? (String.ofList letters) with
  | none => simp
  | some kind => exact keyword_inner found

theorem cut_inner (c : Char) (rest : List Char) : (cut c rest).1.Inner := by
  fun_cases cut c rest
  case case1 kind found =>
    rintro _ _ ⟨⟩
    exact single_inner found
  case case2 found _ =>
    rintro _ _ ⟨⟩
    exact (widening_inner found).2
  case case3 found _ =>
    rintro _ _ ⟨⟩
    exact (widening_inner found).1
  case case10 => exact word_inner _
  all_goals
    rintro _ _ ⟨⟩
    try simp

theorem pieces_inner (text : List Char) : ∀ piece ∈ pieces text, piece.Inner := by
  fun_induction pieces text with
  | case1 => simp
  | case2 c rest ih => exact List.forall_mem_cons.mpr ⟨cut_inner c rest, ih⟩

end Piece

/-- A token with the value of its text carries a literal of its own kind. -/
theorem literalOf_carries (kind : TokenKind) (lexeme : String) (line : Nat) (text : List Char) :
    (Token.mk kind lexeme line (literalOf kind text)).Carries := by
  constructor
  · rintro ⟨⟩
    exact ⟨_, rfl⟩
  · rintro ⟨⟩
    exact ⟨_, rfl⟩

theorem Scan.ofPieces_tokens {row : List Piece} (inner : ∀ piece ∈ row, piece.Inner) (line : Nat) :
    ∃ (tokens : List Token) (last : Nat),
      (ofPieces line row).tokens = tokens ++ [.endOfInput last] ∧
      ∀ token ∈ tokens, token.kind ≠ .endOfInput ∧ token.Carries := by
  induction row generalizing line with
  | nil => exact ⟨[], line, rfl, by simp⟩
  | cons piece rest ih =>
      obtain ⟨pieceInner, restInner⟩ := List.forall_mem_cons.mp inner
      obtain ⟨tokens, last, found, all⟩ := ih restInner (line + piece.newLines)
      cases piece with
      | token kind text =>
          refine ⟨_ :: tokens, last, congrArg (List.cons _) found,
            List.forall_mem_cons.mpr ⟨?_, all⟩⟩
          exact ⟨pieceInner kind text rfl, literalOf_carries kind _ _ text⟩
      | space c => exact ⟨tokens, last, found, all⟩
      | comment text => exact ⟨tokens, last, found, all⟩
      | stray c => exact ⟨tokens, last, found, all⟩
      | openString text => exact ⟨tokens, last, found, all⟩

/-- A scanned text ends with the end of the input, and in front of it stand tokens to be passed. -/
theorem scan_tokens (source : String) :
    ∃ (tokens : List Token) (line : Nat), (scan source).tokens = tokens ++ [.endOfInput line] ∧
      ∀ token ∈ tokens, token.kind ≠ .endOfInput ∧ token.Carries :=
  Scan.ofPieces_tokens (Piece.pieces_inner source.toList) 1

theorem scan_ended (source : String) :
    ∃ token ∈ (scan source).tokens, token.kind = .endOfInput := by
  obtain ⟨tokens, line, found, -⟩ := scan_tokens source
  rw [found]
  exact ⟨_, List.mem_append_right _ List.mem_cons_self, rfl⟩

end Lox
