import Lox.Proofs.Token.Joining
import Lox.Proofs.Token.Lines

/-!
A text below another.

The line on which a row of pieces begins counts for the lines of what is found in it and for nothing
else (`ofPieces_shift`), and it ends as many lines further down as there are line breaks in it
(`ofPieces_last`). So a text that stands below another, behind a line break, is scanned as if it
stood alone, but for its lines, and changes nothing in what is found above it (`scan_below`). Only a
string that is open at the end of the first text would go on in the second.
-/

namespace Lox

/-- The same token so many lines further down. -/
def Token.shift (lines : Nat) (token : Token) : Token :=
  { token with line := token.line + lines }

/-- The same diagnostic so many lines further down. -/
def Diagnostic.shift (lines : Nat) (diagnostic : Diagnostic) : Diagnostic :=
  { diagnostic with line := diagnostic.line + lines }

namespace Scan

/-- The same findings so many lines further down. -/
def shift (lines : Nat) (found : Scan) : Scan :=
  ⟨found.tokens.map (·.shift lines), found.diagnostics.map (·.shift lines)⟩

theorem ofPieces_shift (row : List Piece) (line lines : Nat) :
    ofPieces (line + lines) row = (ofPieces line row).shift lines := by
  induction row generalizing line with
  | nil => rfl
  | cons piece rest ih =>
      have after : line + lines + piece.newLines = line + piece.newLines + lines :=
        Nat.add_right_comm _ _ _
      rw [ofPieces, after, ih]
      cases piece <;> rfl

/-- The end of a row of pieces is as many lines below its beginning as there are line breaks in
it. -/
theorem ofPieces_last {row : List Piece}
    (moves : ∀ piece ∈ row, piece.newLines = lineBreaks piece.text) (line : Nat) :
    ∃ tokens, (ofPieces line row).tokens =
      tokens ++ [.endOfInput (line + lineBreaks (row.flatMap Piece.text))] := by
  induction row generalizing line with
  | nil => exact ⟨[], rfl⟩
  | cons piece rest ih =>
      obtain ⟨here, others⟩ := List.forall_mem_cons.mp moves
      obtain ⟨tokens, found⟩ := ih others (line + piece.newLines)
      rw [Nat.add_assoc, here, ← lineBreaks_append, ← List.flatMap_cons] at found
      rw [← here] at found
      cases piece with
      | token kind text => exact ⟨_ :: tokens, congrArg (List.cons _) found⟩
      | space c => exact ⟨tokens, found⟩
      | comment text => exact ⟨tokens, found⟩
      | stray c => exact ⟨tokens, found⟩
      | openString text => exact ⟨tokens, found⟩

/-- A string that is open would have been reported. -/
theorem closed_of_terminated {row : List Piece} {line : Nat}
    (terminated : ∀ diagnostic ∈ (ofPieces line row).diagnostics,
      diagnostic.message ≠ LexicalFault.openString.message) : ∀ piece ∈ row, piece.Closed := by
  induction row generalizing line with
  | nil => simp
  | cons piece rest ih =>
      cases piece with
      | openString text => exact absurd rfl (terminated _ List.mem_cons_self)
      | stray c =>
          have others := (List.forall_mem_cons.mp terminated).2
          exact List.forall_mem_cons.mpr ⟨by simp [Piece.Closed], ih others⟩
      | token kind text => exact List.forall_mem_cons.mpr ⟨by simp [Piece.Closed], ih terminated⟩
      | space c => exact List.forall_mem_cons.mpr ⟨by simp [Piece.Closed], ih terminated⟩
      | comment text => exact List.forall_mem_cons.mpr ⟨by simp [Piece.Closed], ih terminated⟩

/-- What is found in two rows of pieces, the second of which begins where the first one ends. -/
theorem ofPieces_below {row : List Piece}
    (moves : ∀ piece ∈ row, piece.newLines = lineBreaks piece.text) (rest : List Piece)
    (line : Nat) :
    let lines := lineBreaks (row.flatMap Piece.text)
    ∃ tokens, (ofPieces line row).tokens = tokens ++ [.endOfInput (line + lines)] ∧
      (ofPieces line (row ++ rest)).tokens =
        tokens ++ (ofPieces line rest).tokens.map (·.shift lines) ∧
      (ofPieces line (row ++ rest)).diagnostics =
        (ofPieces line row).diagnostics ++
          (ofPieces line rest).diagnostics.map (·.shift lines) := by
  intro lines
  obtain ⟨tokens, last, found, joined, diagnostics⟩ := ofPieces_append row rest line
  obtain ⟨others, ends⟩ := ofPieces_last moves line
  obtain ⟨-, same⟩ := List.append_inj' (found.symm.trans ends) rfl
  obtain rfl : last = line + lines := congrArg Token.line (List.head_eq_of_cons_eq same)
  rw [ofPieces_shift] at joined diagnostics
  exact ⟨tokens, found, joined, diagnostics⟩

end Scan

/-- **A text below another is scanned as if it stood alone.** If no string is open at the end of the
first of two texts, then what is found in them with a line break in between is what is found in the
first, without the end of its input, and below it what is found in the second, so many lines further
down as the end of the first is and one more. Whatever else is wrong with the characters of the two
makes no difference. -/
theorem scan_below {first : String}
    (terminated : ∀ diagnostic ∈ (scan first).diagnostics,
      diagnostic.message ≠ "Unterminated string.")
    (second : String) :
    let lines := 1 + lineBreaks first.toList
    ∃ tokens, (scan first).tokens = tokens ++ [.endOfInput lines] ∧
      (scan (first ++ "\n" ++ second)).tokens = tokens ++ (scan second).tokens.map (·.shift lines) ∧
      (scan (first ++ "\n" ++ second)).diagnostics =
        (scan first).diagnostics ++ (scan second).diagnostics.map (·.shift lines) := by
  intro lines
  have joined : pieces (first ++ "\n" ++ second).toList =
      pieces first.toList ++ .space '\n' :: pieces second.toList := by
    rw [String.toList_append, String.toList_append, List.append_assoc]
    exact Piece.pieces_join first.toList second.toList (Scan.closed_of_terminated terminated)
  -- The line break counts for what stands below it, not for what it ends.
  have next : Scan.ofPieces 1 (.space '\n' :: pieces second.toList) = (scan second).shift 1 :=
    Scan.ofPieces_shift (pieces second.toList) 1 1
  have twice (token : Token) :
      (token.shift 1).shift (lineBreaks first.toList) = token.shift lines := by
    simp only [Token.shift, Nat.add_assoc, lines]
  have twiceReported (diagnostic : Diagnostic) :
      (diagnostic.shift 1).shift (lineBreaks first.toList) = diagnostic.shift lines := by
    simp only [Diagnostic.shift, Nat.add_assoc, lines]
  obtain ⟨tokens, found, below, reported⟩ :=
    Scan.ofPieces_below (Piece.pieces_newLines first.toList) (.space '\n' :: pieces second.toList) 1
  simp only [text_pieces, next, ← joined, Scan.shift, List.map_map] at found below reported
  refine ⟨tokens, found, below.trans ?_, reported.trans ?_⟩
  · exact congrArg (tokens ++ ·) (List.map_congr_left fun token _ => twice token)
  · exact congrArg ((scan first).diagnostics ++ ·)
      (List.map_congr_left fun report _ => twiceReported report)

/-- The first text has a string over two lines, a stray character, and a comment with a quote in it
at its end; in the second, which is found on lines three and four, a string is left open. -/
theorem scan_below_comment :
    let first := "\"a\nb\" @ 1. // \""
    let second := "?.5\n\"c"
    (∀ diagnostic ∈ (scan first).diagnostics, diagnostic.message ≠ "Unterminated string.") ∧
      (scan (first ++ "\n" ++ second)).tokens.map (fun token => (token.kind, token.line)) =
        [(.string, 2), (.number, 2), (.dot, 2), (.dot, 3), (.number, 3), (.endOfInput, 4)] ∧
      (scan (first ++ "\n" ++ second)).diagnostics =
        [LexicalFault.strayCharacter.toDiagnostic 2, LexicalFault.strayCharacter.toDiagnostic 3,
          LexicalFault.openString.toDiagnostic 4] := by
  intro first second
  have faults : (scan first).diagnostics = [LexicalFault.strayCharacter.toDiagnostic 2] := by
    decide +kernel
  have faultsBelow : (scan second).diagnostics =
      [LexicalFault.strayCharacter.toDiagnostic 1, LexicalFault.openString.toDiagnostic 2] := by
        decide +kernel
  have terminated : ∀ diagnostic ∈ (scan first).diagnostics,
      diagnostic.message ≠ "Unterminated string." := by
    simp [faults, LexicalFault.toDiagnostic, LexicalFault.message, Diagnostic.source]
  obtain ⟨tokens, found, below, reported⟩ := scan_below terminated second
  refine ⟨terminated, ?_, ?_⟩
  · have inner : tokens = (scan first).tokens.dropLast := by rw [found, List.dropLast_concat]
    rw [below, inner]
    decide +kernel
  · rw [reported, faults, faultsBelow]
    decide

end Lox
