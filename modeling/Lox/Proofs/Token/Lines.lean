import Mathlib.Data.List.TakeWhile
import Lox.Token.Scan

/-!
The lines of a scanned text.

Lines are counted from one, and the end of the input is on the last one. The line counter is moved
by line breaks between tokens and by those in strings, and so by all that a text has: the other
pieces hold none (`Piece.newLines_cut`). Every token and every diagnostic is on a line between the
first and the last (`scan_lines`).
-/

namespace Lox

/-! ### What moves the line counter -/

theorem lineBreaks_append (front rest : List Char) :
    lineBreaks (front ++ rest) = lineBreaks front + lineBreaks rest :=
  List.count_append

namespace Piece

/-- A piece without a line break does not move the line counter. -/
theorem newLines_of_free {piece : Piece} (free : '\n' ∉ piece.text) :
    piece.newLines = lineBreaks piece.text := by
  have none : lineBreaks piece.text = 0 := List.count_eq_zero.mpr free
  rw [none]
  unfold newLines
  split
  · exact if_neg fun same => free (List.mem_singleton.mpr same.symm)
  · exact none
  · exact none
  · rfl

section Free

variable {p : Char → Bool} (apart : p '\n' = false)
include apart

theorem ne_of_apart {c : Char} (holds : p c = true) : '\n' ≠ c := by
  rintro rfl
  simp [apart] at holds

theorem takeWhile_free (text : List Char) : '\n' ∉ text.takeWhile p :=
  fun member => ne_of_apart apart (List.mem_takeWhile_imp member) rfl

end Free

theorem fraction_free (text : List Char) : '\n' ∉ (fraction text).1 := by
  fun_cases fraction text with
  | case1 d rest digit =>
      have first : '\n' ≠ d := ne_of_apart rfl digit
      simp [first, takeWhile_free (p := Char.isDigit) rfl]
  | case2 | case3 => simp

/-- A piece that is cut from a text moves the line counter by all line breaks in it. Those between
tokens and in strings are all there are. -/
theorem newLines_cut (c : Char) (rest : List Char) :
    (cut c rest).1.newLines = lineBreaks (cut c rest).1.text := by
  have digits := takeWhile_free (p := Char.isDigit) rfl
  have letters := takeWhile_free (p := continuesWord) rfl
  have line := takeWhile_free (p := (· != '\n')) rfl
  fun_cases cut c rest
  case case1 found =>
    refine newLines_of_free (List.mem_singleton.not.mpr ?_)
    rintro rfl
    cases found
  case case2 found _ =>
    have apart : '\n' ≠ c := by rintro rfl; cases found
    exact newLines_of_free (by simp [text, apart])
  case case3 found _ =>
    have apart : '\n' ≠ c := by rintro rfl; cases found
    exact newLines_of_free (by simp [text, apart])
  case case4 => exact newLines_of_free (by simp [text, line])
  case case5 slash _ => exact newLines_of_free (by simp [text, slash])
  case case6 => by_cases same : c = '\n' <;> simp [newLines, lineBreaks, text, same]
  case case7 => rfl
  case case8 => rfl
  case case9 digit _ _ found =>
    have apart : '\n' ≠ c := ne_of_apart rfl digit
    have free := fraction_free (rest.dropWhile Char.isDigit)
    rw [found] at free
    exact newLines_of_free (by simp [text, apart, digits, free])
  case case10 letter =>
    have apart : '\n' ≠ c := ne_of_apart rfl letter
    exact newLines_of_free (by simp [word, text, apart, letters])
  case case11 space _ _ _ =>
    refine newLines_of_free (List.mem_singleton.not.mpr ?_)
    rintro rfl
    exact space rfl

theorem pieces_newLines (text : List Char) :
    ∀ piece ∈ pieces text, piece.newLines = lineBreaks piece.text := by
  fun_induction pieces text with
  | case1 => simp
  | case2 c rest ih => exact List.forall_mem_cons.mpr ⟨newLines_cut c rest, ih⟩

end Piece

/-! ### Between the first and the last -/

/-- A line of a scanned text: not before the first, and not behind that of the end of the input. -/
def Scan.HasLine (found : Scan) (line : Nat) : Prop :=
  1 ≤ line ∧ ∃ last ∈ found.tokens, last.kind = .endOfInput ∧ line ≤ last.line

/-- What is found in a row of pieces is found from the line on which it begins to the last one. -/
theorem Scan.ofPieces_lines (row : List Piece) (line : Nat) :
    ∃ tokens last, (ofPieces line row).tokens = tokens ++ [.endOfInput last] ∧ line ≤ last ∧
      (∀ token ∈ tokens, line ≤ token.line ∧ token.line ≤ last) ∧
      ∀ diagnostic ∈ (ofPieces line row).diagnostics,
        line ≤ diagnostic.line ∧ diagnostic.line ≤ last := by
  induction row generalizing line with
  | nil => exact ⟨[], line, rfl, Nat.le_refl _, by simp, by simp [ofPieces]⟩
  | cons piece rest ih =>
      obtain ⟨tokens, last, found, from_, within, reported⟩ := ih (line + piece.newLines)
      have ahead : line ≤ line + piece.newLines := Nat.le_add_right _ _
      have before : line ≤ last := Nat.le_trans ahead from_
      have tokensWithin : ∀ token ∈ tokens, line ≤ token.line ∧ token.line ≤ last :=
        fun token member => (within token member).imp_left (Nat.le_trans ahead)
      have reportedWithin : ∀ diagnostic ∈ (ofPieces (line + piece.newLines) rest).diagnostics,
          line ≤ diagnostic.line ∧ diagnostic.line ≤ last :=
        fun diagnostic member => (reported diagnostic member).imp_left (Nat.le_trans ahead)
      cases piece with
      | token kind text =>
          refine ⟨_ :: tokens, last, congrArg (List.cons _) found, before, ?_, reportedWithin⟩
          exact List.forall_mem_cons.mpr ⟨⟨ahead, from_⟩, tokensWithin⟩
      | space c => exact ⟨tokens, last, found, before, tokensWithin, reportedWithin⟩
      | comment text => exact ⟨tokens, last, found, before, tokensWithin, reportedWithin⟩
      | stray c =>
          refine ⟨tokens, last, found, before, tokensWithin,
            List.forall_mem_cons.mpr ⟨?_, reportedWithin⟩⟩
          exact ⟨Nat.le_refl _, before⟩
      | openString text =>
          refine ⟨tokens, last, found, before, tokensWithin,
            List.forall_mem_cons.mpr ⟨?_, reportedWithin⟩⟩
          exact ⟨ahead, from_⟩

theorem scan_lines (source : String) :
    (∀ token ∈ (scan source).tokens, (scan source).HasLine token.line) ∧
      ∀ diagnostic ∈ (scan source).diagnostics, (scan source).HasLine diagnostic.line := by
  obtain ⟨tokens, last, found, from_, within, reported⟩ :=
    Scan.ofPieces_lines (pieces source.toList) 1
  have ends (line : Nat) (before : line ≤ last) :
      ∃ token ∈ (scan source).tokens, token.kind = .endOfInput ∧ line ≤ token.line :=
    ⟨.endOfInput last,
      by rw [scan, found]; exact List.mem_append_right _ List.mem_cons_self, rfl, before⟩
  refine ⟨fun token member => ?_, fun diagnostic member => ?_⟩
  · rw [scan, found] at member
    rcases List.mem_append.mp member with member | member
    · exact ⟨(within token member).1, ends _ (within token member).2⟩
    · obtain rfl := List.mem_singleton.mp member
      exact ⟨from_, ends _ (Nat.le_refl _)⟩
  · exact ⟨(reported diagnostic member).1, ends _ (reported diagnostic member).2⟩

end Lox
