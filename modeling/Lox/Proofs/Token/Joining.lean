import Lox.Proofs.Parser.Likeness
import Lox.Proofs.Token.Scanned

/-!
Texts joined by line breaks.

White space ends every piece but strings and comments, and a line break ends comments as well. So
what was cut out of a text is cut out of it again if a line break and more text follow, unless the
text ends in the middle of a string (`cut_stop`, `pieces_join`). A text without a mistake in its
characters does not. So the tokens of texts that are joined by line breaks are those of the texts,
one text after another, but for the lines that they are on (`scan_joined`).
-/

namespace Lox

namespace Piece

/-! ### Stretches of text -/

section Stop

variable {p : Char → Bool} {stop : Char} (stops : p stop = false) (front tail : List Char)
include stops

theorem takeWhile_stop : (front ++ stop :: tail).takeWhile p = front.takeWhile p := by
  induction front with
  | nil => simp [stops]
  | cons c rest ih => simp [List.takeWhile_cons, ih]

theorem dropWhile_stop :
    (front ++ stop :: tail).dropWhile p = front.dropWhile p ++ stop :: tail := by
  induction front with
  | nil => simp [stops]
  | cons c rest ih =>
      simp only [List.cons_append, List.dropWhile_cons, ih]
      split <;> rfl

end Stop

/-- A stretch that ends within a text ends there in every longer text. -/
theorem stretch_append {p : Char → Bool} {front after : List Char} {stop : Char} (tail : List Char)
    (ends : front.dropWhile p = stop :: after) :
    (front ++ tail).takeWhile p = front.takeWhile p ∧
    (front ++ tail).dropWhile p = stop :: after ++ tail := by
  induction front with
  | nil => cases ends
  | cons c rest ih =>
      rw [List.dropWhile_cons] at ends
      split at ends
      · rename_i goesOn
        simpa [List.takeWhile_cons, List.dropWhile_cons, goesOn] using ih ends
      · rename_i stops
        cases ends
        simp [stops]

/-! ### Pieces -/

section Space

variable {stop : Char} (space : isSpace stop)
include space

/-- White space goes on with no word and no number, and widens no operator. -/
theorem space_plain :
    stop.isDigit = false ∧ continuesWord stop = false ∧ stop ≠ '=' ∧ stop ≠ '/' ∧ stop ≠ '.' := by
  simp only [isSpace, Bool.or_eq_true, beq_iff_eq] at space
  obtain ((rfl | rfl) | rfl) | rfl := space <;> exact ⟨rfl, rfl, by decide, by decide, by decide⟩

theorem fraction_stop (front tail : List Char) :
    fraction (front ++ stop :: tail) =
      ((fraction front).1, (fraction front).2 ++ stop :: tail) := by
  obtain ⟨digits, -, -, -, noPoint⟩ := space_plain space
  fun_cases fraction front
  case case1 => simp_all [fraction, takeWhile_stop, dropWhile_stop]
  case case2 => simp_all [fraction]
  case case3 others =>
    match front with
    | [] => simp [fraction, noPoint]
    | [c] => by_cases point : c = '.' <;> simp [fraction, point, digits]
    | c :: d :: rest =>
      have noPoint : c ≠ '.' := fun same => others d rest (same ▸ rfl)
      simp [fraction, noPoint]

end Space

/-- A piece that does not end in the middle of a string. -/
def Closed (piece : Piece) : Prop :=
  ∀ text, piece ≠ .openString text

/-- A piece that white space ends: it does not end in the middle of a string, and if it is a
comment, then the white space is a line break. -/
structure EndsBefore (stop : Char) (piece : Piece) : Prop where
  closed : piece.Closed
  comment : ∀ text, piece = .comment text → stop = '\n'

/-- White space and more text after a piece that ends there change only what is left after the
cut. -/
theorem cut_stop {stop : Char} (space : isSpace stop) (c : Char) (rest tail : List Char)
    (ends : (cut c rest).1.EndsBefore stop) :
    cut c (rest ++ stop :: tail) = ((cut c rest).1, (cut c rest).2 ++ stop :: tail) := by
  obtain ⟨digits, word, noEqual, noSlash, -⟩ := space_plain space
  obtain ⟨closed, comment⟩ := ends
  unfold Closed at closed
  fun_cases cut c rest
  case case1 => simp_all [cut]
  case case2 => simp_all [cut]
  case case3 others =>
    have next : ∀ more, rest ++ stop :: tail ≠ '=' :: more := by
      cases rest <;> simp_all
    simp_all [cut]
  case case4 slash inside =>
    subst slash
    have cutHere : (cut '/' ('/' :: inside)).1 =
        .comment ('/' :: '/' :: inside.takeWhile (· != '\n')) := rfl
    obtain rfl := comment _ cutHere
    simp_all [cut, takeWhile_stop, dropWhile_stop]
  case case5 others =>
    have next : ∀ more, rest ++ stop :: tail ≠ '/' :: more := by
      cases rest <;> simp_all
    simp_all [cut]
  case case6 => simp_all [cut]
  case case7 ends =>
    obtain ⟨inside, after⟩ := stretch_append (stop :: tail) ends
    simp_all [cut]
  case case8 => simp_all [cut]
  case case9 found =>
    have joined := fraction_stop space (rest.dropWhile Char.isDigit) tail
    simp_all [cut, takeWhile_stop digits, dropWhile_stop digits]
  case case10 => simp_all [cut, takeWhile_stop word, dropWhile_stop word]
  case case11 => simp_all [cut]

/-- The pieces of two texts with white space between them are those of both, if it ends those of the
first. -/
theorem pieces_stop {stop : Char} (space : isSpace stop) (text tail : List Char)
    (ends : ∀ piece ∈ pieces text, piece.EndsBefore stop) :
    pieces (text ++ stop :: tail) = pieces text ++ .space stop :: pieces tail := by
  fun_induction pieces text with
  | case1 =>
      have first : cut stop tail = (.space stop, tail) := by
        simp only [isSpace, Bool.or_eq_true, beq_iff_eq] at space
        obtain ((rfl | rfl) | rfl) | rfl := space <;> rfl
      rw [List.nil_append, pieces, first, List.nil_append]
  | case2 c rest ih =>
      obtain ⟨first, others⟩ := List.forall_mem_cons.mp ends
      rw [List.cons_append, pieces, cut_stop space c rest tail first, List.cons_append, ih others]

/-- The pieces of two texts with a line break between them are those of both, if the first is
closed. -/
theorem pieces_join (text tail : List Char) (closed : ∀ piece ∈ pieces text, piece.Closed) :
    pieces (text ++ '\n' :: tail) = pieces text ++ .space '\n' :: pieces tail :=
  pieces_stop rfl text tail fun piece member => ⟨closed piece member, fun _ _ => rfl⟩

end Piece

/-! ### Scanned pieces -/

namespace Scan

/-- What scanning finds in two texts that are the same but for where they begin. -/
structure Alike (found other : Scan) : Prop where
  tokens : List.Forall₂ (Token.Alike anyLines) found.tokens other.tokens
  clean : found.diagnostics = [] ↔ other.diagnostics = []

theorem ofPieces_alike (row : List Piece) (line other : Nat) :
    (ofPieces line row).Alike (ofPieces other row) := by
  induction row generalizing line other with
  | nil => exact ⟨.cons ⟨rfl, rfl, rfl, trivial⟩ .nil, Iff.rfl⟩
  | cons piece rest ih =>
      have found := ih (line + piece.newLines) (other + piece.newLines)
      cases piece with
      | token kind text => exact ⟨.cons ⟨rfl, rfl, rfl, trivial⟩ found.tokens, found.clean⟩
      | space c => exact found
      | comment text => exact found
      | stray c => exact ⟨found.tokens, by simp [ofPieces, withPiece, withDiagnostic]⟩
      | openString text => exact ⟨found.tokens, by simp [ofPieces, withPiece, withDiagnostic]⟩

theorem closed_of_clean {row : List Piece} {line : Nat}
    (clean : (ofPieces line row).diagnostics = []) :
    ∀ piece ∈ row, piece.Closed := by
  induction row generalizing line with
  | nil => simp
  | cons piece rest ih =>
      cases piece with
      | openString text => cases clean
      | stray c => cases clean
      | token kind text => exact List.forall_mem_cons.mpr ⟨by simp [Piece.Closed], ih clean⟩
      | space c => exact List.forall_mem_cons.mpr ⟨by simp [Piece.Closed], ih clean⟩
      | comment text => exact List.forall_mem_cons.mpr ⟨by simp [Piece.Closed], ih clean⟩

/-- The tokens of pieces, the end of the input apart, stand in front of those of the pieces after
them. -/
theorem ofPieces_append (row rest : List Piece) (line : Nat) :
    ∃ tokens last, (ofPieces line row).tokens = tokens ++ [.endOfInput last] ∧
      (ofPieces line (row ++ rest)).tokens = tokens ++ (ofPieces last rest).tokens ∧
      (ofPieces line (row ++ rest)).diagnostics =
        (ofPieces line row).diagnostics ++ (ofPieces last rest).diagnostics := by
  induction row generalizing line with
  | nil => exact ⟨[], line, rfl, rfl, rfl⟩
  | cons piece front ih =>
      obtain ⟨tokens, last, found, joined, diagnostics⟩ := ih (line + piece.newLines)
      cases piece with
      | token kind text =>
          exact ⟨_ :: tokens, last, congrArg (List.cons _) found, congrArg (List.cons _) joined,
            diagnostics⟩
      | space c => exact ⟨tokens, last, found, joined, diagnostics⟩
      | comment text => exact ⟨tokens, last, found, joined, diagnostics⟩
      | stray c => exact ⟨tokens, last, found, joined, congrArg (List.cons _) diagnostics⟩
      | openString text => exact ⟨tokens, last, found, joined, congrArg (List.cons _) diagnostics⟩

end Scan

/-! ### Joined texts -/

/-- The tokens of a text without the end of the input. -/
def innerTokens (source : String) : List Token :=
  (scan source).tokens.dropLast

theorem scan_inner (source : String) :
    ∃ line, (scan source).tokens = innerTokens source ++ [.endOfInput line] ∧
    ∀ token ∈ innerTokens source, token.kind ≠ .endOfInput ∧ token.Carries := by
  obtain ⟨tokens, line, found, inner⟩ := scan_tokens source
  have same : innerTokens source = tokens := by rw [innerTokens, found, List.dropLast_concat]
  exact ⟨line, same ▸ found, same ▸ inner⟩

/-- Two texts with a line break between them, the first without a mistake in its characters. -/
theorem scan_join {first : String} (clean : (scan first).diagnostics = []) (rest : String) :
    ∃ others, (scan (first ++ "\n" ++ rest)).tokens = innerTokens first ++ others ∧
      List.Forall₂ (Token.Alike anyLines) (scan rest).tokens others ∧
      ((scan rest).diagnostics = [] → (scan (first ++ "\n" ++ rest)).diagnostics = []) := by
  have joined : pieces (first ++ "\n" ++ rest).toList =
      pieces first.toList ++ .space '\n' :: pieces rest.toList := by
    rw [String.toList_append, String.toList_append, List.append_assoc]
    exact Piece.pieces_join first.toList rest.toList (Scan.closed_of_clean clean)
  obtain ⟨tokens, last, found, tokensJoined, diagnostics⟩ :=
    Scan.ofPieces_append (pieces first.toList) (.space '\n' :: pieces rest.toList) 1
  rw [← joined] at tokensJoined diagnostics
  have same : innerTokens first = tokens := by
    rw [innerTokens, scan, found, List.dropLast_concat]
  have alike := Scan.ofPieces_alike (pieces rest.toList) 1 (last + 1)
  refine ⟨_, same ▸ tokensJoined, alike.tokens, fun cleanRest => ?_⟩
  rw [scan, diagnostics, List.append_eq_nil_iff]
  exact ⟨clean, alike.clean.mp cleanRest⟩

theorem Token.allAlike_symm {tokens others : List Token}
    (alike : List.Forall₂ (Token.Alike anyLines) tokens others) :
    List.Forall₂ (Token.Alike anyLines) others tokens :=
  alike.flip.imp fun _ _ same => ⟨same.kind.symm, same.lexeme.symm, same.literal.symm, trivial⟩

theorem Token.allAlike_trans {tokens others last : List Token}
    (first : List.Forall₂ (Token.Alike anyLines) tokens others)
    (second : List.Forall₂ (Token.Alike anyLines) others last) :
    List.Forall₂ (Token.Alike anyLines) tokens last := by
  induction first generalizing last with
  | nil => exact second
  | cons one rest ih =>
      cases second with
      | cons two others =>
          exact .cons ⟨one.kind.trans two.kind, one.lexeme.trans two.lexeme,
            one.literal.trans two.literal,
            trivial⟩ (ih others)

/-- Texts joined by line breaks. -/
def joined (texts : List String) : String :=
  "\n".intercalate texts

theorem joined_cons_cons (first second : String) (rest : List String) :
    joined (first :: second :: rest) = first ++ "\n" ++ joined (second :: rest) :=
  String.intercalate_cons_cons

/-- The tokens of joined texts are those of the texts in their order, but for their lines. -/
theorem scan_joined {texts : List String} (clean : ∀ text ∈ texts, (scan text).diagnostics = []) :
    (scan (joined texts)).diagnostics = [] ∧ List.Forall₂ (Token.Alike anyLines)
      (texts.flatMap innerTokens ++ [.endOfInput 1]) (scan (joined texts)).tokens := by
  match texts with
  | [] =>
    have nothing : scan (joined []) = ⟨[.endOfInput 1], []⟩ := by
      simp [scan, joined, pieces, Scan.ofPieces]
    rw [nothing]
    exact ⟨rfl, Token.allAlike_refl (fun _ => trivial) _⟩
  | [text] =>
    obtain ⟨line, found, -⟩ := scan_inner text
    rw [joined, String.intercalate_singleton, List.flatMap_singleton, found]
    refine ⟨clean text List.mem_cons_self, ?_⟩
    exact List.rel_append (Token.allAlike_refl (fun _ => trivial) _)
      (.cons ⟨rfl, rfl, rfl, trivial⟩ .nil)
  | first :: second :: rest =>
    obtain ⟨cleanFirst, cleanRest⟩ := List.forall_mem_cons.mp clean
    obtain ⟨cleanJoined, tokens⟩ := scan_joined cleanRest
    obtain ⟨others, found, alike, stillClean⟩ := scan_join cleanFirst (joined (second :: rest))
    rw [joined_cons_cons, List.flatMap_cons, List.append_assoc, found]
    refine ⟨stillClean cleanJoined, ?_⟩
    exact List.rel_append (Token.allAlike_refl (fun _ => trivial) _)
      (Token.allAlike_trans tokens alike)

end Lox
