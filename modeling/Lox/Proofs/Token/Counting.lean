import Lox.Proofs.Token.Lines
import Lox.Proofs.Token.Spacing
import Lox.Proofs.Token.Shifting
import Lox.Proofs.Token.Tiling

/-!
Lines are counted exactly.

The line of a place in a text is one more than the number of line breaks in front of it, whatever
these line breaks stand in: between tokens, at the end of a comment or inside a string. A token is
on the line of its end, a stray character on that of its beginning, and a string that is left open
on the last one (`lines_counted`). With a line counter of 32 bits the same is found
(`Scan.ofPieces?`), as long as the text has not more lines than it can count.
-/

namespace Lox

namespace Piece

/-- The pieces of a row, each with the text in front of it. -/
def placed (before : List Char) : List Piece → List (List Char × Piece)
  | [] => []
  | piece :: rest => (before, piece) :: placed (before ++ piece.text) rest

/-- A piece with a piece of the text in front of it, and a token that is the piece, on the line of
its end. -/
def TokenAt (place : List Char × Piece) (token : Token) : Prop :=
  place.2 = token.piece ∧ token.line = 1 + lineBreaks (place.1 ++ place.2.text)

/-- A piece with the text in front of it, and what is reported of it in a text. -/
inductive ReportedAt (text : List Char) : List Char × Piece → Diagnostic → Prop
  | stray {before : List Char} {c : Char} :
      ReportedAt text (before, .stray c)
        (LexicalFault.strayCharacter.toDiagnostic (1 + lineBreaks before))
  | openString {before letters : List Char} (last : before ++ letters = text) :
      ReportedAt text (before, .openString letters)
        (LexicalFault.openString.toDiagnostic (1 + lineBreaks text))

/-- A line counter of 32 bits that goes over more line breaks, unless it overflows. The number of
line breaks has 32 bits too: more than it can hold are taken for as many as it can. -/
def countOn (line : UInt32) (breaks : Nat) : Option UInt32 :=
  let added := min breaks (UInt32.size - 1)
  if line.toNat + added < UInt32.size then some (.ofNat (line.toNat + added)) else none

theorem countOn_of_fits {line : UInt32} {breaks : Nat} (fits : line.toNat + breaks < UInt32.size) :
    ∃ after, countOn line breaks = some after ∧ after.toNat = line.toNat + breaks := by
  have added : min breaks (UInt32.size - 1) = breaks := Nat.min_eq_left (by omega)
  refine ⟨_, ?_, UInt32.toNat_ofNat_of_lt fits⟩
  simp only [countOn, added]
  exact if_pos fits

/-- The values of a line counter of 32 bits in front of each piece of a row and behind the last. -/
def counts (line : UInt32) : List Piece → Option (List UInt32)
  | [] => some [line]
  | piece :: rest => do
    let after ← countOn line piece.newLines
    return line :: (← counts after rest)

theorem placed_within (before : List Char) (row : List Piece) :
    ∀ place ∈ placed before row, place.1 ++ place.2.text <+: before ++ row.flatMap Piece.text := by
  induction row generalizing before with
  | nil => exact fun _ member => absurd member List.not_mem_nil
  | cons piece rest ih =>
      rw [List.flatMap_cons, ← List.append_assoc]
      exact List.forall_mem_cons.mpr ⟨List.prefix_append _ _, ih (before ++ piece.text)⟩

/-- A counter that can count all line breaks of a row counts those in front of each piece. -/
theorem counts_placed {row : List Piece} {before : List Char} {line : UInt32}
    (moves : ∀ piece ∈ row, piece.newLines = lineBreaks piece.text)
    (here : line.toNat = 1 + lineBreaks before)
    (few : 1 + lineBreaks (before ++ row.flatMap Piece.text) < UInt32.size) :
    ∃ values, counts line row = some values ∧ values.map UInt32.toNat =
      (placed before row).map (fun place => 1 + lineBreaks place.1) ++
        [1 + lineBreaks (before ++ row.flatMap Piece.text)] := by
  induction row generalizing before line with
  | nil =>
      rw [List.flatMap_nil, List.append_nil]
      exact ⟨[line], rfl, by rw [List.map_singleton, here]; rfl⟩
  | cons piece rest ih =>
      rw [List.flatMap_cons, ← List.append_assoc] at few ⊢
      obtain ⟨movesHere, movesRest⟩ := List.forall_mem_cons.mp moves
      have after : line.toNat + piece.newLines = 1 + lineBreaks (before ++ piece.text) := by
        rw [here, movesHere, lineBreaks_append, Nat.add_assoc]
      have fits : line.toNat + piece.newLines < UInt32.size := by
        rw [lineBreaks_append] at few
        omega
      obtain ⟨next, counted, there⟩ := countOn_of_fits fits
      obtain ⟨values, ofRest, same⟩ := ih movesRest (there.trans after) few
      refine ⟨line :: values, ?_, ?_⟩
      · rw [counts, counted, Option.bind_eq_bind, Option.bind_some, ofRest]
        rfl
      · rw [List.map_cons, same, here]
        rfl

end Piece

namespace Scan

/-- What is found in a row of pieces behind some text: its tokens and faults, each on the line of
its place. -/
theorem ofPieces_placed {text before : List Char} {row : List Piece}
    (moves : ∀ piece ∈ row, piece.newLines = lineBreaks piece.text)
    (whole : before ++ row.flatMap Piece.text = text)
    (openLast : ∀ front letters after, row = front ++ .openString letters :: after → after = []) :
    ∃ tokens, (ofPieces (1 + lineBreaks before) row).tokens =
      tokens ++ [.endOfInput (1 + lineBreaks text)] ∧
      List.Forall₂ Piece.TokenAt ((Piece.placed before row).filter (·.2.token?.isSome)) tokens ∧
      List.Forall₂ (Piece.ReportedAt text) ((Piece.placed before row).filter (·.2.fault?.isSome))
        (ofPieces (1 + lineBreaks before) row).diagnostics := by
  induction row generalizing before with
  | nil =>
      rw [List.flatMap_nil, List.append_nil] at whole
      exact ⟨[], by rw [whole]; rfl, .nil, .nil⟩
  | cons piece rest ih =>
      rw [List.flatMap_cons, ← List.append_assoc] at whole
      obtain ⟨movesHere, movesRest⟩ := List.forall_mem_cons.mp moves
      have after : 1 + lineBreaks before + piece.newLines =
          1 + lineBreaks (before ++ piece.text) := by
        rw [movesHere, lineBreaks_append, Nat.add_assoc]
      have restLast : ∀ front letters after,
          rest = front ++ .openString letters :: after → after = [] :=
        fun front letters after same =>
          openLast (piece :: front) letters after (congrArg (piece :: ·) same)
      obtain ⟨tokens, found, placed, reported⟩ := ih movesRest whole restLast
      rw [← after] at found reported
      cases piece with
      | token kind letters =>
          refine ⟨_ :: tokens, congrArg (List.cons _) found, .cons ⟨?_, after⟩ placed, reported⟩
          rw [Token.piece, String.toList_ofList]
      | space c => exact ⟨tokens, found, placed, reported⟩
      | comment letters => exact ⟨tokens, found, placed, reported⟩
      | stray c => exact ⟨tokens, found, placed, .cons .stray reported⟩
      | openString letters =>
          obtain rfl : rest = [] := openLast [] letters rest rfl
          rw [List.flatMap_nil, List.append_nil] at whole
          refine ⟨tokens, found, placed, .cons ?_ reported⟩
          rw [after, whole]
          exact .openString whole

theorem ofPieces_ascending (row : List Piece) (line : Nat) :
    (ofPieces line row).tokens.Pairwise fun token later => token.line ≤ later.line := by
  induction row generalizing line with
  | nil => exact List.pairwise_singleton _ _
  | cons piece rest ih =>
      have others := ih (line + piece.newLines)
      cases piece with
      | token kind text =>
          obtain ⟨tokens, last, found, from_, within, -⟩ :=
            ofPieces_lines rest (line + (Piece.token kind text).newLines)
          refine List.pairwise_cons.mpr ⟨fun later member => ?_, others⟩
          rw [found] at member
          rcases List.mem_append.mp member with member | member
          · exact (within later member).1
          · obtain rfl := List.mem_singleton.mp member
            exact from_
      | space c => exact others
      | comment text => exact others
      | stray c => exact others
      | openString text => exact others

/-- What a row of pieces holds, found with a line counter of 32 bits, unless that overflows. -/
def ofPieces? (line : UInt32) : List Piece → Option Scan
  | [] => some ⟨[.endOfInput line.toNat], []⟩
  | piece :: rest => do
    let lineAfter ← Piece.countOn line piece.newLines
    return (← ofPieces? lineAfter rest).withPiece piece lineAfter.toNat

/-- A counter that can count all line breaks of a row makes no difference to what is found. -/
theorem ofPieces?_eq {row : List Piece} {line : UInt32}
    (moves : ∀ piece ∈ row, piece.newLines = lineBreaks piece.text)
    (few : line.toNat + lineBreaks (row.flatMap Piece.text) < UInt32.size) :
    ofPieces? line row = some (ofPieces line.toNat row) := by
  induction row generalizing line with
  | nil => rfl
  | cons piece rest ih =>
      obtain ⟨movesHere, movesRest⟩ := List.forall_mem_cons.mp moves
      rw [List.flatMap_cons, lineBreaks_append, ← movesHere] at few
      have fits : line.toNat + piece.newLines < UInt32.size := by omega
      obtain ⟨after, counted, there⟩ := Piece.countOn_of_fits fits
      have found := @ih after movesRest (by omega)
      rw [ofPieces?, counted, Option.bind_eq_bind, Option.bind_some, found, there]
      rfl

end Scan

/-- What is found in a text whose pieces are `row`, with the lines of it: `tokens`, the end of the
input apart. -/
structure Scan.Counted (source : String) (row : List Piece) (tokens : List Token) : Prop where
  tiles : Piece.Tiles source.toList row
  within : ∀ place ∈ Piece.placed [] row, place.1 ++ place.2.text <+: source.toList
  found : (scan source).tokens = tokens ++ [.endOfInput (1 + lineBreaks source.toList)]
  placed : List.Forall₂ Piece.TokenAt ((Piece.placed [] row).filter (·.2.token?.isSome)) tokens
  reported : List.Forall₂ (Piece.ReportedAt source.toList)
    ((Piece.placed [] row).filter (·.2.fault?.isSome)) (scan source).diagnostics
  ascending : (scan source).tokens.Pairwise fun token later => token.line ≤ later.line
  counter : ∃ values, Piece.counts 1 row = some values ∧ values.map UInt32.toNat =
    (Piece.placed [] row).map (fun place => 1 + lineBreaks place.1) ++
    [1 + lineBreaks source.toList]
  bounded : Scan.ofPieces? 1 row = some (scan source)

/-- **Lines are counted exactly.** The tokens of a text are those of the pieces that tile it, each
on the line that is one more than the number of line breaks in front of its end; the end of the
input is on the line after all line breaks. A stray character is reported on the line of its place,
and a string that is open on the line of the end of the input. Lines do not descend from one token
to the next. A line counter of 32 bits does not overflow, and the same is found with it. -/
theorem lines_counted {source : String} (few : lineBreaks source.toList < UInt32.size - 1) :
    ∃ row tokens, Scan.Counted source row tokens := by
  have whole : [] ++ (pieces source.toList).flatMap Piece.text = source.toList :=
    text_pieces source.toList
  have moves := Piece.pieces_newLines source.toList
  have within := Piece.placed_within [] (pieces source.toList)
  have room : 1 + lineBreaks ([] ++ (pieces source.toList).flatMap Piece.text) < UInt32.size := by
    rw [whole]
    exact Nat.lt_sub_iff_add_lt'.mp few
  obtain ⟨tokens, found, placed, reported⟩ :=
    Scan.ofPieces_placed moves whole fun _ _ _ => Piece.pieces_openString
  have start : (1 : UInt32).toNat = 1 + lineBreaks [] := rfl
  have counter := Piece.counts_placed moves start room
  have bounded : Scan.ofPieces? 1 (pieces source.toList) = some (scan source) :=
    Scan.ofPieces?_eq moves room
  rw [whole] at within counter
  exact ⟨pieces source.toList, tokens, (Piece.tiles_iff _ _).mpr rfl, within, found,
    placed, reported,
    Scan.ofPieces_ascending _ 1, counter, bounded⟩

/-- A string over two lines, a stray character and a comment behind it, and on the third line the
beginning of a string that is left open on the fourth. -/
theorem lines_counted_strings :
    let source := "\"a\nb\" @ // \"\n.\"c\n"
    lineBreaks source.toList < UInt32.size - 1 ∧ ∃ row tokens, Scan.Counted source row tokens ∧
      tokens.map (fun token => (token.kind, token.line)) = [(.string, 2), (.dot, 3)] ∧
      (scan source).diagnostics =
        [LexicalFault.strayCharacter.toDiagnostic 2, LexicalFault.openString.toDiagnostic 4] := by
  intro source
  have few : lineBreaks source.toList < UInt32.size - 1 := by decide +kernel
  obtain ⟨row, tokens, counted⟩ := lines_counted few
  have inner : tokens = (scan source).tokens.dropLast := by rw [counted.found, List.dropLast_concat]
  refine ⟨few, row, tokens, counted, ?_, by decide +kernel⟩
  rw [inner]
  decide +kernel

end Lox
