import Mathlib.Data.List.TakeWhile
import Lox.Proofs.Token.Scanned

/-!
The pieces of a text, said without reference to how they are cut.

`Piece.Lexeme` lists what may stand in a source text: the operators, the reserved words, the
identifiers, numbers and strings, white space, comments, and strings that are not closed. The next
piece of a text is the longest lexeme that the text begins with, or one character where it begins
with none (`Piece.Next`), and a row of pieces tiles a text if each is next where the ones before it
end (`Piece.Tiles`). Exactly one row tiles a text, the one that is cut (`Piece.tiles_iff`): what a
piece is does not depend on what was tried first. What scanning finds is then read off that row
(`scan_tiled`).
-/

namespace Lox

namespace Piece

/-! ### Lexemes -/

/-- The tokens that are neither words nor literals. -/
def operators : List (List Char × TokenKind) := [
  (['('], .leftParen), ([')'], .rightParen), (['\x7b'], .leftBrace), (['\x7d'], .rightBrace),
  ([','], .comma), (['.'], .dot), (['-'], .minus), (['+'], .plus), ([';'], .semicolon),
  (['/'], .slash), (['*'], .star), ([':'], .colon), (['!'], .bang), (['!', '='], .bangEqual),
  (['='], .equal), (['=', '='], .equalEqual), (['>'], .greater), (['>', '='], .greaterEqual),
  (['<'], .less), (['<', '='], .lessEqual)]

/-- What may stand in a source text: the kinds of piece with the texts that are allowed for each. -/
inductive Lexeme : Piece → Prop
  | operator {text : List Char} {kind : TokenKind} (listed : (text, kind) ∈ operators) :
      Lexeme (.token kind text)
  | keyword {text : List Char} {kind : TokenKind}
      (reserved : (String.ofList text, kind) ∈ TokenKind.reserved) : Lexeme (.token kind text)
  | identifier {c : Char} {rest : List Char} (starts : startsWord c)
      (goesOn : ∀ d ∈ rest, continuesWord d)
      (free : ∀ kind, (String.ofList (c :: rest), kind) ∉ TokenKind.reserved) :
      Lexeme (.token .identifier (c :: rest))
  | integer {d : Char} {whole : List Char} (first : d.isDigit) (digits : ∀ e ∈ whole, e.isDigit) :
      Lexeme (.token .number (d :: whole))
  | decimal {d e : Char} {whole decimals : List Char} (first : d.isDigit)
      (digits : ∀ e ∈ whole, e.isDigit) (tenth : e.isDigit) (others : ∀ e ∈ decimals, e.isDigit) :
      Lexeme (.token .number (d :: whole ++ '.' :: e :: decimals))
  | string {inside : List Char} (free : '"' ∉ inside) :
      Lexeme (.token .string ('"' :: inside ++ ['"']))
  | space {c : Char} (blank : c ∈ [' ', '\t', '\r', '\n']) : Lexeme (.space c)
  | comment {rest : List Char} (free : '\n' ∉ rest) : Lexeme (.comment ('/' :: '/' :: rest))
  | openString {rest : List Char} (free : '"' ∉ rest) : Lexeme (.openString ('"' :: rest))

/-- The piece that a text begins with: the longest lexeme, or a character that begins none. -/
inductive Next (text : List Char) : Piece → Prop
  | lexeme {piece : Piece} (formed : Lexeme piece) (here : piece.text <+: text)
      (longest : ∀ other, Lexeme other → other.text <+: text →
        other.text.length ≤ piece.text.length) : Next text piece
  | stray {c : Char} (here : [c] <+: text)
      (nothing : ∀ other, Lexeme other → ¬ other.text <+: text) : Next text (.stray c)

/-- A row of pieces that lie side by side, each the next piece of what is left of the text. -/
inductive Tiles : List Char → List Piece → Prop
  | nil : Tiles [] []
  | cons {piece : Piece} {rest : List Char} {row : List Piece}
      (next : Next (piece.text ++ rest) piece)
      (others : Tiles rest row) : Tiles (piece.text ++ rest) (piece :: row)

/-! ### Cuts -/

/-- Whether a character begins a lexeme. -/
def begins (c : Char) : Bool :=
  (single? c).isSome || (widening? c).isSome || c == '/' || isSpace c || c == '"' || c.isDigit ||
    startsWord c

theorem digit_not_starts {c : Char} (starts : startsWord c) : c.isDigit = false := by
  rw [startsWord, Bool.or_eq_true, beq_iff_eq] at starts
  rcases starts with alpha | rfl
  · unfold Char.isAlpha Char.isUpper Char.isLower at alpha
    unfold Char.isDigit
    grind
  · rfl

/-- A character of a word or a number is none that is looked for before those. -/
theorem continues_plain {c : Char} (goesOn : continuesWord c) :
    single? c = none ∧ widening? c = none ∧ c ≠ '/' ∧ isSpace c = false ∧ c ≠ '"' := by
  refine ⟨?_, ?_, ?_, ?_, ?_⟩
  · unfold single?
    split <;> first | rfl | cases goesOn
  · unfold widening?
    split <;> first | rfl | cases goesOn
  · rintro rfl
    cases goesOn
  · by_contra space
    simp only [isSpace, Bool.not_eq_false, Bool.or_eq_true, beq_iff_eq] at space
    obtain ((rfl | rfl) | rfl) | rfl := space <;> cases goesOn
  · rintro rfl
    cases goesOn

theorem cut_word {c : Char} (starts : startsWord c) (rest : List Char) :
    cut c rest = (word (c :: rest.takeWhile continuesWord), rest.dropWhile continuesWord) := by
  obtain ⟨single, widening, slash, space, quote⟩ :=
    continues_plain (c := c) (by simp [continuesWord, starts])
  simp [cut, single, widening, slash, space, quote, digit_not_starts starts, starts]

theorem cut_digit {c : Char} (digit : c.isDigit) (rest : List Char) :
    cut c rest =
      (.token .number
        (c :: rest.takeWhile Char.isDigit ++ (fraction (rest.dropWhile Char.isDigit)).1),
        (fraction (rest.dropWhile Char.isDigit)).2) := by
  obtain ⟨single, widening, slash, space, quote⟩ :=
    continues_plain (c := c) (by simp [continuesWord, digit])
  simp [cut, single, widening, slash, space, quote, digit]

theorem cut_quote (rest : List Char) : cut '"' rest =
    match rest.dropWhile (· != '"') with
    | quote :: after => (.token .string ('"' :: rest.takeWhile (· != '"') ++ [quote]), after)
    | [] => (.openString ('"' :: rest), []) := rfl

theorem cut_comment (rest : List Char) : cut '/' ('/' :: rest) =
    (.comment ('/' :: '/' :: rest.takeWhile (· != '\n')), rest.dropWhile (· != '\n')) := rfl

theorem cut_wide {c : Char} {narrow wide : TokenKind} (single : single? c = none)
    (widening : widening? c = some (narrow, wide)) (rest : List Char) :
    cut c ('=' :: rest) = (.token wide [c, '='], rest) := by
  simp [cut, single, widening]

/-- A cut takes at least one character. -/
theorem one_le_length_cut (c : Char) (rest : List Char) : 1 ≤ (cut c rest).1.text.length := by
  have joined := congrArg List.length (text_cut c rest)
  have fewer := length_cut_lt c rest
  simp only [List.length_append, List.length_cons] at joined
  omega

/-- A character is cut off as a stray one if it begins no lexeme, and not otherwise. -/
theorem cut_stray (c : Char) (rest : List Char) :
    if begins c then ∀ d, (cut c rest).1 ≠ .stray d else (cut c rest).1 = .stray c := by
  fun_cases cut c rest <;> simp_all [begins, word]

/-! ### Cuts and lexemes -/

theorem goesOn_of_free {stop : Char} {inside : List Char} (free : stop ∉ inside) :
    ∀ c ∈ inside, (c != stop) = true :=
  fun _ here => bne_iff_ne.mpr (ne_of_mem_of_not_mem here free)

/-- A stretch of text reaches at least as far as it is known to go on. -/
theorem length_le_takeWhile {p : Char → Bool} {front : List Char} (goesOn : ∀ c ∈ front, p c)
    (tail : List Char) : front.length ≤ ((front ++ tail).takeWhile p).length := by
  rw [List.takeWhile_append_of_pos goesOn, List.length_append]
  omega

/-- What the table of operators holds: one character, or two of which the second widens the
first. -/
def shapedOperator : List Char × TokenKind → Bool
  | ([c], kind) => begins c && decide (cut c [] = (.token kind [c], []))
  | ([c, '='], kind) => begins c && (single? c).isNone && (widening? c).any (·.2 == kind)
  | _ => false

theorem operators_shaped : ∀ entry ∈ operators, shapedOperator entry := by decide

/-- Whether letters are those of a word. -/
def isWord : List Char → Bool
  | [] => false
  | c :: rest => startsWord c && rest.all continuesWord

theorem reserved_words : ∀ entry ∈ TokenKind.reserved,
    isWord entry.1.toList ∧ TokenKind.keyword? entry.1 = some entry.2 := by decide

/-- What a cut makes of a text that begins with the text of a piece: the piece itself if nothing
comes after it, and in any case a lexeme that is no shorter. -/
structure Reached (piece : Piece) (c : Char) (front : List Char) : Prop where
  text : piece.text = c :: front
  begins : begins c
  alone : (cut c front).1 = piece
  reach : ∀ tail, piece.text.length ≤ (cut c (front ++ tail)).1.text.length

theorem reached_operator {text : List Char} {kind : TokenKind} (listed : (text, kind) ∈ operators) :
    ∃ c front, Reached (.token kind text) c front := by
  have shaped := operators_shaped _ listed
  match text with
  | [c] =>
    simp only [shapedOperator, Bool.and_eq_true, decide_eq_true_eq] at shaped
    refine ⟨c, [], rfl, shaped.1, ?_, fun tail => one_le_length_cut c tail⟩
    rw [shaped.2]
  | [c, second] =>
    by_cases widens : second = '='
    · subst widens
      simp only [shapedOperator, Bool.and_eq_true, Option.isNone_iff_eq_none, Option.any_eq_true,
        beq_iff_eq] at shaped
      obtain ⟨⟨starts, single⟩, ⟨narrow, wide⟩, widening, rfl⟩ := shaped
      refine ⟨c, ['='], rfl, starts, ?_, fun tail => ?_⟩
      · rw [cut_wide single widening]
      · rw [List.singleton_append, cut_wide single widening]
    · simp [shapedOperator, widens] at shaped
  | [] => cases shaped
  | _ :: _ :: _ :: _ => simp [shapedOperator] at shaped

theorem reached_word {letters : List Char} (shaped : isWord letters) :
    ∃ c front, Reached (word letters) c front := by
  match letters with
  | [] => cases shaped
  | c :: rest =>
    rw [isWord, Bool.and_eq_true, List.all_eq_true] at shaped
    obtain ⟨starts, goesOn⟩ := shaped
    refine ⟨c, rest, rfl, by simp [begins, starts], ?_, fun tail => ?_⟩
    · rw [cut_word starts, List.takeWhile_eq_self_iff.mpr goesOn]
    · rw [cut_word starts]
      exact Nat.succ_le_succ (length_le_takeWhile goesOn tail)

theorem reached_integer {d : Char} {whole : List Char} (first : d.isDigit)
    (digits : ∀ e ∈ whole, e.isDigit) : Reached (.token .number (d :: whole)) d whole := by
  refine ⟨rfl, by simp [begins, first], ?_, fun tail => ?_⟩
  · rw [cut_digit first, List.takeWhile_eq_self_iff.mpr digits,
      List.dropWhile_eq_nil_iff.mpr digits]
    simp [fraction]
  · have reach := length_le_takeWhile digits tail
    rw [cut_digit first]
    simp only [text, List.length_cons, List.length_append]
    omega

theorem reached_decimal {d e : Char} {whole decimals : List Char} (first : d.isDigit)
    (digits : ∀ f ∈ whole, f.isDigit) (tenth : e.isDigit) (others : ∀ f ∈ decimals, f.isDigit) :
    Reached (.token .number (d :: whole ++ '.' :: e :: decimals)) d
      (whole ++ '.' :: e :: decimals) := by
  have point : Char.isDigit '.' = false := rfl
  have cutBefore (tail : List Char) : cut d (whole ++ '.' :: e :: (decimals ++ tail)) =
      (.token .number (d :: whole ++ '.' :: e :: (decimals ++ tail).takeWhile Char.isDigit),
        (decimals ++ tail).dropWhile Char.isDigit) := by
    rw [cut_digit first, List.takeWhile_append_of_pos digits, List.dropWhile_append_of_pos digits]
    simp [point, fraction, tenth]
  refine ⟨rfl, by simp [begins, first], ?_, fun tail => ?_⟩
  · have alone := cutBefore []
    rw [List.append_nil, List.takeWhile_eq_self_iff.mpr others] at alone
    rw [alone]
  · have reach := length_le_takeWhile others tail
    rw [List.append_assoc, List.cons_append, List.cons_append, List.cons_append, cutBefore]
    simp only [text, List.length_cons, List.length_append]
    omega

theorem reached_string {inside : List Char} (free : '"' ∉ inside) :
    Reached (.token .string ('"' :: inside ++ ['"'])) '"' (inside ++ ['"']) := by
  have goesOn := goesOn_of_free free
  have cutHere (tail : List Char) :
      cut '"' (inside ++ '"' :: tail) = (.token .string ('"' :: inside ++ ['"']), tail) := by
    rw [cut_quote, List.takeWhile_append_of_pos goesOn, List.dropWhile_append_of_pos goesOn]
    simp
  refine ⟨rfl, rfl, ?_, fun tail => ?_⟩
  · rw [cutHere]
  · rw [List.append_assoc, List.singleton_append, cutHere]

theorem reached_space {c : Char} (blank : c ∈ [' ', '\t', '\r', '\n']) :
    Reached (.space c) c [] := by
  have found : begins c ∧ (cut c []).1 = .space c := by
    simp only [List.mem_cons, List.not_mem_nil, or_false] at blank
    rcases blank with rfl | rfl | rfl | rfl <;> exact ⟨rfl, rfl⟩
  exact ⟨rfl, found.1, found.2, fun tail => one_le_length_cut c tail⟩

theorem reached_comment {rest : List Char} (free : '\n' ∉ rest) :
    Reached (.comment ('/' :: '/' :: rest)) '/' ('/' :: rest) := by
  refine ⟨rfl, rfl, ?_, fun tail => ?_⟩
  · rw [cut_comment, List.takeWhile_eq_self_iff.mpr (goesOn_of_free free)]
  · rw [List.cons_append, cut_comment]
    exact Nat.add_le_add_right (length_le_takeWhile (goesOn_of_free free) tail) 2

theorem reached_openString {rest : List Char} (free : '"' ∉ rest) :
    Reached (.openString ('"' :: rest)) '"' rest := by
  refine ⟨rfl, rfl, ?_, fun tail => ?_⟩
  · rw [cut_quote, List.dropWhile_eq_nil_iff.mpr (goesOn_of_free free)]
  · have reach := length_le_takeWhile (goesOn_of_free free) tail
    rw [cut_quote]
    split
    · simp only [text, List.length_cons, List.length_append]
      omega
    · simp [text]

theorem Lexeme.reached {piece : Piece} (formed : Lexeme piece) :
    ∃ c front, piece.Reached c front := by
  cases formed with
  | operator listed => exact reached_operator listed
  | @keyword text kind reserved =>
      obtain ⟨shaped, found⟩ := reserved_words _ reserved
      have same : word text = .token kind text := by rw [word, found, Option.getD_some]
      rw [String.toList_ofList] at shaped
      exact same ▸ reached_word shaped
  | @identifier c rest starts goesOn free =>
      have none : TokenKind.keyword? (String.ofList (c :: rest)) = none := by
        rw [TokenKind.keyword?, List.lookup_eq_none_iff]
        rintro ⟨reserved, kind⟩ here
        rw [bne_iff_ne]
        rintro rfl
        exact free kind here
      have same : word (c :: rest) = .token .identifier (c :: rest) := by
        rw [word, none, Option.getD_none]
      have shaped : isWord (c :: rest) := by
        rw [isWord, starts, Bool.true_and]
        exact List.all_eq_true.mpr goesOn
      exact same ▸ reached_word shaped
  | integer first digits => exact ⟨_, _, reached_integer first digits⟩
  | decimal first digits tenth others => exact ⟨_, _, reached_decimal first digits tenth others⟩
  | string free => exact ⟨_, _, reached_string free⟩
  | space blank => exact ⟨_, _, reached_space blank⟩
  | comment free => exact ⟨_, _, reached_comment free⟩
  | openString free => exact ⟨_, _, reached_openString free⟩

theorem free_takeWhile (stop : Char) (cs : List Char) : stop ∉ cs.takeWhile (· != stop) :=
  fun here => by simpa using List.mem_takeWhile_imp here

theorem dropWhile_stops {stop c : Char} {cs after : List Char}
    (left : cs.dropWhile (· != stop) = c :: after) :
    c = stop := by
  induction cs with
  | nil => cases left
  | cons d rest ih =>
      rw [List.dropWhile_cons] at left
      split at left
      · exact ih left
      · rename_i stops
        cases left
        simpa using stops

theorem fraction_formed (cs : List Char) : (fraction cs).1 = [] ∨ ∃ e decimals,
    (fraction cs).1 = '.' :: e :: decimals ∧ e.isDigit ∧ ∀ f ∈ decimals, f.isDigit := by
  fun_cases fraction cs
  case case1 e rest digit =>
    exact .inr ⟨e, rest.takeWhile Char.isDigit, rfl, digit, fun _ => List.mem_takeWhile_imp⟩
  all_goals exact .inl rfl

theorem lexeme_word {c : Char} {rest : List Char} (starts : startsWord c)
    (goesOn : ∀ d ∈ rest, continuesWord d) : Lexeme (word (c :: rest)) := by
  rw [word]
  cases found : TokenKind.keyword? (String.ofList (c :: rest)) with
  | some kind =>
      rw [TokenKind.keyword?, List.lookup_eq_some_iff] at found
      obtain ⟨before, after, reserved, -⟩ := found
      exact .keyword (by simp [reserved])
  | none =>
      rw [TokenKind.keyword?, List.lookup_eq_none_iff] at found
      refine .identifier starts goesOn fun kind here => ?_
      simpa using found _ here

/-- What is cut off is a lexeme, or a stray character. -/
theorem lexeme_cut {c : Char} (starts : begins c) (rest : List Char) : Lexeme (cut c rest).1 := by
  fun_cases cut c rest
  case case1 kind found =>
    refine .operator ?_
    unfold single? at found
    split at found <;> cases found <;> decide
  case case2 narrow wide found _ =>
    refine .operator ?_
    unfold widening? at found
    split at found <;> cases found <;> decide
  case case3 narrow wide found _ =>
    refine .operator ?_
    unfold widening? at found
    split at found <;> cases found <;> decide
  case case4 => exact .comment (free_takeWhile '\n' _)
  case case5 slash _ =>
    subst slash
    exact .operator (by decide)
  case case6 space =>
    refine .space ?_
    simpa [isSpace, or_assoc] using space
  case case7 quote _ _ left =>
    subst quote
    cases dropWhile_stops left
    exact .string (free_takeWhile '"' rest)
  case case8 quote left =>
    subst quote
    rw [List.dropWhile_eq_nil_iff] at left
    exact .openString fun here => by simpa using left _ here
  case case9 digit decimals after found =>
    have digits : ∀ e ∈ rest.takeWhile Char.isDigit, e.isDigit := fun _ => List.mem_takeWhile_imp
    have formed := fraction_formed (rest.dropWhile Char.isDigit)
    rw [found] at formed
    rcases formed with nothing | ⟨e, tenths, some, tenth, others⟩
    · rw [show decimals = [] from nothing, List.append_nil]
      exact .integer digit digits
    · rw [show decimals = '.' :: e :: tenths from some]
      exact .decimal digit digits tenth others
  case case10 starts => exact lexeme_word starts fun _ => List.mem_takeWhile_imp
  case case11 => simp_all [begins]

/-! ### The next piece -/

theorem Lexeme.within {piece : Piece} (formed : Lexeme piece) {c : Char} {rest : List Char}
    (here : piece.text <+: c :: rest) :
    begins c ∧ piece.text.length ≤ (cut c rest).1.text.length := by
  obtain ⟨d, front, reached⟩ := formed.reached
  obtain ⟨tail, joined⟩ := here
  rw [reached.text, List.cons_append, List.cons.injEq] at joined
  obtain ⟨rfl, rfl⟩ := joined
  exact ⟨reached.begins, reached.reach tail⟩

theorem text_cut_starts (c : Char) (rest : List Char) : (cut c rest).1.text <+: c :: rest :=
  ⟨(cut c rest).2, text_cut c rest⟩

/-- The piece that is cut off is the next one. -/
theorem next_cut (c : Char) (rest : List Char) : Next (c :: rest) (cut c rest).1 := by
  have stray := cut_stray c rest
  by_cases starts : begins c
  · exact .lexeme (lexeme_cut starts rest) (text_cut_starts c rest) fun _ formed here =>
      (formed.within here).2
  · rw [if_neg starts] at stray
    rw [stray]
    exact .stray ⟨rest, rfl⟩ fun _ formed here => starts (formed.within here).1

theorem Lexeme.eq_of_text {piece other : Piece} (formed : Lexeme piece) (otherFormed : Lexeme other)
    (same : piece.text = other.text) : piece = other := by
  obtain ⟨c, front, reached⟩ := formed.reached
  obtain ⟨d, rest, otherReached⟩ := otherFormed.reached
  rw [reached.text, otherReached.text, List.cons.injEq] at same
  obtain ⟨rfl, rfl⟩ := same
  exact reached.alone.symm.trans otherReached.alone

/-- A text has no two next pieces. -/
theorem Next.unique {text : List Char} {piece other : Piece} (next : Next text piece)
    (otherNext : Next text other) : piece = other := by
  cases next with
  | lexeme formed here longest =>
      cases otherNext with
      | lexeme otherFormed otherHere otherLongest =>
          have length :=
            Nat.le_antisymm (otherLongest piece formed here) (longest other otherFormed otherHere)
          exact formed.eq_of_text otherFormed
            (List.prefix_of_prefix_length_le here otherHere length.le |>.eq_of_length length)
      | stray _ nothing => exact (nothing piece formed here).elim
  | @stray c here nothing =>
      cases otherNext with
      | lexeme otherFormed otherHere _ => exact (nothing other otherFormed otherHere).elim
      | @stray d otherHere _ =>
          obtain ⟨tail, rfl⟩ := here
          obtain ⟨otherTail, joined⟩ := otherHere
          cases joined
          rfl

theorem Next.ne_nil {text : List Char} {piece : Piece} (next : Next text piece) :
    piece.text ≠ [] := by
  cases next with
  | lexeme formed here longest =>
      obtain ⟨c, front, reached⟩ := formed.reached
      rw [reached.text]
      exact List.cons_ne_nil _ _
  | stray here nothing => exact List.cons_ne_nil _ _

/-- One row of pieces tiles a text, the one that is cut. -/
theorem tiles_iff (text : List Char) (row : List Piece) : Tiles text row ↔ row = pieces text := by
  constructor
  · intro tiles
    induction tiles with
    | nil => rw [pieces]
    | @cons piece rest row next others ih =>
        obtain ⟨c, front, begun⟩ := List.exists_cons_of_ne_nil next.ne_nil
        have whole : piece.text ++ rest = c :: (front ++ rest) := by rw [begun, List.cons_append]
        have first : (cut c (front ++ rest)).1 = piece :=
          (next_cut c (front ++ rest)).unique (whole ▸ next)
        have left : (cut c (front ++ rest)).2 = rest := by
          have joined := text_cut c (front ++ rest)
          rw [first, ← whole] at joined
          exact List.append_cancel_left joined
        rw [whole, pieces, first, left, ih]
  · rintro rfl
    fun_induction pieces text with
    | case1 => exact .nil
    | case2 c rest ih =>
        have joined := text_cut c rest
        have next : Next ((cut c rest).1.text ++ (cut c rest).2) (cut c rest).1 :=
          joined.symm ▸ next_cut c rest
        have tiles := Tiles.cons next ih
        rwa [joined] at tiles

/-! ### The pieces of a row -/

/-- A lexeme is a text of one piece. -/
theorem Lexeme.pieces_eq {kind : TokenKind} {text : List Char}
    (formed : Lexeme (.token kind text)) :
    pieces text = [.token kind text] := by
  have next : Next ((Piece.token kind text).text ++ []) (.token kind text) := by
    refine .lexeme formed (List.prefix_append _ _) fun other _ here => ?_
    simpa using here.length_le
  have tiles := Tiles.cons next .nil
  rw [List.append_nil] at tiles
  exact ((tiles_iff _ _).mp tiles).symm

theorem Next.lexeme_of_token {text letters : List Char} {kind : TokenKind}
    (next : Next text (.token kind letters)) : Lexeme (.token kind letters) := by
  cases next with
  | lexeme formed here longest => exact formed

theorem Tiles.lexeme_of_token {text letters : List Char} {row : List Piece} {kind : TokenKind}
    (tiles : Tiles text row) (member : Piece.token kind letters ∈ row) :
    Lexeme (.token kind letters) := by
  induction tiles with
  | nil => cases member
  | cons next others ih =>
      rcases List.mem_cons.mp member with rfl | member
      · exact next.lexeme_of_token
      · exact ih member

theorem cut_openString (c : Char) (rest text : List Char) :
    (cut c rest).1 = .openString text → (cut c rest).2 = [] := by
  fun_cases cut c rest <;> simp [word]

/-- A string that is not closed reaches the end of the text. -/
theorem pieces_openString {text letters : List Char} {front after : List Piece}
    (found : pieces text = front ++ .openString letters :: after) : after = [] := by
  fun_induction pieces text generalizing front with
  | case1 => simp at found
  | case2 c rest ih =>
      cases front with
      | nil =>
          rw [List.nil_append, List.cons.injEq] at found
          rw [← found.2, cut_openString c rest letters found.1, pieces]
      | cons first others =>
          rw [List.cons_append, List.cons.injEq] at found
          exact ih found.2

/-- The kind and the text of a piece that is a token. -/
def token? : Piece → Option (TokenKind × List Char)
  | .token kind text => some (kind, text)
  | _ => none

/-- What is wrong with a piece. -/
def fault? : Piece → Option LexicalFault
  | .stray _ => some .strayCharacter
  | .openString _ => some .openString
  | _ => none

end Piece

/-! ### What scanning finds -/

/-- What a token carries: a string what stands between its quotes, a number the value of its digits,
and other tokens nothing. -/
inductive Token.Valued (token : Token) : Prop
  | string {inside : List Char} (kind : token.kind = .string) (free : '"' ∉ inside)
      (lexeme : token.lexeme = String.ofList ('"' :: inside ++ ['"']))
      (literal : token.literal = some (.text (String.ofList inside)))
  | number (kind : token.kind = .number)
      (literal : token.literal = some (.number (Decimal.read token.lexeme.toList)))
  | other (string : token.kind ≠ .string) (number : token.kind ≠ .number)
      (literal : token.literal = none)

/-- What is found in a text whose pieces are `row`: `tokens`, the end of the input apart, and
`diagnostics`. -/
structure Scan.Tiled (text : List Char) (row : List Piece) (tokens : List Token)
    (diagnostics : List Diagnostic) : Prop where
  tiles : Piece.Tiles text row
  unique : ∀ other, Piece.Tiles text other → other = row
  openLast : ∀ front letters after, row = front ++ .openString letters :: after → after = []
  read : tokens.map (fun token => (token.kind, token.lexeme.toList)) = row.filterMap Piece.token?
  inner : ∀ token ∈ tokens, token.kind ≠ .endOfInput
  keywords : ∀ token ∈ tokens, ∀ kind : TokenKind, kind.isKeyword →
    (token.kind = kind ↔ (token.lexeme, kind) ∈ TokenKind.reserved)
  valued : ∀ token ∈ tokens, token.Valued
  diagnostics : List.Forall₂ (fun fault diagnostic => ∃ line, diagnostic = fault.toDiagnostic line)
    (row.filterMap Piece.fault?) diagnostics

namespace Scan

/-- The tokens and the diagnostics of a row of pieces are those of its pieces, each on some line. -/
theorem ofPieces_found (row : List Piece) (line : Nat) :
    ∃ tokens last, (ofPieces line row).tokens = tokens ++ [.endOfInput last] ∧
      tokens.map (fun token => (token.kind, token.lexeme.toList)) = row.filterMap Piece.token? ∧
      (∀ token ∈ tokens, token.literal = literalOf token.kind token.lexeme.toList) ∧
      List.Forall₂ (fun fault diagnostic => ∃ line, diagnostic = fault.toDiagnostic line)
        (row.filterMap Piece.fault?) (ofPieces line row).diagnostics := by
  induction row generalizing line with
  | nil => exact ⟨[], line, rfl, rfl, by simp, .nil⟩
  | cons piece rest ih =>
      obtain ⟨tokens, last, found, read, valued, reported⟩ := ih (line + piece.newLines)
      cases piece with
      | token kind text =>
          refine ⟨_ :: tokens, last, congrArg (List.cons _) found, ?_, ?_, reported⟩
          · rw [List.map_cons, read, String.toList_ofList]
            rfl
          · exact List.forall_mem_cons.mpr ⟨by rw [String.toList_ofList], valued⟩
      | space c => exact ⟨tokens, last, found, read, valued, reported⟩
      | comment text => exact ⟨tokens, last, found, read, valued, reported⟩
      | stray c => exact ⟨tokens, last, found, read, valued, .cons ⟨line, rfl⟩ reported⟩
      | openString text => exact ⟨tokens, last, found, read, valued, .cons ⟨_, rfl⟩ reported⟩

end Scan

namespace Piece

theorem operators_plain : ∀ entry ∈ operators,
    entry.2 ≠ .string ∧ entry.2 ≠ .number ∧ entry.2 ≠ .endOfInput ∧
      entry.2.isKeyword = false := by decide

theorem reserved_plain : ∀ entry ∈ TokenKind.reserved,
    entry.2 ≠ .string ∧ entry.2 ≠ .number ∧ entry.2 ≠ .endOfInput := by decide

theorem literalOf_other {kind : TokenKind} (string : kind ≠ .string) (number : kind ≠ .number)
    (text : List Char) : literalOf kind text = none := by
  cases kind <;> first | rfl | contradiction

namespace Lexeme

section Token

variable {kind : TokenKind} {text : List Char} (formed : Lexeme (.token kind text))
include formed

theorem inner : kind ≠ .endOfInput := by
  cases formed with
  | operator listed => exact (operators_plain _ listed).2.2.1
  | keyword reserved => exact (reserved_plain _ reserved).2.2
  | _ => exact TokenKind.noConfusion

/-- A token is of the kind of a keyword if its text is that keyword, and not otherwise. -/
theorem keyword_iff {keyword : TokenKind} (isKeyword : keyword.isKeyword) :
    kind = keyword ↔ (String.ofList text, keyword) ∈ TokenKind.reserved := by
  constructor
  · rintro rfl
    cases formed with
    | operator listed => simp [(operators_plain _ listed).2.2.2] at isKeyword
    | keyword reserved => exact reserved
    | _ => cases isKeyword
  · intro reserved
    cases formed.eq_of_text (.keyword reserved) rfl
    rfl

theorem valued {token : Token} (sameKind : token.kind = kind)
    (sameText : token.lexeme = String.ofList text) (literal : token.literal = literalOf kind text) :
    token.Valued := by
  cases formed with
  | operator listed =>
      obtain ⟨string, number, -⟩ := operators_plain _ listed
      exact .other (sameKind ▸ string) (sameKind ▸ number)
        (literal.trans (literalOf_other string number text))
  | keyword reserved =>
      obtain ⟨string, number, -⟩ := reserved_plain _ reserved
      exact .other (sameKind ▸ string) (sameKind ▸ number)
        (literal.trans (literalOf_other string number text))
  | identifier => exact .other (by simp [sameKind]) (by simp [sameKind]) literal
  | integer | decimal =>
      exact .number sameKind (by rw [literal, sameText, String.toList_ofList]; rfl)
  | string free => exact .string sameKind free sameText (by rw [literal]; simp [literalOf])

end Token

end Lexeme

/-- The tokens that are read off a row of pieces that tiles a text are lexemes. -/
theorem Tiles.formed {text : List Char} {row : List Piece} {tokens : List Token}
    (tiles : Tiles text row)
    (read : tokens.map (fun token => (token.kind, token.lexeme.toList)) = row.filterMap token?) :
    ∀ token ∈ tokens, Lexeme (.token token.kind token.lexeme.toList) := by
  intro token member
  have listed := List.mem_map_of_mem (f := fun token => (token.kind, token.lexeme.toList)) member
  rw [read, List.mem_filterMap] at listed
  obtain ⟨piece, here, same⟩ := listed
  cases piece <;> cases same
  exact tiles.lexeme_of_token here

/-- A kind of operator has one text. -/
theorem Lexeme.operator_text {kind : TokenKind} {text expected : List Char}
    (formed : Lexeme (.token kind text)) (listed : (expected, kind) ∈ operators) :
    text = expected := by
  have plain := operators_plain _ listed
  cases formed with
  | operator here =>
      have once : ∀ entry ∈ operators,
          ∀ other ∈ operators, entry.2 = other.2 → entry.1 = other.1 := by decide
      exact once _ here _ listed rfl
  | keyword reserved =>
      have apart : ∀ entry ∈ TokenKind.reserved, entry.2.isKeyword := by decide
      exact absurd (apart _ reserved) (by simp [plain.2.2.2])
  | identifier =>
      have apart : ∀ entry ∈ operators, entry.2 ≠ .identifier := by decide
      exact absurd rfl (apart _ listed)
  | integer | decimal => exact absurd rfl plain.2.1
  | string => exact absurd rfl plain.1

end Piece

/-- The tokens of a scanned text in front of the end of the input are lexemes. -/
theorem scan_formed {source : String} {token : Token} (member : token ∈ (scan source).tokens)
    (inner : token.kind ≠ .endOfInput) : Piece.Lexeme (.token token.kind token.lexeme.toList) := by
  obtain ⟨tokens, last, found, read, -⟩ := Scan.ofPieces_found (pieces source.toList) 1
  have tiles := (Piece.tiles_iff source.toList _).mpr rfl
  rw [scan, found] at member
  rcases List.mem_append.mp member with member | member
  · exact tiles.formed read token member
  · obtain rfl := List.mem_singleton.mp member
    exact absurd rfl inner

/-- Scanning finds the one row of pieces that tiles the text: its tokens in their order, with the
end of the input after them, and one diagnostic for each stray character and each string that is not
closed. -/
theorem scan_tiled (source : String) : ∃ row tokens last,
    (scan source).tokens = tokens ++ [.endOfInput last] ∧
      Scan.Tiled source.toList row tokens (scan source).diagnostics := by
  obtain ⟨tokens, last, found, read, literals, reported⟩ :=
    Scan.ofPieces_found (pieces source.toList) 1
  have tiles := (Piece.tiles_iff source.toList _).mpr rfl
  have formed := tiles.formed read
  refine ⟨_, tokens, last, found, tiles, fun other => (Piece.tiles_iff source.toList other).mp,
    fun _ _ _ => Piece.pieces_openString, read, fun token member => (formed token member).inner,
    fun token member kind isKeyword => ?_, fun token member => ?_, reported⟩
  · rw [(formed token member).keyword_iff isKeyword, String.ofList_toList]
  · exact (formed token member).valued rfl String.ofList_toList.symm (literals token member)

end Lox
