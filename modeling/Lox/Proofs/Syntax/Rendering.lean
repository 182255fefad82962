import Lox.Syntax.Outline
import Lox.Text.Lines
import Lox.Proofs.Text.Quoted

/-!
A rendered outline can be read off what follows it.

An atom is bare, and then it has none of the characters that end it, or it is a text between quotes.
Behind an atom stands a space, a parenthesis that closes, the end of the line or nothing, and the
first character of an outline tells a list from an atom and both from the end of a list. So an
outline that is well formed is the only one with its text, whatever follows
(`WellFormed.append_inj`), and a row of outlines, one to a line, is the only one with the text of
its lines (`lines_inj`).
-/

namespace Lox

namespace Outline

/-- Whether a character may follow an atom. -/
def endsAtom (c : Char) : Bool :=
  c == ' ' || c == ')' || c == '\n'

/-- Text that may follow an outline. -/
def Follows (rest : List Char) : Prop :=
  ∀ c ∈ rest.head?, endsAtom c

/-- The text of an atom without quotes. -/
structure Bare (text : List Char) : Prop where
  holds : text ≠ []
  free : ∀ c ∈ text, endsAtom c = false ∧ c ≠ '(' ∧ c ≠ '"'

theorem bare_iff {text : List Char} :
    Bare text ↔ text ≠ [] ∧ text.all fun c => !endsAtom c && c != '(' && c != '"' := by
  constructor
  · exact fun bare => ⟨bare.holds, by simpa [and_assoc] using bare.free⟩
  · exact fun ⟨holds, free⟩ => ⟨holds, by simpa [and_assoc] using free⟩

instance (text : List Char) : Decidable (Bare text) :=
  decidable_of_decidable_of_iff bare_iff.symm

/-- The texts that atoms have. -/
inductive Atomic : String → Prop
  | bare {text : String} (bare : Bare text.toList) : Atomic text
  | quoted (value : String) : Atomic (Text.quoted value)

/-- An outline whose atoms can be told from each other and from lists. -/
inductive WellFormed : Outline → Prop
  | atom {text : String} (atomic : Atomic text) : WellFormed (.atom text)
  | node {parts : List Outline} (ofParts : ∀ part ∈ parts, WellFormed part) :
      WellFormed (.node parts)

/-! ### Atoms -/

theorem quoted_starts (value : String) : ∃ rest, (Text.quoted value).toList = '"' :: rest :=
  ⟨_, Text.toList_quoted value⟩

theorem bare_append_inj {text other rest others : List Char} (bare : Bare text)
    (otherBare : Bare other) (follows : Follows rest) (otherFollows : Follows others)
    (same : text ++ rest = other ++ others) :
    text = other ∧ rest = others := by
  have cut {text rest : List Char} (bare : Bare text) (follows : Follows rest) :
      (text ++ rest).takeWhile (fun c => !endsAtom c) = text := by
    rw [List.takeWhile_append_of_pos fun c member => by simp [(bare.free c member).1]]
    cases rest with
    | nil => simp
    | cons c rest => rw [List.takeWhile_cons_of_neg (by simp [follows c rfl]), List.append_nil]
  have texts : text = other := by rw [← cut bare follows, same, cut otherBare otherFollows]
  subst texts
  exact ⟨rfl, List.append_cancel_left same⟩

theorem bare_ne {text rest others : List Char} (bare : Bare text) {c : Char}
    (apart : endsAtom c = true ∨ c = '(' ∨ c = '"') : text ++ rest ≠ c :: others := by
  obtain ⟨first, letters, rfl⟩ := List.exists_cons_of_ne_nil bare.holds
  intro same
  obtain rfl := List.head_eq_of_cons_eq same
  obtain ⟨within, plain, unquoted⟩ := bare.free first List.mem_cons_self
  rcases apart with ends | rfl | rfl
  · rw [within] at ends
    cases ends
  · exact plain rfl
  · exact unquoted rfl

/-- An atom tells where it ends. -/
theorem Atomic.append_inj {text other : String} {rest others : List Char} (atomic : Atomic text)
    (otherAtomic : Atomic other) (follows : Follows rest) (otherFollows : Follows others)
    (same : text.toList ++ rest = other.toList ++ others) : text = other ∧ rest = others := by
  cases atomic with
  | bare bare =>
      cases otherAtomic with
      | bare otherBare =>
          obtain ⟨texts, same⟩ := bare_append_inj bare otherBare follows otherFollows same
          exact ⟨String.toList_inj.mp texts, same⟩
      | quoted value =>
          obtain ⟨letters, starts⟩ := quoted_starts value
          rw [starts] at same
          exact absurd same (bare_ne bare (.inr (.inr rfl)))
  | quoted value =>
      cases otherAtomic with
      | bare otherBare =>
          obtain ⟨letters, starts⟩ := quoted_starts value
          rw [starts] at same
          exact absurd same.symm (bare_ne otherBare (.inr (.inr rfl)))
      | quoted otherValue =>
          obtain ⟨rfl, later⟩ := Text.quoted_append_inj same
          exact ⟨rfl, later⟩

theorem Atomic.ne {text : String} (atomic : Atomic text) {c : Char}
    (apart : endsAtom c = true ∨ c = '(') (rest others : List Char) :
    text.toList ++ rest ≠ c :: others := by
  cases atomic with
  | bare bare => exact bare_ne bare (apart.imp_right .inl)
  | quoted value =>
      obtain ⟨letters, starts⟩ := quoted_starts value
      rw [starts]
      intro same
      rw [← List.head_eq_of_cons_eq same] at apart
      exact absurd apart (by decide)

theorem Atomic.newline_free {text : String} (atomic : Atomic text) : '\n' ∉ text.toList := by
  cases atomic with
  | bare bare => exact fun member => absurd (bare.free _ member).1 (by decide)
  | quoted value => exact Text.newline_not_mem_quoted value

/-! ### Lists -/

/-- The characters of the parts of a list, each behind a space. -/
def tail (parts : List Outline) : List Char :=
  parts.flatMap fun part => ' ' :: part.render.toList

theorem toList_renderParts (part : Outline) (parts : List Outline) :
    (renderParts (part :: parts)).toList = part.render.toList ++ tail parts := by
  induction parts generalizing part with
  | nil => simp [renderParts, tail]
  | cons next parts ih =>
      rw [renderParts, String.toList_append, String.toList_append, ih]
      · simp [tail]
      · simp

theorem toList_render_node (parts : List Outline) :
    (render (.node parts)).toList = '(' :: (renderParts parts).toList ++ [')'] := by
  rw [render, String.toList_append, String.toList_append]
  rfl

theorem follows_tail (parts : List Outline) (rest : List Char) :
    Follows (tail parts ++ ')' :: rest) := by
  cases parts with
  | nil =>
      rintro c ⟨⟩
      rfl
  | cons part parts =>
      rintro c ⟨⟩
      rfl

/-- No outline begins with a character that ends an atom. -/
theorem WellFormed.ne {outline : Outline} (formed : outline.WellFormed) {c : Char}
    (ends : endsAtom c = true) (rest others : List Char) :
    outline.render.toList ++ rest ≠ c :: others := by
  cases formed with
  | atom atomic =>
      rw [render]
      exact atomic.ne (.inl ends) rest others
  | node ofParts =>
      rw [toList_render_node]
      intro same
      rw [← List.head_eq_of_cons_eq same] at ends
      exact absurd ends (by decide)

/-- The text of one outline tells where it ends, if no other outline has a text that goes on with
the same rest. -/
def Determined (outline : Outline) : Prop :=
  ∀ {other : Outline} {rest others : List Char}, other.WellFormed → Follows rest → Follows others →
    outline.render.toList ++ rest = other.render.toList ++ others → outline = other ∧ rest = others

theorem tail_append_inj {parts otherParts : List Outline} {rest others : List Char}
    (determined : ∀ part ∈ parts, part.Determined) (formed : ∀ part ∈ otherParts, part.WellFormed)
    (same : tail parts ++ ')' :: rest = tail otherParts ++ ')' :: others) :
    parts = otherParts ∧ rest = others := by
  induction parts generalizing otherParts with
  | nil =>
      cases otherParts with
      | nil => exact ⟨rfl, List.tail_eq_of_cons_eq same⟩
      | cons other otherParts => exact absurd (List.head_eq_of_cons_eq same) (by decide)
  | cons part parts ih =>
      cases otherParts with
      | nil => exact absurd (List.head_eq_of_cons_eq same) (by decide)
      | cons other otherParts =>
          obtain ⟨ofPart, ofParts⟩ := List.forall_mem_cons.mp determined
          obtain ⟨ofOther, ofOthers⟩ := List.forall_mem_cons.mp formed
          simp only [tail, List.flatMap_cons, List.cons_append, List.append_assoc, List.cons.injEq,
            true_and] at same
          obtain ⟨rfl, later⟩ :=
            ofPart ofOther (follows_tail parts rest) (follows_tail otherParts others) same
          obtain ⟨rfl, last⟩ := ih ofParts ofOthers later
          exact ⟨rfl, last⟩

/-- The parts of a list tell where it ends. -/
theorem parts_append_inj {parts otherParts : List Outline} {rest others : List Char}
    (formed : ∀ part ∈ parts, part.WellFormed) (determined : ∀ part ∈ parts, part.Determined)
    (otherFormed : ∀ part ∈ otherParts, part.WellFormed)
    (same : (renderParts parts).toList ++ ')' :: rest =
      (renderParts otherParts).toList ++ ')' :: others) :
    parts = otherParts ∧ rest = others := by
  cases parts with
  | nil =>
      cases otherParts with
      | nil => exact ⟨rfl, List.tail_eq_of_cons_eq same⟩
      | cons other otherParts =>
          rw [toList_renderParts, List.append_assoc] at same
          exact absurd same.symm ((otherFormed other List.mem_cons_self).ne rfl _ _)
  | cons part parts =>
      cases otherParts with
      | nil =>
          rw [toList_renderParts, List.append_assoc] at same
          exact absurd same ((formed part List.mem_cons_self).ne rfl _ _)
      | cons other otherParts =>
          refine tail_append_inj determined otherFormed ?_
          rw [toList_renderParts, toList_renderParts] at same
          exact congrArg (List.cons ' ') same

/-- A well-formed outline tells where its text ends. -/
theorem WellFormed.append_inj {outline : Outline} (formed : outline.WellFormed) :
    outline.Determined := by
  induction formed with
  | atom atomic =>
      intro other rest others otherFormed follows otherFollows same
      cases otherFormed with
      | atom otherAtomic =>
          rw [render, render] at same
          obtain ⟨rfl, later⟩ := atomic.append_inj otherAtomic follows otherFollows same
          exact ⟨rfl, later⟩
      | node =>
          rw [render, toList_render_node] at same
          exact absurd same (atomic.ne (.inr rfl) _ _)
  | node ofParts ih =>
      intro other rest others otherFormed follows otherFollows same
      cases otherFormed with
      | atom otherAtomic =>
          rw [render, toList_render_node] at same
          exact absurd same.symm (otherAtomic.ne (.inr rfl) _ _)
      | node ofOtherParts =>
          rw [toList_render_node, toList_render_node] at same
          simp only [List.cons_append, List.append_assoc, List.nil_append, List.cons.injEq,
            true_and] at same
          obtain ⟨rfl, later⟩ := parts_append_inj ofParts ih ofOtherParts same
          exact ⟨rfl, later⟩

/-! ### Lines -/

theorem newline_not_mem_tail {parts : List Outline}
    (free : ∀ part ∈ parts, '\n' ∉ part.render.toList) :
    '\n' ∉ tail parts := by
  simp only [tail, List.mem_flatMap, List.mem_cons, not_exists, not_and, not_or]
  exact fun part member => ⟨by decide, free part member⟩

theorem WellFormed.newline_free {outline : Outline} (formed : outline.WellFormed) :
    '\n' ∉ outline.render.toList := by
  induction formed with
  | atom atomic =>
      rw [render]
      exact atomic.newline_free
  | @node parts ofParts ih =>
      have free : '\n' ∉ (renderParts parts).toList := by
        cases parts with
        | nil => simp [renderParts]
        | cons part parts =>
            obtain ⟨ofPart, ofParts⟩ := List.forall_mem_cons.mp ih
            rw [toList_renderParts, List.mem_append, not_or]
            exact ⟨ofPart, newline_not_mem_tail ofParts⟩
      rw [toList_render_node]
      simp [free]

/-- Outlines as text, one to a line. -/
def lines (outlines : List Outline) : List Char :=
  outlines.flatMap fun outline => outline.render.toList ++ ['\n']

theorem lines_inj {outlines others : List Outline}
    (formed : ∀ outline ∈ outlines, outline.WellFormed)
    (otherFormed : ∀ outline ∈ others, outline.WellFormed) (same : lines outlines = lines others) :
    outlines = others := by
  induction outlines generalizing others with
  | nil =>
      cases others with
      | nil => rfl
      | cons other others => simp [lines] at same
  | cons outline outlines ih =>
      cases others with
      | nil => simp [lines] at same
      | cons other others =>
          obtain ⟨ofFirst, ofRest⟩ := List.forall_mem_cons.mp formed
          obtain ⟨ofOther, ofOthers⟩ := List.forall_mem_cons.mp otherFormed
          simp only [lines, List.flatMap_cons, List.append_assoc, List.cons_append,
            List.nil_append] at same
          have follows (rest : List Char) : Follows ('\n' :: rest) := by
            rintro c ⟨⟩
            rfl
          obtain ⟨rfl, later⟩ := ofFirst.append_inj ofOther (follows _) (follows _) same
          rw [ih ofRest ofOthers (List.tail_eq_of_cons_eq later)]

theorem linesFrom_newline {text : List Char} (free : '\n' ∉ text) (line rest : List Char) :
    Text.linesFrom line (text ++ '\n' :: rest) =
      String.ofList (Text.dropReturn (text.reverse ++ line)).reverse :: Text.linesFrom [] rest := by
  induction text generalizing line with
  | nil => rfl
  | cons c text ih =>
      simp only [List.mem_cons, not_or] at free
      rw [List.cons_append, Text.linesFrom, if_neg (Ne.symm free.1), ih free.2, List.reverse_cons,
        List.append_assoc]
      rfl

/-- Lists, one to a line, are the lines of their text. -/
theorem linesFrom_lines {outlines : List Outline}
    (formed : ∀ outline ∈ outlines, outline.WellFormed)
    (nodes : ∀ outline ∈ outlines, ∃ parts, outline = .node parts) :
    Text.linesFrom [] (lines outlines) = outlines.map render := by
  induction outlines with
  | nil => rfl
  | cons outline outlines ih =>
      obtain ⟨ofFirst, ofRest⟩ := List.forall_mem_cons.mp formed
      obtain ⟨⟨parts, rfl⟩, restNodes⟩ := List.forall_mem_cons.mp nodes
      -- a parenthesis ends the line, so there is no carriage return to be dropped
      have whole : (Text.dropReturn (render (.node parts)).toList.reverse).reverse =
          (render (.node parts)).toList := by
        have ends : (render (.node parts)).toList.reverse =
            ')' :: ('(' :: (renderParts parts).toList).reverse := by
          rw [toList_render_node]
          simp
        rw [ends, Text.dropReturn, ← ends, List.reverse_reverse]
        rintro _ ⟨⟩
      rw [lines, List.flatMap_cons, List.append_assoc, List.singleton_append,
        linesFrom_newline ofFirst.newline_free,
        List.append_nil, whole, String.ofList_toList, List.map_cons]
      exact congrArg _ (ih ofRest restNodes)

end Outline

end Lox
