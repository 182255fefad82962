import Lox.Text.Quoted

/-!
A text between quotes can be read off what follows it.

The ways in which a character is written form a prefix code: a backslash begins all that are longer
than one character, the character behind it tells the letters of the control characters from a code
point, and a code point ends at its brace (`Escape.append_inj`). No character is written as a quote
comes first, so the first quote that is not behind a backslash closes the text, and two texts
between quotes that begin the same row of characters are the same (`quoted_append_inj`).
-/

namespace Lox.Text

/-! ### Hexadecimal digits -/

theorem digitChar_inj : ∀ first < 16, ∀ second < 16,
    Nat.digitChar first = Nat.digitChar second → first = second := by decide

theorem digitChar_apart :
    ∀ digit < 16, Nat.digitChar digit ≠ '\x7d' ∧ Nat.digitChar digit ≠ '\n' := by decide

theorem hexadecimal_of_lt {code : Nat} (small : code < 16) :
    hexadecimal code = [Nat.digitChar code] :=
  Nat.toDigits_of_lt_base small

theorem hexadecimal_of_le {code : Nat} (large : 16 ≤ code) :
    hexadecimal code = hexadecimal (code / 16) ++ [Nat.digitChar (code % 16)] :=
  Nat.toDigits_of_base_le (by decide) large

theorem hexadecimal_ne_nil (code : Nat) : hexadecimal code ≠ [] :=
  Nat.toDigits_ne_nil

theorem mem_hexadecimal {code : Nat} {c : Char} (member : c ∈ hexadecimal code) :
    ∃ digit < 16, c = Nat.digitChar digit := by
  induction code using Nat.strongRecOn with
  | ind code ih =>
      by_cases small : code < 16
      · rw [hexadecimal_of_lt small, List.mem_singleton] at member
        exact ⟨code, small, member⟩
      · rw [hexadecimal_of_le (Nat.le_of_not_lt small), List.mem_append,
          List.mem_singleton] at member
        rcases member with member | rfl
        · exact ih _ (Nat.div_lt_self (by omega) (by decide)) member
        · exact ⟨_, Nat.mod_lt _ (by decide), rfl⟩

theorem hexadecimal_inj {code other : Nat} (same : hexadecimal code = hexadecimal other) :
    code = other := by
  induction code using Nat.strongRecOn generalizing other with
  | ind code ih =>
      by_cases small : code < 16 <;> by_cases otherSmall : other < 16
      · rw [hexadecimal_of_lt small, hexadecimal_of_lt otherSmall, List.singleton_inj] at same
        exact digitChar_inj _ small _ otherSmall same
      · rw [hexadecimal_of_lt small, hexadecimal_of_le (Nat.le_of_not_lt otherSmall),
          List.singleton_eq_append_iff]
          at same
        simp [hexadecimal_ne_nil] at same
      · rw [hexadecimal_of_le (Nat.le_of_not_lt small), hexadecimal_of_lt otherSmall,
          List.append_eq_singleton_iff]
          at same
        simp [hexadecimal_ne_nil] at same
      · rw [hexadecimal_of_le (Nat.le_of_not_lt small),
          hexadecimal_of_le (Nat.le_of_not_lt otherSmall)] at same
        obtain ⟨front, last⟩ := List.append_inj' same rfl
        have front := ih _ (Nat.div_lt_self (by omega) (by decide)) front
        have last := digitChar_inj _ (Nat.mod_lt _ (by decide)) _ (Nat.mod_lt _ (by decide))
          (List.singleton_inj.mp last)
        omega

/-! ### Characters -/

/-- The characters that are written as a backslash and a letter, with that letter. -/
def letters : List (Char × Char) :=
  [('\x00', '0'), ('\t', 't'), ('\r', 'r'), ('\n', 'n'), ('"', '"'), ('\\', '\\')]

/-- The three ways to write a character between quotes. -/
inductive Escape : Char → List Char → Prop
  | letter {c letter : Char} (listed : (c, letter) ∈ letters) : Escape c ['\\', letter]
  | code {c : Char} : Escape c ('\\' :: 'u' :: '\x7b' :: hexadecimal c.toNat ++ ['\x7d'])
  | plain {c : Char} (unlisted : ∀ letter, (c, letter) ∉ letters) : Escape c [c]

theorem escape_view (c : Char) : Escape c (escape c) := by
  fun_cases escape c
  case case7 => exact .code
  case case8 => exact .plain (by simp [letters, *])
  all_goals exact .letter (by simp [letters, *])

theorem letters_inj :
    ∀ entry ∈ letters, ∀ other ∈ letters, entry.2 = other.2 → entry.1 = other.1 := by decide

theorem letters_apart : ∀ entry ∈ letters, entry.2 ≠ 'u' ∧ entry.2 ≠ '\n' := by decide

theorem plain_apart {c : Char} (unlisted : ∀ letter, (c, letter) ∉ letters) :
    c ≠ '\\' ∧ c ≠ '"' ∧ c ≠ '\n' := by
  refine ⟨?_, ?_, ?_⟩ <;> rintro rfl
  · exact unlisted '\\' (by decide)
  · exact unlisted '"' (by decide)
  · exact unlisted 'n' (by decide)

namespace Escape

variable {c d : Char} {written other rest others : List Char}

/-- A written character tells where it ends. -/
theorem append_inj (here : Escape c written) (there : Escape d other)
    (same : written ++ rest = other ++ others) :
    c = d ∧ rest = others := by
  cases here with
  | letter listed =>
      cases there with
      | letter otherListed =>
          simp only [List.cons_append, List.nil_append, List.cons.injEq, true_and] at same
          exact ⟨letters_inj _ listed _ otherListed same.1, same.2⟩
      | code =>
          simp only [List.cons_append, List.nil_append, List.cons.injEq, true_and] at same
          exact absurd same.1 (letters_apart _ listed).1
      | plain unlisted =>
          simp only [List.cons_append, List.nil_append, List.cons.injEq] at same
          exact absurd same.1.symm (plain_apart unlisted).1
  | code =>
      cases there with
      | letter listed =>
          simp only [List.cons_append, List.nil_append, List.cons.injEq, true_and] at same
          exact absurd same.1.symm (letters_apart _ listed).1
      | code =>
          simp only [List.cons_append, List.append_assoc, List.nil_append, List.cons.injEq,
            true_and] at same
          -- the brace that closes a code point is none of its digits
          have closes (code : Nat) : ∀ c ∈ hexadecimal code, (c != '\x7d') = true := by
            intro c member
            obtain ⟨digit, small, rfl⟩ := mem_hexadecimal member
            exact bne_iff_ne.mpr (digitChar_apart digit small).1
          have digits := congrArg (List.takeWhile (· != '\x7d')) same
          rw [List.takeWhile_append_of_pos (closes _),
            List.takeWhile_append_of_pos (closes _)] at digits
          simp only [bne_self_eq_false, Bool.false_eq_true, not_false_eq_true,
            List.takeWhile_cons_of_neg,
            List.append_nil] at digits
          rw [digits] at same
          exact ⟨Char.toNat_inj.mp (hexadecimal_inj digits),
            List.tail_eq_of_cons_eq (List.append_cancel_left same)⟩
      | plain unlisted =>
          simp only [List.cons_append, List.nil_append, List.cons.injEq] at same
          exact absurd same.1.symm (plain_apart unlisted).1
  | plain unlisted =>
      have backslash := (plain_apart unlisted).1
      cases there <;> simp_all

theorem quote_ne (here : Escape c written) : '"' :: rest ≠ written ++ others := by
  cases here with
  | letter | code => simp
  | plain unlisted =>
      intro same
      exact (plain_apart unlisted).2.1 (List.head_eq_of_cons_eq same).symm

theorem newline_free (here : Escape c written) : '\n' ∉ written := by
  cases here with
  | letter listed => simpa using (letters_apart _ listed).2.symm
  | code =>
      simp only [List.cons_append, List.mem_cons, List.mem_append, List.not_mem_nil,
        or_false, not_or]
      refine ⟨by decide, by decide, by decide, fun member => ?_, by decide⟩
      obtain ⟨digit, small, same⟩ := mem_hexadecimal member
      exact (digitChar_apart digit small).2 same.symm
  | plain unlisted => simpa using (plain_apart unlisted).2.2.symm

end Escape

/-! ### Texts -/

theorem escapes_append_inj {text other rest others : List Char}
    (same : text.flatMap escape ++ '"' :: rest = other.flatMap escape ++ '"' :: others) :
    text = other ∧ rest = others := by
  induction text generalizing other with
  | nil =>
      cases other with
      | nil => simpa using same
      | cons d other =>
          rw [List.flatMap_cons, List.append_assoc] at same
          exact absurd same (escape_view d).quote_ne
  | cons c text ih =>
      cases other with
      | nil =>
          rw [List.flatMap_cons, List.append_assoc] at same
          exact absurd same.symm (escape_view c).quote_ne
      | cons d other =>
          rw [List.flatMap_cons, List.flatMap_cons, List.append_assoc, List.append_assoc] at same
          obtain ⟨rfl, later⟩ := (escape_view c).append_inj (escape_view d) same
          obtain ⟨rfl, last⟩ := ih later
          exact ⟨rfl, last⟩

theorem toList_quoted (text : String) :
    (quoted text).toList = '"' :: text.toList.flatMap escape ++ ['"'] :=
  String.toList_ofList

/-- A text between quotes tells where it ends. -/
theorem quoted_append_inj {text other : String} {rest others : List Char}
    (same : (quoted text).toList ++ rest = (quoted other).toList ++ others) :
    text = other ∧ rest = others := by
  rw [toList_quoted, toList_quoted] at same
  simp only [List.cons_append, List.append_assoc, List.nil_append, List.cons.injEq,
    true_and] at same
  obtain ⟨letters, same⟩ := escapes_append_inj same
  exact ⟨String.toList_inj.mp letters, same⟩

theorem quoted_inj {text other : String} (same : quoted text = quoted other) : text = other := by
  have letters : (quoted text).toList ++ [] = (quoted other).toList ++ [] := by rw [same]
  exact (quoted_append_inj letters).1

theorem newline_not_mem_quoted (text : String) : '\n' ∉ (quoted text).toList := by
  rw [toList_quoted]
  simp only [List.cons_append, List.mem_cons, List.mem_append, List.mem_flatMap, List.not_mem_nil,
    or_false, not_or,
    not_exists, not_and]
  exact ⟨by decide, fun c _ => (escape_view c).newline_free, by decide⟩

end Lox.Text
