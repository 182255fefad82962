import Mathlib.Data.String.Basic
import Mathlib.Data.Char

/-!
The order of texts.

Texts are ordered as rows of characters and characters by their numbers. UTF-8 is made so that the
bytes of texts are in the same order (`bytes_lt_of_lt`): the first byte of a character tells how
many there are, more for greater characters, and each byte decides unless those of both characters
are the same.
-/

namespace Lox.Text

/-- The bytes of a text. -/
def bytes (text : String) : List UInt8 :=
  text.toUTF8.data.toList

theorem bytes_eq (text : String) : bytes text = text.toList.flatMap String.utf8EncodeChar := by
  rw [bytes, String.toUTF8_eq_toByteArray, ← String.utf8Encode_toList, List.utf8Encode,
    List.data_toByteArray]

theorem byte_lt_iff {first second : Nat} (below : first < 256) (below' : second < 256) :
    UInt8.ofNat first < UInt8.ofNat second ↔ first < second := by
  rw [UInt8.lt_iff_toNat_lt, UInt8.toNat_ofNat_of_lt' below, UInt8.toNat_ofNat_of_lt' below']

theorem byte_eq_iff {first second : Nat} (below : first < 256) (below' : second < 256) :
    UInt8.ofNat first = UInt8.ofNat second ↔ first = second := by
  rw [← UInt8.toNat_inj, UInt8.toNat_ofNat_of_lt' below, UInt8.toNat_ofNat_of_lt' below']

/-- Of two numbers, the first digit in base 64 in which they differ decides. -/
theorem digit_decides {number number' : Nat} (less : number < number') :
    number / 262144 < number' / 262144 ∨
    number / 262144 = number' / 262144 ∧ number / 4096 % 64 < number' / 4096 % 64 ∨
    number / 4096 = number' / 4096 ∧ number / 64 % 64 < number' / 64 % 64 ∨
    number / 64 = number' / 64 ∧ number % 64 < number' % 64 := by
  have step : ∀ n n' : Nat, n < n' → n / 64 < n' / 64 ∨ n / 64 = n' / 64 ∧
      n % 64 < n' % 64 := by omega
  have high : ∀ n : Nat, n / 64 / 64 = n / 4096 ∧ n / 4096 / 64 = n / 262144 := by
    simp only [Nat.div_div_eq_div_mul, and_self, implies_true]
  rcases step _ _ less with less | last
  · rcases step _ _ less with less | third
    · rw [(high _).1, (high _).1] at less
      rcases step _ _ less with first | second
      · rw [(high _).2, (high _).2] at first
        exact .inl first
      · rw [(high _).2, (high _).2] at second
        exact .inr (.inl second)
    · rw [(high _).1, (high _).1] at third
      exact .inr (.inr (.inl third))
  · exact .inr (.inr (.inr last))

/-- The bytes of the lesser character are less, whatever comes behind them. -/
theorem encoded_lt {c d : Char} (less : c < d) (rest rest' : List UInt8) :
    String.utf8EncodeChar c ++ rest < String.utf8EncodeChar d ++ rest' := by
  have below : c.val.toNat < d.val.toNat := less
  have bound : d.val.toNat < 1114112 := by
    rcases d.valid with low | ⟨-, high⟩ <;> omega
  rw [String.utf8EncodeChar, String.utf8EncodeChar]
  generalize c.val.toNat = number, d.val.toNat = number' at below bound ⊢
  have decides := digit_decides below
  have first : number / 262144 % 8 = number / 262144 := Nat.mod_eq_of_lt (by omega)
  have first' : number' / 262144 % 8 = number' / 262144 := Nat.mod_eq_of_lt (by omega)
  rw [first, first']
  split_ifs <;>
    simp (disch := omega) only [List.cons_append, List.nil_append, List.cons_lt_cons_iff,
      byte_lt_iff,
      byte_eq_iff] <;>
    omega

/-- Texts are in the order of their bytes. -/
theorem bytes_lt_of_lt {first second : String} (less : first < second) :
    bytes first < bytes second := by
  rw [bytes_eq, bytes_eq]
  obtain ⟨characters, same⟩ : ∃ characters, first.toList = characters := ⟨_, rfl⟩
  obtain ⟨characters', same'⟩ : ∃ characters, second.toList = characters := ⟨_, rfl⟩
  replace less : List.Lex (· < ·) characters characters' := same ▸ same' ▸ less
  rw [same, same']
  clear same same'
  induction less with
  | @nil c rest =>
      obtain ⟨byte, bytes, encoded⟩ :=
        List.exists_cons_of_ne_nil (String.utf8EncodeChar_ne_nil (c := c))
      rw [List.flatMap_nil, List.flatMap_cons, encoded]
      exact List.Lex.nil
  | cons _ ih =>
      rw [List.flatMap_cons, List.flatMap_cons]
      exact List.append_left_lt ih
  | rel less =>
      rw [List.flatMap_cons, List.flatMap_cons]
      exact encoded_lt less _ _

end Lox.Text
