import Lox.Decimal.Text
import Lox.Proofs.Decimal.Rounding

/-!
Numbers that are written alike are the same number.

A row of digits with a point in it stands for a rational number (`written`), and the text of a
number stands for one that rounds to it and to nothing else, so the text determines the number
(`text_inj`). What kind of number it is shows in its first character: a digit, a sign, or the letter
of a name.
-/

namespace Lox.Decimal

/-! ### Rows of digits -/

/-- The rational number that a row of digits with at most one point in it stands for. -/
def written (text : List Char) : ℚ :=
  digitsValue text / 10 ^ ((text.dropWhile (· != '.')).length - 1)

/-- A row of digits with points in it that begins with a digit. -/
structure Numeral (text : List Char) : Prop where
  starts : ∃ first rest, text = first :: rest ∧ first.isDigit
  digits : ∀ c ∈ text, c.isDigit ∨ c = '.'

theorem ne_point_of_digit {c : Char} (digit : c.isDigit) : (c != '.') = true := by
  refine bne_iff_ne.mpr ?_
  rintro rfl
  exact absurd digit (by decide)

theorem foldl_digits {text : List Char} (digits : ∀ c ∈ text, c.isDigit) (start : Nat) :
    text.foldl (fun value c => if c.isDigit then
      10 * value + (c.toNat - '0'.toNat) else value) start =
      Nat.ofDigitChars 10 text start := by
  induction text generalizing start with
  | nil => rfl
  | cons c text ih =>
      obtain ⟨digit, digits⟩ := List.forall_mem_cons.mp digits
      rw [List.foldl_cons, if_pos digit, ih digits, Nat.ofDigitChars_cons]

theorem written_digits {text : List Char} (digits : ∀ c ∈ text, c.isDigit) :
    written text = Nat.ofDigitChars 10 text 0 := by
  have none : text.dropWhile (· != '.') = [] := by
    rw [← List.append_nil text, List.dropWhile_append_of_pos fun c member =>
      ne_point_of_digit (digits c member)]
    rfl
  rw [written, none, digitsValue, foldl_digits digits]
  simp

theorem written_point {whole decimals : List Char} (digits : ∀ c ∈ whole ++ decimals, c.isDigit) :
    written (whole ++ '.' :: decimals) =
      Nat.ofDigitChars 10 (whole ++ decimals) 0 / 10 ^ decimals.length := by
  obtain ⟨ofWhole, ofDecimals⟩ := List.forall_mem_append.mp digits
  have rest : (whole ++ '.' :: decimals).dropWhile (· != '.') = '.' :: decimals := by
    rw [List.dropWhile_append_of_pos fun c member => ne_point_of_digit (ofWhole c member)]
    exact List.dropWhile_cons_of_neg (by decide)
  have passed : digitsValue (whole ++ '.' :: decimals) =
      Nat.ofDigitChars 10 (whole ++ decimals) 0 := by
    have point : ('.' : Char).isDigit = false := by decide
    rw [digitsValue, List.foldl_append, foldl_digits ofWhole, List.foldl_cons, point,
      if_neg Bool.false_ne_true,
      foldl_digits ofDecimals, Nat.ofDigitChars_append]
  rw [written, rest, passed, List.length_cons, Nat.add_sub_cancel]

section Positional

variable (t : Nat)

theorem digits_of_toDigits : ∀ c ∈ Nat.toDigits 10 t, c.isDigit :=
  fun _ member => Nat.isDigit_of_mem_toDigits (by decide) (by decide) member

theorem digits_of_zeros (count : Nat) : ∀ c ∈ List.replicate count '0', c.isDigit := by
  intro c member
  rw [List.eq_of_mem_replicate member]
  decide

theorem numeral_of_digits {text : List Char} (holds : text ≠ []) (digits : ∀ c ∈ text, c.isDigit) :
    Numeral text := by
  obtain ⟨first, rest, rfl⟩ := List.exists_cons_of_ne_nil holds
  exact ⟨⟨first, rest, rfl, digits first List.mem_cons_self⟩, fun c member =>
    .inl (digits c member)⟩

/-- A text in positional notation is a numeral and stands for what it is the text of. -/
theorem positional_spec (k : Int) :
    Numeral (positional t k) ∧ written (positional t k) = t * 10 ^ k := by
  have shown := digits_of_toDigits t
  unfold positional
  dsimp only
  split
  · rename_i whole
    have digits := List.forall_mem_append.mpr ⟨shown, digits_of_zeros k.toNat⟩
    refine ⟨numeral_of_digits (by simp [Nat.toDigits_ne_nil]) digits, ?_⟩
    rw [written_digits digits, Nat.ofDigitChars_append,
      Nat.ofDigitChars_toDigits (by decide) (by decide),
      Nat.ofDigitChars_replicate_zero, ← Int.toNat_of_nonneg whole]
    push_cast
    rw [zpow_natCast, mul_comm, Int.toNat_of_nonneg whole]
  · rename_i fraction
    generalize places_eq : (-k).toNat = places
    generalize padded_eq :
      List.replicate (places + 1 - (Nat.toDigits 10 t).length) '0' ++ Nat.toDigits 10 t = padded
    have digits : ∀ c ∈ padded, c.isDigit :=
      padded_eq ▸ List.forall_mem_append.mpr ⟨digits_of_zeros _, shown⟩
    have long : places < padded.length := by
      rw [← padded_eq, List.length_append, List.length_replicate]
      omega
    have value : Nat.ofDigitChars 10 padded 0 = t := by
      rw [← padded_eq, Nat.ofDigitChars_append, Nat.ofDigitChars_replicate_zero, Nat.mul_zero,
        Nat.ofDigitChars_toDigits (by decide) (by decide)]
    constructor
    · have front : Numeral (padded.take (padded.length - places)) := by
        refine numeral_of_digits ?_ fun c member => digits c (List.mem_of_mem_take member)
        rw [← List.length_pos_iff, List.length_take]
        omega
      obtain ⟨first, rest, starts, digit⟩ := front.starts
      refine ⟨⟨first, rest ++ '.' :: padded.drop (padded.length - places),
        by rw [starts]; rfl, digit⟩, ?_⟩
      refine List.forall_mem_append.mpr
        ⟨front.digits, List.forall_mem_cons.mpr ⟨.inr rfl, fun c member => .inl ?_⟩⟩
      exact digits c (List.mem_of_mem_drop member)
    · rw [written_point (by rwa [List.take_append_drop]), List.take_append_drop, value,
        List.length_drop,
        Nat.sub_sub_self long.le, ← places_eq, div_eq_mul_inv, ← zpow_natCast, ← zpow_neg,
        Int.toNat_of_nonneg (by omega), neg_neg]

end Positional

/-! ### Numbers -/

theorem roundsTo_zero : RoundsTo 0 0 leastExponent := by
  constructor
  · norm_num [reachBelow, hiddenBit_eq]
    exact (quarter_pos _).le
  · positivity
  · omega

section Magnitude

variable {m m' : Nat} {q q' : Int}

/-- The text of a magnitude is a numeral and stands for a number that rounds to the magnitude. -/
theorem magnitude_spec (canonical : Canonical m q) :
    Numeral (magnitude m q) ∧ RoundsTo (written (magnitude m q)) m q := by
  unfold magnitude
  split
  · rename_i zero
    subst zero
    have least : q = leastExponent := canonical.normal.resolve_left (by decide)
    have digits : ∀ c ∈ ['0'], c.isDigit := List.forall_mem_singleton.mpr (by decide)
    have value : written ['0'] = 0 := by rw [written_digits digits]; rfl
    rw [least, value]
    exact ⟨numeral_of_digits (by simp) digits, roundsTo_zero⟩
  · rename_i holds
    obtain ⟨numeral, value⟩ := positional_spec (shortest m q).1 (shortest m q).2
    refine ⟨numeral, ?_⟩
    rw [value]
    exact shortest_roundsTo canonical (Nat.pos_of_ne_zero holds)

theorem magnitude_inj (canonical : Canonical m q) (canonical' : Canonical m' q')
    (same : magnitude m q = magnitude m' q') : m = m' ∧ q = q' := by
  have there := (magnitude_spec canonical').2
  rw [← same] at there
  exact (magnitude_spec canonical).2.unique canonical canonical' there

end Magnitude

namespace Binary

/-- A decoded number is one of the double-precision numbers. -/
def WellFormed : Binary → Prop
  | .finite _ m q => Canonical m q
  | _ => True

theorem toList_text_finite (negative : Bool) (m : Nat) (q : Int) :
    (finite negative m q).text.toList = if negative then '-' :: magnitude m q else magnitude m q :=
  String.toList_ofList

/-- The characters that a text begins with tell finite numbers from the others. -/
theorem text_finite_ne {negative : Bool} {m : Nat} {q : Int} (canonical : Canonical m q)
    {other : Binary} (same : (finite negative m q).text = other.text) :
    ∃ negative m q, other = finite negative m q := by
  obtain ⟨first, rest, starts, digit⟩ := (magnitude_spec canonical).1.starts
  have letters := congrArg String.toList same
  rw [toList_text_finite, starts] at letters
  have digit_ne {c : Char} (letter : c.isDigit = false) : first ≠ c := by
    rintro rfl
    exact Bool.false_ne_true (letter.symm.trans digit)
  cases other with
  | finite negative m q => exact ⟨_, _, _, rfl⟩
  | notANumber =>
      cases negative
      · exact absurd (List.head_eq_of_cons_eq letters) (digit_ne (by decide))
      · exact absurd (List.head_eq_of_cons_eq letters) (by decide)
  | infinite minus =>
      cases negative <;> cases minus
      · exact absurd (List.head_eq_of_cons_eq letters) (digit_ne (by decide))
      · exact absurd (List.head_eq_of_cons_eq letters) (digit_ne (by decide))
      · exact absurd (List.head_eq_of_cons_eq letters) (by decide)
      · exact absurd (List.head_eq_of_cons_eq (List.tail_eq_of_cons_eq letters))
          (digit_ne (by decide))

theorem text_inj {number other : Binary} (formed : number.WellFormed)
    (otherFormed : other.WellFormed) (same : number.text = other.text) : number = other := by
  cases number with
  | finite negative m q =>
      obtain ⟨minus, m', q', rfl⟩ := text_finite_ne formed same
      have letters := congrArg String.toList same
      rw [toList_text_finite, toList_text_finite] at letters
      obtain ⟨first, rest, starts, digit⟩ := (magnitude_spec formed).1.starts
      obtain ⟨first', rest', starts', digit'⟩ := (magnitude_spec otherFormed).1.starts
      have signs : negative = minus := by
        rw [starts, starts'] at letters
        cases negative <;> cases minus <;> first | rfl | skip
        · rw [List.head_eq_of_cons_eq letters] at digit
          exact absurd digit (by decide)
        · rw [← List.head_eq_of_cons_eq letters] at digit'
          exact absurd digit' (by decide)
      subst signs
      have magnitudes : magnitude m q = magnitude m' q' := by
        cases negative
        · exact letters
        · exact List.tail_eq_of_cons_eq letters
      obtain ⟨rfl, rfl⟩ := magnitude_inj formed otherFormed magnitudes
      rfl
  | notANumber =>
      cases other with
      | finite => obtain ⟨_, _, _, found⟩ := text_finite_ne otherFormed same.symm; cases found
      | notANumber => rfl
      | infinite minus => cases minus <;> exact absurd same (by decide)
  | infinite negative =>
      cases other with
      | finite => obtain ⟨_, _, _, found⟩ := text_finite_ne otherFormed same.symm; cases found
      | notANumber => cases negative <;> exact absurd same (by decide)
      | infinite minus =>
          cases negative <;> cases minus <;> first | rfl | exact absurd same (by decide)

/-! ### Bits -/

theorem ofBits_eq (bits : Nat) : ofBits bits =
    if bits / 4503599627370496 % 2048 = 2047 then
      if bits % 4503599627370496 = 0 then
        .infinite (bits / 9223372036854775808 % 2 == 1) else .notANumber
    else if bits / 4503599627370496 % 2048 = 0 then
      .finite (bits / 9223372036854775808 % 2 == 1) (bits % 4503599627370496) (-1074)
    else .finite (bits / 9223372036854775808 % 2 == 1) (4503599627370496 + bits % 4503599627370496)
      (-1074 + (bits / 4503599627370496 % 2048 - 1 : Nat)) := rfl

theorem wellFormed_ofBits (bits : Nat) : (ofBits bits).WellFormed := by
  rw [ofBits_eq]
  split
  · split <;> trivial
  · have exponent : bits / 4503599627370496 % 2048 < 2048 := Nat.mod_lt _ (by decide)
    have fraction : bits % 4503599627370496 < 4503599627370496 := Nat.mod_lt _ (by decide)
    split
    · exact ⟨by rw [hiddenBit_eq]; omega, Int.le_refl _, by decide, .inr rfl⟩
    · refine ⟨by rw [hiddenBit_eq]; omega, ?_, by omega, .inl (by rw [hiddenBit_eq]; omega)⟩
      unfold leastExponent
      omega

/-- The bits that encode a number or an infinity. The leading bit of a significand that has one
carries over into the exponent. -/
def bits : Binary → Nat
  | .notANumber => 0
  | .infinite negative => negative.toNat * 2 ^ 63 + 2047 * hiddenBit
  | .finite negative m q => negative.toNat * 2 ^ 63 + (q - leastExponent).toNat * hiddenBit + m

theorem bits_ofBits {encoded : Nat} (fits : encoded < 2 ^ 64)
    (number : ofBits encoded ≠ .notANumber) :
    (ofBits encoded).bits = encoded := by
  have sign : (encoded / 9223372036854775808 % 2 == 1).toNat = encoded / 9223372036854775808 := by
    have bit : encoded / 9223372036854775808 = 0 ∨ encoded / 9223372036854775808 = 1 := by omega
    rcases bit with clear | set <;> simp [*]
  rw [ofBits_eq] at number ⊢
  split
  · split
    · rw [bits, sign, hiddenBit_eq]
      omega
    · rename_i special fraction
      rw [if_pos special, if_neg fraction] at number
      exact absurd rfl number
  · split
    · rw [bits, sign, hiddenBit_eq, leastExponent]
      omega
    · rw [bits, sign, hiddenBit_eq, leastExponent]
      omega

end Binary

theorem wellFormed_ofFloat (x : Float) : (Binary.ofFloat x).WellFormed :=
  Binary.wellFormed_ofBits _

theorem ofFloat_inj {x y : Float} (number : Binary.ofFloat x ≠ .notANumber)
    (same : Binary.ofFloat x = Binary.ofFloat y) : x = y := by
  have here := Binary.bits_ofBits x.toBits.toNat_lt number
  have otherNumber : Binary.ofFloat y ≠ .notANumber := same ▸ number
  have there := Binary.bits_ofBits y.toBits.toNat_lt otherNumber
  have bits : x.toBits = y.toBits := by
    rw [← UInt64.toNat_inj, ← here, ← there]
    exact congrArg Binary.bits same
  obtain ⟨⟨first, _⟩⟩ := x
  obtain ⟨⟨second, _⟩⟩ := y
  change first = second at bits
  subst bits
  rfl

/-- Numbers with the same text are the same. -/
theorem text_inj {x y : Float} (number : Binary.ofFloat x ≠ .notANumber) (same : text x = text y) :
    x = y :=
  ofFloat_inj number (Binary.text_inj (wellFormed_ofFloat x) (wellFormed_ofFloat y) same)

end Lox.Decimal
