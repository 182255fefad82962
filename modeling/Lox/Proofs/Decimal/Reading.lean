import Lox.Proofs.Decimal.Digits

/-!
What a literal can stand for.

A literal has no sign, and reading it gives zero, a positive number, or positive infinity if it is
too great. In 64 bits these are the encodings up to that of infinity (`greatestBits`): what lies
above has a sign or is not a number. Rounding keeps a sign, and the one division that reading makes
is of such a number by a power of ten that is exact, so nothing else comes out (`read_unsigned`).
-/

namespace Lox.Decimal

open Float.Model
open Float.Model.UnpackedFloat

/-- The bits of positive infinity. -/
def greatestBits : Nat := 2047 * 2 ^ 52

/-- Zero, positive numbers and positive infinity. -/
inductive Unsigned : UnpackedFloat → Prop
  | zero : Unsigned (.zero .positive)
  | infinity : Unsigned (.infinity .positive)
  | finite {m : Nat} {e : Int} {positive : 0 < m} : Unsigned (.finite .positive m e positive)

namespace Unsigned

theorem ite {condition : Prop} [Decidable condition] {first second : UnpackedFloat}
    (ofFirst : condition → Unsigned first) (ofSecond : ¬ condition → Unsigned second) :
    Unsigned (if condition then first else second) := by
  split
  · exact ofFirst ‹_›
  · exact ofSecond ‹_›

theorem dite {condition : Prop} [Decidable condition] {first : condition → UnpackedFloat}
    {second : ¬ condition → UnpackedFloat} (ofFirst : ∀ holds, Unsigned (first holds))
    (ofSecond : ∀ fails, Unsigned (second fails)) :
    Unsigned (if holds : condition then first holds else second holds) := by
  split
  · exact ofFirst _
  · exact ofSecond _

theorem roundWithAccuracy (spec : Format) (m : Nat) (e : Int) (accuracy : Accuracy) :
    Unsigned (UnpackedFloat.roundWithAccuracy spec .positive m e accuracy) := by
  unfold UnpackedFloat.roundWithAccuracy
  exact .dite (fun _ => .zero) fun _ => .finite

theorem div {spec : Format} {number : UnpackedFloat} (unsigned : Unsigned number) {m : Nat}
    {e : Int} {positive : 0 < m} :
    Unsigned (UnpackedFloat.div spec number (.finite .positive m e positive)) := by
  cases unsigned with
  | zero => exact .zero
  | infinity => exact .infinity
  | finite => exact roundWithAccuracy ..

theorem ofNat (spec : Format) (n : Nat) : Unsigned (UnpackedFloat.ofNat spec n) := by
  unfold UnpackedFloat.ofNat UnpackedFloat.ofInt UnpackedFloat.normalize
  split
  · rename_i negative
    rw [Int.compare_eq_lt] at negative
    omega
  · exact .zero
  · exact roundWithAccuracy ..

theorem ofScientific (spec : Format) (m : Nat) (e : Int) :
    Unsigned (UnpackedFloat.ofScientific spec m e) := by
  unfold UnpackedFloat.ofScientific
  refine .dite (fun _ => .zero) fun _ =>
    .ite (fun _ => .infinity) fun _ => .ite (fun _ => .zero) fun _ => .ite ?_ ?_
  · exact fun _ => roundWithAccuracy ..
  · exact fun _ => roundWithAccuracy ..

end Unsigned

/-! ### Bits -/

theorem toNat_packComponents (exponent : BitVec 11) (fraction : BitVec 52) :
    (packComponents .binary64 .positive exponent fraction).toNat =
      exponent.toNat * 2 ^ 52 + fraction.toNat := by
  unfold packComponents
  rw [BitVec.toNat_append, BitVec.toNat_append, ← Nat.shiftLeft_add_eq_or_of_lt fraction.isLt,
    ← Nat.shiftLeft_add_eq_or_of_lt exponent.isLt, Nat.shiftLeft_eq, Nat.shiftLeft_eq]
  simp [Sign.toBitVec]

theorem Unsigned.pack_le {number : UnpackedFloat} (unsigned : Unsigned number) :
    (UnpackedFloat.pack .binary64 number).toNat ≤ greatestBits := by
  cases unsigned with
  | zero => decide
  | infinity => decide
  | @finite m e positive =>
      unfold UnpackedFloat.pack
      dsimp only
      generalize (e + (Format.exponentBias .binary64 : Int) + (52 : Nat)).toNat = biased
      split
      · decide
      · rename_i fits
        have exponent : (BitVec.ofNat 11 biased).toNat ≤ 2046 := by
          rw [BitVec.toNat_ofNat]
          omega
        have fraction : (BitVec.ofNat 52 m).toNat < 2 ^ 52 := BitVec.isLt _
        unfold greatestBits
        split <;> rw [toNat_packComponents]
        · omega
        · rw [BitVec.toNat_zero]
          omega

theorem unsigned_unpack {bits : BitVec 64} (le : bits.toNat ≤ greatestBits) :
    Unsigned (UnpackedFloat.unpack .binary64 bits) := by
  have exponent : (@unpackExponent .binary64 bits).toNat = bits.toNat / 2 ^ 52 % 2 ^ 11 := by
    change (bits.extractLsb 62 52).toNat = _
    simp [Nat.shiftRight_eq_div_pow]
  have fraction : (@unpackMantissa .binary64 bits).toNat = bits.toNat % 2 ^ 52 := by
    change (bits.extractLsb 51 0).toNat = _
    simp
  have sign : Sign.ofBitVec (@unpackSign .binary64 bits) = .positive := by
    have clear : @unpackSign .binary64 bits = 0#1 := by
      apply BitVec.eq_of_toNat_eq
      change (bits.extractLsb 63 63).toNat = 0
      simp only [BitVec.extractLsb_toNat, Nat.shiftRight_eq_div_pow]
      unfold greatestBits at le
      omega
    rw [clear]
    rfl
  unfold UnpackedFloat.unpack
  dsimp only
  rw [sign]
  refine .ite (fun special => ?_) fun _ =>
    .ite (fun _ => .dite (fun _ => .zero) fun _ => .finite) fun _ => .finite
  -- with the greatest exponent, there is no room for a fraction
  have whole : @unpackMantissa .binary64 bits = 0#52 := by
    apply BitVec.eq_of_toNat_eq
    rw [special, show (-1#11).toNat = 2047 by decide] at exponent
    rw [fraction, BitVec.toNat_zero]
    unfold greatestBits at le
    omega
  rw [if_pos whole]
  exact .infinity

/-! ### Literals -/

/-- Whether a number is positive and finite. -/
def isPositive : UnpackedFloat → Bool
  | .finite .positive .. => true
  | _ => false

theorem powersOfTen_positive :
    ∀ power ∈ Float.exactlyRepresentablePowersOfTen,
      isPositive power.toModel.unpack = true := by decide +kernel

theorem Unsigned.divide {number divisor : UnpackedFloat} (unsigned : Unsigned number)
    (positive : isPositive divisor = true) :
    Unsigned (UnpackedFloat.div .binary64 number divisor) := by
  cases divisor with
  | finite sign _ _ _ =>
      cases sign with
      | positive => exact unsigned.div
      | negative => cases positive
  | _ => cases positive

theorem ofScientific_le (m e : Nat) :
    (Float.ofScientific m true e).toBits.toNat ≤ greatestBits := by
  unfold Float.ofScientific
  split
  · rename_i small
    have whole : Unsigned (Float.Model.ofUInt64 m.toUInt64).unpack :=
      unsigned_unpack (Unsigned.ofNat .binary64 _).pack_le
    exact (whole.divide (powersOfTen_positive _ (Array.getElem_mem _))).pack_le
  · exact (Unsigned.ofScientific .binary64 m _).pack_le

/-- A literal stands for a number without a sign. -/
theorem read_unsigned (literal : List Char) :
    Binary.ofFloat (read literal) = .infinite false ∨
      ∃ m q, Binary.ofFloat (read literal) = .finite false m q := by
  have le : (read literal).toBits.toNat ≤ greatestBits := ofScientific_le ..
  unfold Binary.ofFloat
  generalize (read literal).toBits.toNat = bits at le ⊢
  unfold greatestBits at le
  have sign : bits / 9223372036854775808 % 2 = 0 := by omega
  rw [Binary.ofBits_eq, sign]
  split
  · left
    rw [if_pos (by omega)]
    rfl
  · right
    split
    · exact ⟨_, _, rfl⟩
    · exact ⟨_, _, rfl⟩

end Lox.Decimal
