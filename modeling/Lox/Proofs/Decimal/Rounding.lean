import Lox.Decimal.Shortest
import Mathlib.Algebra.Order.Field.Power
import Mathlib.Tactic.Linarith
import Mathlib.Tactic.NormNum
import Mathlib.Tactic.Positivity
import Mathlib.Tactic.Ring

/-!
The digits found for a number read back as that number and as no other.

A rational number rounds to `m * 2 ^ q` if it lies in the interval that the search for digits goes
by (`RoundsTo`). The intervals of different numbers do not meet: they end half way between
neighbours, and of two neighbours one has an odd significand and leaves the common end to the other
(`RoundsTo.unique`). The search ends on a point of the interval, because the grids become finer than
the interval before it gives up (`shortest_roundsTo`).
-/

namespace Lox.Decimal

/-- The significands and exponents of double-precision numbers. The leading bit is there unless the
exponent is the least one. -/
structure Canonical (m : Nat) (q : Int) : Prop where
  small : m < 2 * hiddenBit
  least : leastExponent ≤ q
  greatest : q ≤ 971
  normal : hiddenBit ≤ m ∨ q = leastExponent

/-- A number rounds to `m * 2 ^ q`. Ends of the interval go to the even significand. -/
structure RoundsTo (x : ℚ) (m : Nat) (q : Int) : Prop where
  low : (4 * m - reachBelow m q : ℚ) * 2 ^ (q - 2) ≤ x
  high : x ≤ (4 * m + 2 : ℚ) * 2 ^ (q - 2)
  inner : m % 2 = 1 → (4 * m - reachBelow m q : ℚ) * 2 ^ (q - 2) < x ∧
    x < (4 * m + 2 : ℚ) * 2 ^ (q - 2)

theorem hiddenBit_eq : hiddenBit = 4503599627370496 := by decide

theorem reachBelow_le (m : Nat) (q : Int) : reachBelow m q ≤ 2 := by
  unfold reachBelow
  split <;> omega

/-! ### Intervals do not meet -/

theorem quarter_pos (q : Int) : (0 : ℚ) < 2 ^ (q - 2) := by positivity

theorem RoundsTo.not_beside {x : ℚ} {m m' : Nat} {q : Int} (here : RoundsTo x m q)
    (there : RoundsTo x m' q) (less : m < m') : False := by
  have unit := quarter_pos q
  have reach : (reachBelow m' q : ℚ) ≤ 2 := by exact_mod_cast reachBelow_le m' q
  have next : (m : ℚ) + 1 ≤ m' := by exact_mod_cast less
  have meets : (4 * m + 2 : ℚ) * 2 ^ (q - 2) ≤ (4 * m' - reachBelow m' q : ℚ) * 2 ^ (q - 2) :=
    mul_le_mul_of_nonneg_right (by linarith) unit.le
  by_cases odd : m % 2 = 1
  · linarith [(here.inner odd).2, there.low]
  · by_cases nextOdd : m' % 2 = 1
    · linarith [here.high, (there.inner nextOdd).1]
    · -- both are even, so there is a number between them
      have apart : (m : ℚ) + 2 ≤ m' := by exact_mod_cast (by omega : m + 2 ≤ m')
      have gap : (4 * m + 2 : ℚ) * 2 ^ (q - 2) < (4 * m' - reachBelow m' q : ℚ) * 2 ^ (q - 2) :=
        mul_lt_mul_of_pos_right (by linarith) unit
      linarith [here.high, there.low]

/-- The least number of a binade reaches only a quarter below itself, to where the binade before it
ends. -/
theorem reach_of_normal {m : Nat} {q : Int} (canonical : Canonical m q)
    (greater : leastExponent < q) :
    4 * hiddenBit - 1 ≤ 4 * m - reachBelow m q := by
  have normal := canonical.normal.resolve_right (by omega)
  unfold reachBelow
  split <;> omega

theorem RoundsTo.not_beyond {x : ℚ} {m m' : Nat} {q q' : Int} (canonical : Canonical m q)
    (canonical' : Canonical m' q') (here : RoundsTo x m q) (there : RoundsTo x m' q')
    (less : q < q') : False := by
  have unit := quarter_pos q
  have greater : leastExponent < q' := lt_of_le_of_lt canonical.least less
  have twice : 2 * (2 : ℚ) ^ (q - 2) ≤ 2 ^ (q' - 2) := by
    rw [← zpow_one_add₀ (by norm_num)]
    exact zpow_le_zpow_right₀ (by norm_num) (by omega)
  have start : (4 * hiddenBit - 1 : ℚ) ≤ 4 * m' - reachBelow m' q' := by
    have reach := reachBelow_le m' q'
    have normal := canonical'.normal.resolve_right (by omega)
    rw [hiddenBit_eq] at normal
    have bound := reach_of_normal canonical' greater
    have cast : ((4 * hiddenBit - 1 : Nat) : ℚ) ≤ ((4 * m' - reachBelow m' q' : Nat) : ℚ) := by
      exact_mod_cast bound
    rwa [Nat.cast_sub (by rw [hiddenBit_eq]; omega), Nat.cast_sub (by omega), Nat.cast_mul,
      Nat.cast_mul] at cast
  have begins : (8 * hiddenBit - 2 : ℚ) * 2 ^ (q - 2) ≤ x := by
    calc (8 * hiddenBit - 2 : ℚ) * 2 ^ (q - 2) = (4 * hiddenBit - 1) * (2 * 2 ^ (q - 2)) := by ring
      _ ≤ (4 * hiddenBit - 1) * 2 ^ (q' - 2) := by
          refine mul_le_mul_of_nonneg_left twice ?_
          norm_num [hiddenBit_eq]
      _ ≤ (4 * m' - reachBelow m' q') * 2 ^ (q' - 2) :=
        mul_le_mul_of_nonneg_right start (by positivity)
      _ ≤ x := there.low
  by_cases odd : m % 2 = 1
  · have last : (m : ℚ) + 1 ≤ 2 * hiddenBit := by exact_mod_cast canonical.small
    have ends : (4 * m + 2 : ℚ) * 2 ^ (q - 2) ≤ (8 * hiddenBit - 2) * 2 ^ (q - 2) :=
      mul_le_mul_of_nonneg_right (by linarith) unit.le
    linarith [(here.inner odd).2]
  · have last : (m : ℚ) + 2 ≤ 2 * hiddenBit := by
      have small := canonical.small
      exact_mod_cast (by omega : m + 2 ≤ 2 * hiddenBit)
    have ends : (4 * m + 2 : ℚ) * 2 ^ (q - 2) < (8 * hiddenBit - 2) * 2 ^ (q - 2) :=
      mul_lt_mul_of_pos_right (by linarith) unit
    linarith [here.high]

/-- No number rounds to two. -/
theorem RoundsTo.unique {x : ℚ} {m m' : Nat} {q q' : Int} (canonical : Canonical m q)
    (canonical' : Canonical m' q') (here : RoundsTo x m q) (there : RoundsTo x m' q') :
    m = m' ∧ q = q' := by
  rcases lt_trichotomy q q' with less | rfl | less
  · exact (here.not_beyond canonical canonical' there less).elim
  · rcases lt_trichotomy m m' with less | rfl | less
    · exact (here.not_beside there less).elim
    · exact ⟨rfl, rfl⟩
    · exact (there.not_beside here less).elim
  · exact (there.not_beyond canonical' canonical here less).elim

/-! ### Points of grids -/

theorem pow_toNat {base : ℚ} (positive : 0 < base) (exponent : Int) :
    base ^ exponent.toNat = base ^ exponent * base ^ (-exponent).toNat := by
  rw [← zpow_natCast, ← zpow_natCast, ← zpow_add₀ positive.ne']
  congr 1
  omega

/-- The two scales of a grid compare quarters of `2 ^ q` with units of `10 ^ k`. -/
theorem gridScale_spec (q k : Int) : ∃ unit : ℚ, 0 < unit ∧
    ((gridScale q k).1 : ℚ) = 2 ^ (q - 2) * unit ∧ ((gridScale q k).2 : ℚ) = 10 ^ k * unit := by
  refine ⟨2 ^ (2 - q).toNat * 10 ^ (-k).toNat, by positivity, ?_, ?_⟩
  · have binary := pow_toNat (by norm_num : (0 : ℚ) < 2) (q - 2)
    rw [neg_sub] at binary
    simp only [gridScale, Nat.pow_eq]
    push_cast
    rw [binary, mul_assoc]
  · have decimal := pow_toNat (by norm_num : (0 : ℚ) < 10) k
    simp only [gridScale, Nat.pow_eq]
    push_cast
    rw [decimal]
    ring

section Grid

variable {m : Nat} {q k : Int}

theorem scaled_le_iff (quarters points : Nat) :
    quarters * (gridScale q k).1 ≤ points * (gridScale q k).2 ↔
    (quarters : ℚ) * 2 ^ (q - 2) ≤ points * 10 ^ k := by
  obtain ⟨unit, positive, up, down⟩ := gridScale_spec q k
  rw [← Nat.cast_le (α := ℚ), Nat.cast_mul, Nat.cast_mul, up, down, ← mul_assoc, ← mul_assoc]
  exact mul_le_mul_iff_left₀ positive

theorem scaled_ge_iff (quarters points : Nat) :
    points * (gridScale q k).2 ≤ quarters * (gridScale q k).1 ↔
    (points : ℚ) * 10 ^ k ≤ quarters * 2 ^ (q - 2) := by
  obtain ⟨unit, positive, up, down⟩ := gridScale_spec q k
  rw [← Nat.cast_le (α := ℚ), Nat.cast_mul, Nat.cast_mul, up, down, ← mul_assoc, ← mul_assoc]
  exact mul_le_mul_iff_left₀ positive

variable {t : Nat}

/-- The test that the search makes of a point. -/
theorem roundsTo_of_inside (positive : 0 < m)
    (inside : (if m % 2 = 0 then
        decide ((4 * m - reachBelow m q) * (gridScale q k).1 ≤ t * (gridScale q k).2) &&
          decide (t * (gridScale q k).2 ≤ (4 * m + 2) * (gridScale q k).1)
      else decide ((4 * m - reachBelow m q) * (gridScale q k).1 < t * (gridScale q k).2) &&
          decide (t * (gridScale q k).2 < (4 * m + 2) * (gridScale q k).1)) = true) :
    RoundsTo (t * 10 ^ k) m q := by
  have reach := reachBelow_le m q
  have ends : ((4 * m - reachBelow m q : Nat) : ℚ) = 4 * m - reachBelow m q ∧
      ((4 * m + 2 : Nat) : ℚ) = 4 * m + 2 := by
    refine ⟨?_, by push_cast; ring⟩
    rw [Nat.cast_sub (by omega)]
    push_cast
    ring
  split at inside
  · rename_i even
    rw [Bool.and_eq_true, decide_eq_true_eq, decide_eq_true_eq, scaled_le_iff, scaled_ge_iff,
      ends.1, ends.2] at inside
    exact ⟨inside.1, inside.2, fun odd => by omega⟩
  · rw [Bool.and_eq_true, decide_eq_true_eq, decide_eq_true_eq, ← not_le, ← not_le, scaled_ge_iff,
      scaled_le_iff,
      ends.1, ends.2, not_le, not_le] at inside
    exact ⟨inside.1.le, inside.2.le, fun _ => inside⟩

theorem pointIn?_roundsTo (positive : 0 < m) (found : pointIn? m q k = some t) :
    RoundsTo (t * 10 ^ k) m q := by
  unfold pointIn? at found
  dsimp only at found
  split at found
  case h_1 below above =>
    split at found
    · cases found
      exact roundsTo_of_inside positive below
    · cases found
      exact roundsTo_of_inside positive above
  case h_2 below _ =>
    cases found
    exact roundsTo_of_inside positive below
  case h_3 _ above =>
    cases found
    exact roundsTo_of_inside positive above
  case h_4 => cases found

theorem gridScale_pos (q k : Int) : 0 < (gridScale q k).1 ∧ 0 < (gridScale q k).2 := by
  obtain ⟨unit, positive, up, down⟩ := gridScale_spec q k
  constructor <;> rw [← Nat.cast_pos (α := ℚ)]
  · rw [up]
    positivity
  · rw [down]
    positivity

/-- A grid that is finer than the interval has a point in it: the one just above the number. -/
theorem exists_pointIn? (fine : (10 : ℚ) ^ k < 2 ^ (q - 1)) : ∃ t, pointIn? m q k = some t := by
  have narrow : (gridScale q k).2 < 2 * (gridScale q k).1 := by
    by_contra wide
    have scaled := (scaled_le_iff (q := q) (k := k) 2 1).mp (by omega)
    rw [Nat.cast_ofNat, ← zpow_one_add₀ (by norm_num), Nat.cast_one, one_mul] at scaled
    have same : 1 + (q - 2) = q - 1 := by omega
    rw [same] at scaled
    linarith
  have reach : 0 < reachBelow m q := by
    unfold reachBelow
    split <;> decide
  obtain ⟨upPositive, downPositive⟩ := gridScale_pos q k
  unfold pointIn?
  dsimp only
  generalize (gridScale q k).1 = up, (gridScale q k).2 = down at *
  have above : 4 * m * up < (4 * m * up / down + 1) * down := by
    rw [Nat.mul_comm _ down]
    exact Nat.lt_mul_div_succ _ downPositive
  have under : (4 * m * up / down + 1) * down < (4 * m + 2) * up := by
    calc (4 * m * up / down + 1) * down = 4 * m * up / down * down + down := by ring
      _ ≤ 4 * m * up + down := Nat.add_le_add_right (Nat.div_mul_le_self _ _) _
      _ < 4 * m * up + 2 * up := Nat.add_lt_add_left narrow _
      _ = (4 * m + 2) * up := by ring
  have start : (4 * m - reachBelow m q) * up < (4 * m * up / down + 1) * down :=
    lt_of_le_of_lt (Nat.mul_le_mul_right _ (Nat.sub_le _ _)) above
  split
  · split <;> exact ⟨_, rfl⟩
  · exact ⟨_, rfl⟩
  · exact ⟨_, rfl⟩
  case h_4 _ outside =>
    refine absurd outside ?_
    split <;> simp [start, under, start.le, under.le]

/-- The search ends on a point of the interval if one of its grids is finer than the interval. -/
theorem searchGrids_roundsTo (positive : 0 < m) (steps : Nat)
    (fine : (10 : ℚ) ^ (k - steps) < 2 ^ (q - 1)) :
    RoundsTo ((searchGrids m q (steps + 1) k).1 * 10 ^ (searchGrids m q (steps + 1) k).2) m q := by
  induction steps generalizing k with
  | zero =>
      rw [Nat.cast_zero, sub_zero] at fine
      obtain ⟨t, found⟩ := exists_pointIn? fine
      rw [searchGrids, found]
      exact pointIn?_roundsTo positive found
  | succ steps ih =>
      rw [searchGrids]
      cases found : pointIn? m q k with
      | some t => exact pointIn?_roundsTo positive found
      | none =>
          refine ih ?_
          rwa [sub_sub, add_comm 1, ← Nat.cast_succ]

end Grid

/-! ### The last grid -/

/-- Ten to the third is below two to the tenth, and ten to the twenty-fifth above two to the
eighty-third. -/
theorem ten_zpow_lt {k e : Int} (bound : 0 ≤ k ∧ 10 * k < 3 * e ∨ k ≤ 0 ∧ 83 * k < 25 * e) :
    (10 : ℚ) ^ k < 2 ^ e := by
  rcases bound with ⟨positive, bound⟩ | ⟨negative, bound⟩
  · refine lt_of_pow_lt_pow_left₀ 3 (by positivity) ?_
    calc ((10 : ℚ) ^ k) ^ 3 = (10 ^ 3) ^ k := by rw [← zpow_natCast, ← zpow_natCast, zpow_comm]
      _ ≤ (2 ^ 10) ^ k := zpow_le_zpow_left₀ positive (by norm_num) (by norm_num)
      _ = 2 ^ (10 * k) := by rw [← zpow_natCast, ← zpow_mul]; norm_num
      _ < 2 ^ (3 * e) := zpow_lt_zpow_right₀ (by norm_num) bound
      _ = (2 ^ e) ^ 3 := by rw [← zpow_natCast, ← zpow_mul]; congr 1; omega
  · refine lt_of_pow_lt_pow_left₀ 25 (by positivity) ?_
    calc ((10 : ℚ) ^ k) ^ 25 = ((10 ^ 25) ^ (-k))⁻¹ := by
          rw [zpow_neg, inv_inv, ← zpow_natCast, ← zpow_natCast, zpow_comm]
      _ ≤ ((2 ^ 83) ^ (-k))⁻¹ := by
          refine inv_anti₀ (by positivity)
            (zpow_le_zpow_left₀ (by omega) (by norm_num) (by norm_num))
      _ = 2 ^ (83 * k) := by rw [zpow_neg, inv_inv, ← zpow_natCast, ← zpow_mul]; norm_num
      _ < 2 ^ (25 * e) := zpow_lt_zpow_right₀ (by norm_num) bound
      _ = (2 ^ e) ^ 25 := by rw [← zpow_natCast, ← zpow_mul]; congr 1; omega

/-- The digits that are found for a number read back as that number. -/
theorem shortest_roundsTo {m : Nat} {q : Int} (canonical : Canonical m q) (positive : 0 < m) :
    RoundsTo ((shortest m q).1 * 10 ^ (shortest m q).2) m q := by
  refine searchGrids_roundsTo positive 23 (ten_zpow_lt ?_)
  have small := canonical.small
  have least := canonical.least
  have greatest := canonical.greatest
  have digits : m.log2 < 53 := (Nat.log2_lt positive.ne').mpr (by rw [hiddenBit_eq] at small; omega)
  unfold leastExponent at least
  unfold coarsestGrid
  omega

end Lox.Decimal
