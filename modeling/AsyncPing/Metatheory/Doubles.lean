import AsyncPing.Core.JsonValue
import Mathlib.Algebra.Order.Field.Rat
import Mathlib.Tactic.Linarith
import Mathlib.Tactic.Positivity

/-!
The doubles a number becomes: an infinity where it is too large, and otherwise a number
next to it, whose sign is lost only where it is zero.
-/
namespace AsyncPing

/-- Rounding leaves the integers of 32 bits as they are. -/
def Reader.Exact (double : Rat → Rat) : Prop := ∀ n : Int, n.natAbs < 2 ^ 32 → double n = n

theorem Reader.Exact.zero {double : Rat → Rat} (rounding : Exact double) : double 0 = 0 := by
  have same := rounding 0 (by decide)
  rwa [Int.cast_zero] at same

namespace Double

/-- The number alone, minus zero being zero. -/
def unsigned : Double → Double
  | finite value => finite value
  | negativeZero => finite 0
  | infinity negative => infinity negative

/-- What is read for a number. -/
def read (double : Rat → Rat) (value : Rat) : Double := ((finite value).rounded double).unsigned

/-- Nothing was too large to be held. -/
inductive IsFinite : Double → Prop
  | finite (value : Rat) : IsFinite (finite value)
  | negativeZero : IsFinite negativeZero

theorem pow_le_bound {k : Nat} (few : k ≤ 1024) : (2 : Rat) ^ k ≤ bound :=
  pow_le_pow_right₀ (by norm_num) few

theorem bound_pos : 0 < bound := lt_of_lt_of_le (by norm_num) (pow_le_bound (Nat.zero_le _))

section nearest
variable {double : Rat → Rat} {negative : Bool} {size value : Rat}

theorem not_overflowing (small : |value| < bound) : ¬(value ≤ -bound ∨ bound ≤ value) := by
  obtain ⟨low, high⟩ := abs_lt.mp small
  rintro (below | above) <;> linarith

theorem unsigned_nearest : (nearest double negative size).unsigned =
    if double (if negative then -size else size) ≤ -bound ∨
        bound ≤ double (if negative then -size else size) then infinity negative
    else finite (double (if negative then -size else size)) := by
  unfold nearest
  dsimp only
  generalize double (if negative then -size else size) = value
  split
  · rfl
  · split
    · rename_i zero
      rw [zero.2]
      rfl
    · rfl

theorem rounded_finite (double : Rat → Rat) (value : Rat) : (finite value).rounded double =
    nearest double (value < 0) |value| := by
  rw [rounded]
  split
  · rename_i negative
    rw [abs_of_neg negative]
  · rename_i positive
    rw [abs_of_nonneg (not_lt.mp positive)]

theorem sign_abs (value : Rat) :
    (if decide (value < 0) = true then -|value| else |value|) = value := by
  split
  · rename_i negative
    rw [abs_of_neg (of_decide_eq_true negative), neg_neg]
  · rename_i positive
    exact abs_of_nonneg (not_lt.mp fun negative => positive (decide_eq_true negative))

/-- The sign of a number is the sign of its infinity. -/
theorem read_eq : read double value =
    if double value ≤ -bound ∨ bound ≤ double value then infinity (value < 0)
    else finite (double value) := by
  rw [read, rounded_finite, unsigned_nearest, sign_abs]

theorem unsigned_nearest_eq_read (zero : double 0 = 0) (nonneg : 0 ≤ size) :
    (nearest double negative size).unsigned = read double (if negative then -size else size) := by
  rw [unsigned_nearest, read_eq]
  rcases nonneg.eq_or_lt with rfl | positive
  · have same : (if negative then -(0 : Rat) else 0) = 0 := by rw [neg_zero, ite_self]
    have small : |double 0| < bound := by rw [zero, abs_zero]; exact bound_pos
    rw [same, if_neg (not_overflowing small), if_neg (not_overflowing small)]
  · have sign : negative = decide ((if negative then -size else size) < 0) := by
      cases negative with
      | true => exact (decide_eq_true (neg_lt_zero.mpr positive)).symm
      | false => exact (decide_eq_false (not_lt.mpr nonneg)).symm
    rw [← sign]

theorem read_of_small (small : |double value| < bound) :
    read double value = finite (double value) := by
  rw [read_eq, if_neg (not_overflowing small)]

/-- A number that was not too large stays one, but for a sign before zero. -/
theorem rounded_of_small (small : |double value| < bound) :
    (finite value).rounded double = finite (double value) ∨
      (finite value).rounded double = negativeZero := by
  rw [rounded_finite, nearest, sign_abs, if_neg (not_overflowing small)]
  split
  · exact .inr rfl
  · exact .inl rfl

theorem rounded_of_ne_zero (small : |double value| < bound) (nonzero : double value ≠ 0) :
    (finite value).rounded double = finite (double value) := by
  rw [rounded_finite, nearest, sign_abs, if_neg (not_overflowing small),
    if_neg fun zero => nonzero zero.2]

theorem rounded_zero (zero : double 0 = 0) : (finite 0).rounded double = finite 0 := by
  have small : |double 0| < bound := by rw [zero, abs_zero]; exact bound_pos
  have positive : ¬(decide ((0 : Rat) < 0) = true ∧ double 0 = 0) := fun both =>
    lt_irrefl 0 (of_decide_eq_true both.1)
  rw [rounded_finite, nearest, sign_abs, if_neg (not_overflowing small), if_neg positive, zero]

theorem read_int (rounding : Reader.Exact double) {n : Int} (few : n.natAbs < 2 ^ 32) :
    read double n = finite n := by
  have small : |double n| < bound := by
    have size : (|n| : Int) < 2 ^ 32 := by
      rw [Int.abs_eq_natAbs]
      omega
    have cast : ((|n| : Int) : Rat) < ((2 ^ 32 : Int) : Rat) := Int.cast_lt.mpr size
    rw [rounding n few]
    calc |(n : Rat)| = ((|n| : Int) : Rat) := Int.cast_abs.symm
      _ < ((2 ^ 32 : Int) : Rat) := cast
      _ = 2 ^ 32 := by norm_num
      _ ≤ bound := pow_le_bound (by decide)
  rw [read_of_small small, rounding n few]

end nearest

end Double
end AsyncPing
