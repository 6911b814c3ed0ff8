import Mathlib.Algebra.BigOperators.Group.List.Basic
import Mathlib.Algebra.Order.Floor.Ring
import Mathlib.Data.Rat.Cast.Order
import Mathlib.Tactic.FieldSimp
import Mathlib.Tactic.Linarith
import Mathlib.Tactic.NormNum
import Mathlib.Tactic.Positivity
import Mathlib.Tactic.Ring

/-!
# Rounding

Python's `round` in exact arithmetic: to the nearest integer, or to a
number of decimals, and to the even neighbour where both are equally near.
Everything rests on the error of a single rounding, at most one half of the
last place; a sum of rounded numbers is off by that much for each summand.
-/

namespace ThreatIntel

namespace Rounding

variable {K : Type*} [Field K] [LinearOrder K] [IsStrictOrderedRing K] [FloorRing K]

-- the literal 2 of `K` needs this and no proof of its own
local instance atLeastTwo_two : Nat.AtLeastTwo 2 := ⟨le_rfl⟩

omit [IsStrictOrderedRing K] in
/-- `round(x)`. -/
def roundEven (x : K) : ℤ :=
  let n := ⌊x⌋
  if x - n < 1 / 2 then n
  else if 1 / 2 < x - n then n + 1
  else if n % 2 = 0 then n
  else n + 1

omit [IsStrictOrderedRing K] in
/-- `round(x, places)`. -/
def roundTo (places : ℕ) (x : K) : ℚ := roundEven (x * 10 ^ places) / 10 ^ places

theorem abs_roundEven_sub_le (x : K) : |(roundEven x : K) - x| ≤ 1 / 2 := by
  have hlo := Int.floor_le x
  have hhi := Int.lt_floor_add_one x
  rw [roundEven]
  split
  · next hlt => rw [abs_le]; constructor <;> linarith
  · next hge =>
      split
      · next hgt => rw [Int.cast_add, Int.cast_one, abs_le]; constructor <;> linarith
      · next hle =>
          -- halfway between two integers
          split
          · rw [abs_le]; constructor <;> linarith
          · rw [Int.cast_add, Int.cast_one, abs_le]; constructor <;> linarith

/-- Rounding does not leave an interval between integers. -/
theorem roundEven_mem_Icc {x : K} {a b : ℤ} (ha : (a : K) ≤ x) (hb : x ≤ b) :
    a ≤ roundEven x ∧ roundEven x ≤ b := by
  obtain ⟨hlo, hhi⟩ := abs_le.mp (abs_roundEven_sub_le x)
  have hlower : (a : K) < (roundEven x + 1 : ℤ) := by
    rw [Int.cast_add, Int.cast_one]
    linarith
  have hupper : (roundEven x : K) < (b + 1 : ℤ) := by
    rw [Int.cast_add, Int.cast_one]
    linarith
  exact ⟨Int.lt_add_one_iff.mp (Int.cast_lt.mp hlower), Int.lt_add_one_iff.mp (Int.cast_lt.mp hupper)⟩

/-- Of two numbers the greater is not rounded to less: the two errors leave
no room for it. -/
theorem roundEven_mono {x y : K} (h : x ≤ y) : roundEven x ≤ roundEven y := by
  by_contra hlt
  have hone : ((roundEven y : ℤ) : K) + 1 ≤ roundEven x := by
    exact_mod_cast Int.add_one_le_of_lt (not_le.mp hlt)
  obtain ⟨-, hx⟩ := abs_le.mp (abs_roundEven_sub_le x)
  obtain ⟨hy, -⟩ := abs_le.mp (abs_roundEven_sub_le y)
  have heq : x = y := le_antisymm h (by linarith)
  exact hlt (le_of_eq (congrArg roundEven heq))

theorem abs_roundTo_sub_le (places : ℕ) (x : K) :
    |((roundTo places x : ℚ) : K) - x| ≤ 1 / 2 / 10 ^ places := by
  have hpos : (0 : K) < 10 ^ places := by positivity
  have heq : ((roundTo places x : ℚ) : K) - x =
      ((roundEven (x * 10 ^ places) : K) - x * 10 ^ places) / 10 ^ places := by
    rw [roundTo]
    push_cast
    field_simp
  rw [heq, abs_div, abs_of_pos hpos]
  exact (div_le_div_iff_of_pos_right hpos).mpr (abs_roundEven_sub_le _)

/-- The error of a sum of rounded numbers. -/
theorem abs_sum_roundTo_sub_le (places : ℕ) (xs : List K) :
    |(((xs.map (roundTo places)).sum : ℚ) : K) - xs.sum| ≤ xs.length * (1 / 2 / 10 ^ places) := by
  induction xs with
  | nil => simp
  | cons x xs ih =>
      have hx := abs_roundTo_sub_le places x
      have heq : (((List.map (roundTo places) (x :: xs)).sum : ℚ) : K) - (x :: xs).sum =
          (((roundTo places x : ℚ) : K) - x) +
            ((((xs.map (roundTo places)).sum : ℚ) : K) - xs.sum) := by
        simp only [List.map_cons, List.sum_cons, Rat.cast_add]
        ring
      rw [heq, List.length_cons, Nat.cast_succ, add_mul, one_mul, add_comm (_ * _)]
      exact (abs_add_le _ _).trans (add_le_add hx ih)

end Rounding

end ThreatIntel
