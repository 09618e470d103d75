import Mathlib.Data.Rat.Floor
import Mathlib.Data.Int.Log
import Mathlib.Tactic.Linarith
import Mathlib.Tactic.Positivity
import Mathlib.Tactic.FieldSimp
import Mathlib.Tactic.Ring

/-! Rounding to binary64, for numbers whose exponent is in the normal range: the nearest number
with 53 significant bits, and of two nearest ones the even one. -/
namespace Go2Cloud.Binary64

def roundHalfEven (x : ℚ) : ℤ :=
  if x - ⌊x⌋ < 1 / 2 then ⌊x⌋
  else if 1 / 2 < x - ⌊x⌋ then ⌊x⌋ + 1
  else if ⌊x⌋ % 2 = 0 then ⌊x⌋
  else ⌊x⌋ + 1

theorem abs_roundHalfEven_sub_le (x : ℚ) : |(roundHalfEven x : ℚ) - x| ≤ 1 / 2 := by
  have low := Int.floor_le x
  have high := Int.lt_floor_add_one x
  unfold roundHalfEven
  rw [abs_le]
  split_ifs <;> push_cast <;> constructor <;> linarith

def ulp (x : ℚ) : ℚ := (2 : ℚ) ^ (Int.log 2 x - 52)

def nearest (x : ℚ) : ℚ := roundHalfEven (x / ulp x) * ulp x

theorem ulp_pos (x : ℚ) : 0 < ulp x := zpow_pos (by norm_num) _

theorem ulp_le {x : ℚ} (positive : 0 < x) : ulp x ≤ x / 2 ^ 52 := by
  have power : (2 : ℚ) ^ Int.log 2 x ≤ x := Int.zpow_log_le_self (by norm_num) positive
  rw [ulp, zpow_sub₀ (by norm_num)]
  exact div_le_div_of_nonneg_right power (by positivity)

theorem abs_nearest_sub_le {x : ℚ} (positive : 0 < x) : |nearest x - x| ≤ x / 2 ^ 53 := by
  have scaled : nearest x - x = (roundHalfEven (x / ulp x) - x / ulp x) * ulp x := by
    rw [nearest, sub_mul, div_mul_cancel₀ _ (ulp_pos x).ne']
  calc |nearest x - x| = |(roundHalfEven (x / ulp x) : ℚ) - x / ulp x| * ulp x := by
        rw [scaled, abs_mul, abs_of_pos (ulp_pos x)]
    _ ≤ 1 / 2 * (x / 2 ^ 52) := by
        gcongr
        · exact (ulp_pos x).le
        · exact abs_roundHalfEven_sub_le _
        · exact ulp_le positive
    _ = x / 2 ^ 53 := by ring

/-- The integer part of a quotient, with the operands and the quotient rounded. -/
def quotient (x y : ℚ) : Nat := ⌊nearest (nearest x / nearest y)⌋₊

theorem mul_one_sub_le_nearest {x : ℚ} (positive : 0 < x) : x * (1 - 1 / 2 ^ 53) ≤ nearest x := by
  have low := (abs_le.mp (abs_nearest_sub_le positive)).1
  linarith

theorem nearest_le_mul_one_add {x : ℚ} (positive : 0 < x) : nearest x ≤ x * (1 + 1 / 2 ^ 53) := by
  have high := (abs_le.mp (abs_nearest_sub_le positive)).2
  linarith

theorem nearest_pos {x : ℚ} (positive : 0 < x) : 0 < nearest x :=
  lt_of_lt_of_le (by positivity) (mul_one_sub_le_nearest positive)

/-- The three roundings and the cut lose less than 2, as long as the quotient is below 2^50. -/
theorem lt_mul_quotient {x y : ℚ} (hx : 0 < x) (hy : 0 < y) (small : x ≤ y * 2 ^ 50) :
    x < y * (quotient x y + 2) := by
  by_contra large
  rw [not_lt] at large
  have bounded : (quotient x y + 2 : ℚ) ≤ 2 ^ 50 := le_of_mul_le_mul_left (large.trans small) hy
  have cut : nearest (nearest x / nearest y) < quotient x y + 1 := Nat.lt_floor_add_one _
  have positive : 0 < nearest x / nearest y := div_pos (nearest_pos hx) (nearest_pos hy)
  have chain : y * ((quotient x y + 2) * (1 - 1 / 2 ^ 53) * (1 - 1 / 2 ^ 53)) <
      y * ((1 + 1 / 2 ^ 53) * (quotient x y + 1)) := by
    calc y * ((quotient x y + 2) * (1 - 1 / 2 ^ 53) * (1 - 1 / 2 ^ 53))
        = y * (quotient x y + 2) * (1 - 1 / 2 ^ 53) * (1 - 1 / 2 ^ 53) := by ring
      _ ≤ x * (1 - 1 / 2 ^ 53) * (1 - 1 / 2 ^ 53) := by gcongr
      _ ≤ nearest x * (1 - 1 / 2 ^ 53) := by
          gcongr
          exact mul_one_sub_le_nearest hx
      _ = nearest y * ((nearest x / nearest y) * (1 - 1 / 2 ^ 53)) := by
          rw [← mul_assoc, mul_div_cancel₀ _ (nearest_pos hy).ne']
      _ ≤ nearest y * nearest (nearest x / nearest y) := by
          gcongr
          · exact (nearest_pos hy).le
          · exact mul_one_sub_le_nearest positive
      _ < nearest y * (quotient x y + 1) := by
          gcongr
          exact nearest_pos hy
      _ ≤ y * (1 + 1 / 2 ^ 53) * (quotient x y + 1) := by
          gcongr
          exact nearest_le_mul_one_add hy
      _ = y * ((1 + 1 / 2 ^ 53) * (quotient x y + 1)) := by ring
  have divided := lt_of_mul_lt_mul_left chain hy.le
  norm_num at divided bounded
  linarith

end Go2Cloud.Binary64
