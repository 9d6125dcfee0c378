import Mathlib.Data.Int.Log
import Mathlib.Data.Rat.Floor
import Mathlib.Algebra.Order.Field.Power
import Mathlib.Tactic.Linarith

/-!
# Rounding to binary64

The result of an arithmetic operation on `f64` is the exact result rounded to the nearest
multiple of the unit in its last place, ties to the even multiple.  The unit is fixed by the
magnitude, and no unit is smaller than that of the subnormal numbers.
-/

namespace SimpleSandbox.Binary64

/-- The nearest integer; halfway between two of them the even one. -/
def nearestInt (x : ℚ) : ℤ :=
  if x - ⌊x⌋ < 1 / 2 then ⌊x⌋
  else if 1 / 2 < x - ⌊x⌋ then ⌊x⌋ + 1
  else if ⌊x⌋ % 2 = 0 then ⌊x⌋ else ⌊x⌋ + 1

theorem abs_nearestInt_sub_le (x : ℚ) : |(nearestInt x : ℚ) - x| ≤ 1 / 2 := by
  have hfloor := Int.floor_le x
  have hlt := Int.lt_floor_add_one x
  unfold nearestInt
  rw [abs_le]
  split
  · constructor <;> linarith
  · rename_i hhalf
    push Not at hhalf
    split
    · push_cast
      constructor <;> linarith
    · rename_i hhalf'
      push Not at hhalf'
      split
      · constructor <;> linarith
      · push_cast
        constructor <;> linarith

/-- The exponent of the unit in the last place. -/
def unitExponent (x : ℚ) : ℤ := max (Int.log 2 |x| - 52) (-1074)

/-- The nearest multiple of the unit in the last place. -/
def roundNearest (x : ℚ) : ℚ := nearestInt (x / 2 ^ unitExponent x) * 2 ^ unitExponent x

theorem abs_roundNearest_sub_le (x : ℚ) : |roundNearest x - x| ≤ 2 ^ unitExponent x / 2 := by
  have hunit : (0 : ℚ) < 2 ^ unitExponent x := zpow_pos (by norm_num) _
  have hscaled := abs_nearestInt_sub_le (x / 2 ^ unitExponent x)
  have hsplit : roundNearest x - x =
      ((nearestInt (x / 2 ^ unitExponent x) : ℚ) - x / 2 ^ unitExponent x) *
        2 ^ unitExponent x := by
    rw [sub_mul, div_mul_cancel₀ _ hunit.ne', roundNearest]
  rw [hsplit, abs_mul, abs_of_pos hunit]
  calc |(nearestInt (x / 2 ^ unitExponent x) : ℚ) - x / 2 ^ unitExponent x| * 2 ^ unitExponent x
      ≤ 1 / 2 * 2 ^ unitExponent x := mul_le_mul_of_nonneg_right hscaled hunit.le
    _ = 2 ^ unitExponent x / 2 := by ring

/-- The unit is a small part of the magnitude. -/
theorem unit_le {x : ℚ} (hx : 0 < x) : (2 : ℚ) ^ unitExponent x ≤ (x + 1) / 2 ^ 52 := by
  have hlog : (2 : ℚ) ^ Int.log 2 x ≤ x := by
    have hle := Int.zpow_log_le_self (b := 2) (by norm_num) hx
    exact_mod_cast hle
  rw [unitExponent, abs_of_pos hx]
  rcases max_choice (Int.log 2 x - 52) (-1074) with h | h
  · rw [h, zpow_sub₀ (by norm_num)]
    exact div_le_div_of_nonneg_right (by linarith) (by positivity)
  · -- the smallest unit is far below this part of 1
    rw [h]
    have hsmall : (2 : ℚ) ^ (-1074 : ℤ) ≤ 2 ^ (-52 : ℤ) :=
      zpow_le_zpow_right₀ (by norm_num) (by norm_num)
    have hone : (2 : ℚ) ^ (-52 : ℤ) ≤ (x + 1) / 2 ^ 52 := by
      rw [zpow_neg, zpow_ofNat, ← one_div]
      exact div_le_div_of_nonneg_right (by linarith) (by positivity)
    exact hsmall.trans hone

/-- Rounding adds at most a small part of a positive value. -/
theorem roundNearest_le {x : ℚ} (hx : 0 < x) : roundNearest x ≤ x + (x + 1) / 2 ^ 53 := by
  have herror := (abs_le.mp (abs_roundNearest_sub_le x)).2
  have hunit := unit_le hx
  linarith

/-- It takes no more from it. -/
theorem le_roundNearest {x : ℚ} (hx : 0 < x) : x - (x + 1) / 2 ^ 53 ≤ roundNearest x := by
  have herror := (abs_le.mp (abs_roundNearest_sub_le x)).1
  have hunit := unit_le hx
  linarith

theorem le_nearestInt {n : ℤ} {x : ℚ} (h : (n : ℚ) ≤ x) : n ≤ nearestInt x := by
  have hfloor := Int.le_floor.mpr h
  unfold nearestInt
  split
  · exact hfloor
  · split
    · omega
    · split <;> omega

theorem roundNearest_nonneg {x : ℚ} (hx : 0 ≤ x) : 0 ≤ roundNearest x := by
  have hunit : (0 : ℚ) < 2 ^ unitExponent x := zpow_pos (by norm_num) _
  exact mul_nonneg (by exact_mod_cast le_nearestInt (n := 0) (by simpa using div_nonneg hx hunit.le)) hunit.le

/-- Below a power of two the unit is a 53rd binary place below it. -/
theorem unitExponent_le {x : ℚ} (hx : 0 < x) {n : ℤ} (hn : -1021 ≤ n) (h : x < 2 ^ n) :
    unitExponent x ≤ n - 53 := by
  have hlog : Int.log 2 x < n := (Int.lt_zpow_iff_log_lt (by norm_num) hx).mp (by exact_mod_cast h)
  rw [unitExponent, abs_of_pos hx]
  omega

/-- Rounding does not go below a power of two. -/
theorem zpow_le_roundNearest {x : ℚ} {n : ℤ} (hn : -1074 ≤ n) (h : 2 ^ n ≤ x) :
    2 ^ n ≤ roundNearest x := by
  have hx : 0 < x := lt_of_lt_of_le (zpow_pos (by norm_num) _) h
  have hunit : (0 : ℚ) < 2 ^ unitExponent x := zpow_pos (by norm_num) _
  have hlog : n ≤ Int.log 2 x :=
    (Int.zpow_le_iff_le_log (by norm_num) hx).mp (by exact_mod_cast h)
  have hself : (2 : ℚ) ^ Int.log 2 x ≤ x := by
    have hle := Int.zpow_log_le_self (b := 2) (by norm_num) hx
    exact_mod_cast hle
  obtain ⟨k, hk⟩ := Int.eq_ofNat_of_zero_le (show 0 ≤ Int.log 2 x - unitExponent x by
    rw [unitExponent, abs_of_pos hx]
    omega)
  have hpower : (2 : ℚ) ^ Int.log 2 x = 2 ^ k * 2 ^ unitExponent x := by
    rw [← zpow_natCast, ← zpow_add₀ (by norm_num), ← hk, sub_add_cancel]
  have hint : ((2 ^ k : ℤ) : ℚ) ≤ x / 2 ^ unitExponent x := by
    rw [le_div_iff₀ hunit]
    push_cast
    rw [← hpower]
    exact hself
  calc (2 : ℚ) ^ n ≤ 2 ^ Int.log 2 x := zpow_le_zpow_right₀ (by norm_num) hlog
    _ = ((2 ^ k : ℤ) : ℚ) * 2 ^ unitExponent x := by push_cast; exact hpower
    _ ≤ roundNearest x :=
      mul_le_mul_of_nonneg_right (by exact_mod_cast le_nearestInt hint) hunit.le

end SimpleSandbox.Binary64
