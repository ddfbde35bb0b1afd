import Mathlib.Data.Int.Log
import Mathlib.Data.Rat.Floor
import Mathlib.Tactic.Ring

/-!
Contract: rounding a rational to a binary number of bounded precision.

Owns: `roundHalfEven`, the integer next to a rational; `Precision`, how many binary digits a
number has and where the least one may stand; `nearest`, the number next to a rational; and
that the numbers with few digits are the ones that rounding leaves as they are.

Does not own: overflow, signs of zero and infinities.
-/

namespace CixCache.Lib

/-! ## To an integer -/

/-- The nearest integer, and the even one of two. -/
def roundHalfEven (q : ℚ) : ℤ :=
  if q - ⌊q⌋ < 1 / 2 then ⌊q⌋
  else if 1 / 2 < q - ⌊q⌋ then ⌊q⌋ + 1
  else if ⌊q⌋ % 2 = 0 then ⌊q⌋
  else ⌊q⌋ + 1

@[simp] theorem roundHalfEven_intCast (n : ℤ) : roundHalfEven n = n := by
  unfold roundHalfEven
  rw [Int.floor_intCast, if_pos (by norm_num)]

theorem floor_le_roundHalfEven (q : ℚ) : ⌊q⌋ ≤ roundHalfEven q := by
  unfold roundHalfEven
  split_ifs <;> omega

theorem roundHalfEven_le_floor (q : ℚ) : roundHalfEven q ≤ ⌊q⌋ + 1 := by
  unfold roundHalfEven
  split_ifs <;> omega

/-- Rounding stays inside bounds that are integers. -/
theorem abs_roundHalfEven_le {q : ℚ} {bound : ℤ} (inside : |q| < bound) :
    |roundHalfEven q| ≤ bound := by
  obtain ⟨low, high⟩ := abs_lt.mp inside
  have least : -bound ≤ ⌊q⌋ := Int.le_floor.mpr (by push_cast; exact low.le)
  have most : ⌊q⌋ < bound := Int.floor_lt.mpr high
  have above := floor_le_roundHalfEven q
  have below := roundHalfEven_le_floor q
  rw [abs_le]
  omega

/-! ## To a number of bounded precision -/

theorem two_zpow_pos (e : ℤ) : (0 : ℚ) < 2 ^ e := zpow_pos (by norm_num) e

/-- So many binary digits, the least of them at a power of two that is not below `least`. -/
structure Precision where
  digits : ℕ
  least : ℤ
deriving DecidableEq, Repr

namespace Precision

variable {format : Precision} {q : ℚ}

/-- The exponent of the least digit a number near `q` may have. -/
def exponent (format : Precision) (q : ℚ) : ℤ :=
  max (Int.log 2 |q| + 1 - format.digits) format.least

/-- An integer of so many digits, times a power of two. -/
def Represents (format : Precision) (q : ℚ) : Prop :=
  ∃ mantissa exponent : ℤ, q = mantissa * 2 ^ exponent ∧ |mantissa| ≤ 2 ^ format.digits ∧
    format.least ≤ exponent

def nearest (format : Precision) (q : ℚ) : ℚ :=
  roundHalfEven (q / 2 ^ format.exponent q) * 2 ^ format.exponent q

theorem nearest_of_multiple (mantissa : ℤ) (multiple : q = mantissa * 2 ^ format.exponent q) :
    format.nearest q = q := by
  have scaled : q / 2 ^ format.exponent q = mantissa := by
    rw [div_eq_iff (two_zpow_pos _).ne']
    exact multiple
  rw [nearest, scaled, roundHalfEven_intCast]
  exact multiple.symm

theorem mul_zpow_of_le {small large : ℤ} (le : small ≤ large) (n : ℤ) :
    ∃ mantissa : ℤ, (n : ℚ) * 2 ^ large = mantissa * 2 ^ small := by
  refine ⟨n * 2 ^ (large - small).toNat, ?_⟩
  have split : large = (large - small).toNat + small := by omega
  conv_lhs => rw [split, zpow_add₀ (by norm_num), zpow_natCast]
  push_cast
  ring

/-- A number is in range of its own leading digit. -/
theorem log_lt_of_represents {mantissa exponent : ℤ} (nonzero : q ≠ 0)
    (value : q = mantissa * 2 ^ exponent) (short : |mantissa| ≤ 2 ^ format.digits) :
    Int.log 2 |q| ≤ format.digits + exponent ∧
      (Int.log 2 |q| = format.digits + exponent → |mantissa| = 2 ^ format.digits) := by
  have size : |q| = |mantissa| * 2 ^ exponent := by
    rw [value, abs_mul, abs_of_pos (two_zpow_pos exponent)]
    push_cast
    rfl
  have lower : ((2 : ℕ) : ℚ) ^ Int.log 2 |q| ≤ |q| :=
    Int.zpow_log_le_self (by norm_num) (abs_pos.mpr nonzero)
  have upper : |q| ≤ 2 ^ (format.digits + exponent : ℤ) := by
    rw [size, zpow_add₀ (by norm_num), zpow_natCast]
    have cast : ((|mantissa| : ℤ) : ℚ) ≤ 2 ^ format.digits := by exact_mod_cast short
    exact mul_le_mul_of_nonneg_right cast (two_zpow_pos exponent).le
  have le : Int.log 2 |q| ≤ format.digits + exponent := by
    have chain : (2 : ℚ) ^ Int.log 2 |q| ≤ 2 ^ (format.digits + exponent : ℤ) := by
      exact_mod_cast lower.trans upper
    exact (zpow_le_zpow_iff_right₀ (by norm_num)).mp chain
  refine ⟨le, ?_⟩
  intro extreme
  apply le_antisymm short
  have full : (2 : ℚ) ^ (format.digits + exponent : ℤ) ≤ |mantissa| * 2 ^ exponent := by
    rw [← size, ← extreme]
    exact_mod_cast lower
  rw [zpow_add₀ (by norm_num), zpow_natCast] at full
  have cast := le_of_mul_le_mul_right full (two_zpow_pos exponent)
  exact_mod_cast cast

/-- Numbers of the format are left as they are. -/
theorem nearest_of_represents (positive : 0 < format.digits) (represents : format.Represents q) :
    format.nearest q = q := by
  by_cases zero : q = 0
  · rw [zero]
    exact nearest_of_multiple 0 (by simp)
  obtain ⟨mantissa, exponent, value, short, allowed⟩ := represents
  obtain ⟨inside, extreme⟩ := log_lt_of_represents zero value short
  by_cases coarse : format.exponent q ≤ exponent
  · obtain ⟨whole, same⟩ := mul_zpow_of_le coarse mantissa
    exact nearest_of_multiple whole (value.trans same)
  -- One exponent higher, which is where the largest mantissa is carried to.
  have carried : Int.log 2 |q| = format.digits + exponent ∧ format.exponent q = exponent + 1 := by
    unfold Precision.exponent at coarse ⊢
    omega
  have largest := extreme carried.1
  obtain ⟨half, digits⟩ : ∃ half : ℕ, format.digits = half + 1 :=
    ⟨format.digits - 1, by omega⟩
  have even : ∃ n : ℤ, mantissa = n * 2 := by
    rcases abs_choice mantissa with same | same
    · exact ⟨2 ^ half, by rw [← same, largest, digits, pow_succ]⟩
    · exact ⟨-2 ^ half, by
        rw [show mantissa = -|mantissa| by rw [same, neg_neg], largest, digits, pow_succ]
        ring⟩
  obtain ⟨n, rfl⟩ := even
  apply nearest_of_multiple n
  rw [carried.2]
  conv_lhs => rw [value]
  rw [zpow_add₀ (by norm_num)]
  push_cast
  ring

/-- Rounding gives a number of the format. -/
theorem represents_nearest (format : Precision) (q : ℚ) : format.Represents (format.nearest q) := by
  refine ⟨_, _, rfl, ?_, le_max_right _ _⟩
  apply abs_roundHalfEven_le
  have below : |q| < 2 ^ (Int.log 2 |q| + 1) := by
    exact_mod_cast Int.lt_zpow_succ_log_self (b := 2) (by norm_num) |q|
  rw [abs_div, abs_of_pos (two_zpow_pos _), div_lt_iff₀ (two_zpow_pos _)]
  push_cast
  refine below.trans_le ?_
  rw [← zpow_natCast, ← zpow_add₀ (by norm_num)]
  apply zpow_le_zpow_right₀ (by norm_num)
  unfold exponent
  omega

theorem nearest_nearest (positive : 0 < format.digits) (q : ℚ) :
    format.nearest (format.nearest q) = format.nearest q :=
  nearest_of_represents positive (represents_nearest format q)

/-- A whole number of so many digits is of the format. -/
theorem represents_intCast {n : ℤ} (short : |n| ≤ 2 ^ format.digits) (least : format.least ≤ 0) :
    format.Represents n :=
  ⟨n, 0, by simp, short, least⟩

end Precision

end CixCache.Lib
