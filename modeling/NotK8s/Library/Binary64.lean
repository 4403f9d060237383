import Mathlib.Algebra.Order.Floor.Ring
import Mathlib.Data.Int.Log
import Mathlib.Data.Rat.Floor

namespace NotK8s.Library

/-!
# Rounding to binary64

The rational that a double-precision operation returns: the exact result
rounded to 53 significant bits, ties to even, with the exponent bounded
below.  Overflow to infinity is left out, since what is rounded here is
afterwards converted to an integer type that is far smaller and saturates.
-/

namespace Binary64

/-- The nearest integer, the even one of two. -/
def roundHalfEven (q : ℚ) : ℤ :=
  if q - ⌊q⌋ < 1 / 2 then ⌊q⌋
  else if 1 / 2 < q - ⌊q⌋ then ⌊q⌋ + 1
  else if ⌊q⌋ % 2 = 0 then ⌊q⌋ else ⌊q⌋ + 1

/-- The nearest integer, the one away from zero of two. -/
def roundHalfAway (q : ℚ) : ℤ :=
  if 0 ≤ q then ⌊q + 1 / 2⌋ else ⌈q - 1 / 2⌉

/-- The exponent of the last significant bit. -/
def unit (q : ℚ) : ℤ :=
  max (Int.log 2 |q| - 52) (-1074)

def nearest (q : ℚ) : ℚ :=
  roundHalfEven (q / 2 ^ unit q) * 2 ^ unit q

variable {n : ℤ}

theorem roundHalfEven_intCast : roundHalfEven n = n := by
  unfold roundHalfEven
  rw [Int.floor_intCast, sub_self, if_pos (by norm_num)]

theorem roundHalfAway_intCast : roundHalfAway n = n := by
  unfold roundHalfAway
  split_ifs with sign
  · rw [Int.floor_eq_iff]
    constructor
    · linarith
    · linarith
  · rw [Int.ceil_eq_iff]
    constructor
    · linarith
    · linarith

theorem unit_nonpos (small : |n| < 2 ^ 53) : unit n ≤ 0 := by
  unfold unit
  rcases eq_or_ne n 0 with rfl | nonzero
  · simp
  · have positive : (0 : ℚ) < |(n : ℚ)| := abs_pos.mpr (Int.cast_ne_zero.mpr nonzero)
    have below : |(n : ℚ)| < (2 : ℕ) ^ (53 : ℤ) := by
      rw [← Int.cast_abs]
      exact_mod_cast small
    have bits := (Int.lt_zpow_iff_log_lt (by norm_num) positive).mp below
    omega

theorem nearest_intCast (small : |n| < 2 ^ 53) : nearest n = n := by
  have scaled : (n : ℚ) / 2 ^ unit n = ((n * 2 ^ (-unit n).toNat : ℤ) : ℚ) := by
    rw [div_eq_mul_inv, ← zpow_neg, Int.cast_mul, Int.cast_pow, ← zpow_natCast,
      Int.toNat_of_nonneg (neg_nonneg.mpr (unit_nonpos small))]
    rfl
  unfold nearest
  rw [scaled, roundHalfEven_intCast, ← scaled]
  exact div_mul_cancel₀ _ (zpow_ne_zero _ (by norm_num))

end Binary64
end NotK8s.Library
