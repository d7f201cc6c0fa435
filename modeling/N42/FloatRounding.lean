import Mathlib

/-!
Natural numbers as floating point numbers with a significand of 53 bits, rounded to the
nearest one and to the even one of two.
-/

namespace N42.FloatRounding

def roundToEven (unit n : Nat) : Nat :=
  if 2 * (n % unit) < unit ∨ (2 * (n % unit) = unit ∧ n / unit % 2 = 0) then n / unit * unit
  else (n / unit + 1) * unit

def unitOf (n : Nat) : Nat :=
  2 ^ (Nat.log2 n - 52)

def float64 (n : Nat) : Nat :=
  roundToEven (unitOf n) n

def floatDistance (m n : Nat) : Nat :=
  max (float64 m) (float64 n) - min (float64 m) (float64 n)

theorem roundToEven_one (n : Nat) : roundToEven 1 n = n := by
  rw [roundToEven, Nat.mod_one, if_pos (.inl (by decide)), Nat.div_one, Nat.mul_one]

theorem float64_of_lt {n : Nat} (h : n < 2 ^ 53) : float64 n = n := by
  have hunit : unitOf n = 1 := by
    have hlog : Nat.log2 n < 53 ∨ n = 0 := by
      rcases Nat.eq_zero_or_pos n with hzero | hpos
      · exact .inr hzero
      · exact .inl ((Nat.log2_lt (Nat.pos_iff_ne_zero.mp hpos)).mpr h)
    rcases hlog with hlog | rfl
    · rw [unitOf, Nat.sub_eq_zero_of_le (Nat.le_of_lt_succ hlog), Nat.pow_zero]
    · rfl
  rw [float64, hunit, roundToEven_one]

theorem floatDistance_of_lt {m n : Nat} (hm : m < 2 ^ 53) (hn : n < 2 ^ 53) :
    floatDistance m n = max m n - min m n := by
  rw [floatDistance, float64_of_lt hm, float64_of_lt hn]

end N42.FloatRounding
