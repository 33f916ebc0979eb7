import Mathlib.Algebra.Order.Ring.Rat
import Mathlib.Tactic.Linarith
import Stockroom.Number

/-!
# Rounding integers to binary64

An integer below `2 ^ 64` has at most 64 binary digits, and binary64 keeps 53 of them, so the last kept
one stands for at most `2 ^ 11`. The nearest binary64 number is no more than half of that away
(`Number.nearest_near`), and of two integers more than `2 ^ 11` apart the higher one stays higher
(`Number.nearest_lt_of_far`). Integers of fewer than 53 digits are not rounded at all.
-/

namespace Stockroom.Number

/-- Rounding a quotient to an integer moves it by at most half. -/
theorem halfEven_near (num : Nat) {den : Nat} (hden : 0 < den) :
    2 * num ≤ 2 * (halfEven num den * den) + den ∧ 2 * (halfEven num den * den) ≤ 2 * num + den := by
  have hdiv : num / den * den + num % den = num := Nat.div_add_mod' num den
  have hmod := Nat.mod_lt num hden
  simp only [halfEven]
  split
  · omega
  · have hup : (num / den + 1) * den = num / den * den + den := Nat.succ_mul _ _
    omega

theorem binaryExponent_natCast {n : Nat} (hn : n ≠ 0) : binaryExponent n 1 = Nat.log2 n := by
  have hlog : (Nat.log2 1 : Int) = 0 := by decide
  have hzero : (-(Nat.log2 n : Int)).toNat = 0 := by omega
  simp only [binaryExponent, hlog, Int.sub_zero, Int.toNat_natCast, hzero, Nat.shiftLeft_zero,
    Nat.one_shiftLeft, if_pos (Nat.log2_self_le hn)]

theorem nearest_natCast {n : Nat} (hn : n ≠ 0) :
    nearest ((n : Int) : Rat) = nearestMultiple n 1 (Nat.log2 n - 52) := by
  have hnum : (((n : Int) : Rat)).num = n := Rat.num_intCast _
  have hden : (((n : Int) : Rat)).den = 1 := Rat.den_intCast _
  have hunit : max ((Nat.log2 n : Int) - 52) (-1074) = Nat.log2 n - 52 := by omega
  simp only [nearest, hnum, hden, Int.natAbs_natCast, binaryExponent_natCast hn, hunit]
  rw [if_neg (by omega), if_neg (by omega)]

theorem halfEven_one (num : Nat) : halfEven num 1 = num := by simp [halfEven, Nat.mod_one]

/-- A natural number is a multiple of a power of two that is no more than one. -/
theorem nearestMultiple_of_neg (n k : Nat) : nearestMultiple n 1 (-k) = n := by
  have hunit : (-(k : Int)).toNat = 0 := by omega
  have hshift : (- -(k : Int)).toNat = k := by omega
  rw [nearestMultiple, hunit, hshift, Nat.shiftLeft_zero, Nat.shiftLeft_zero, halfEven_one,
    Nat.shiftLeft_eq, Nat.one_shiftLeft, Rat.mkRat_eq_div]
  simp

theorem nearestMultiple_natCast (n u : Nat) :
    nearestMultiple n 1 u = (halfEven n (2 ^ u) * 2 ^ u : Nat) := by
  have hshift : (-(u : Int)).toNat = 0 := by omega
  rw [nearestMultiple, hshift, Int.toNat_natCast, Nat.shiftLeft_zero, Nat.shiftLeft_zero,
    Nat.one_shiftLeft, Nat.shiftLeft_eq, Rat.mkRat_eq_div]
  simp

/-- The nearest binary64 number is at most half a step of the last digit away. -/
theorem nearest_near {n : Nat} (h : n < 2 ^ 64) :
    (n : Rat) ≤ nearest ((n : Int) : Rat) + 1024 ∧ nearest ((n : Int) : Rat) ≤ n + 1024 := by
  rcases Nat.eq_zero_or_pos n with rfl | hpos
  · simp [nearest]
  · have hn : n ≠ 0 := by omega
    rw [nearest_natCast hn]
    rcases Nat.lt_or_ge (Nat.log2 n) 52 with hfew | hmany
    · have hunit : (Nat.log2 n : Int) - 52 = -((52 - Nat.log2 n : Nat) : Int) := by omega
      rw [hunit, nearestMultiple_of_neg]
      constructor <;> linarith
    · obtain ⟨u, hu⟩ : ∃ u, Nat.log2 n = 52 + u := ⟨Nat.log2 n - 52, by omega⟩
      have hlog : Nat.log2 n < 64 := (Nat.log2_lt hn).mpr h
      have hunit : (Nat.log2 n : Int) - 52 = u := by omega
      have hstep : 2 ^ u ≤ 2 ^ 11 := Nat.pow_le_pow_right (by decide) (by omega)
      obtain ⟨hlow, hhigh⟩ := halfEven_near n (Nat.two_pow_pos u)
      rw [hunit, nearestMultiple_natCast]
      have hbelow : n ≤ halfEven n (2 ^ u) * 2 ^ u + 1024 := by omega
      have habove : halfEven n (2 ^ u) * 2 ^ u ≤ n + 1024 := by omega
      exact ⟨by exact_mod_cast hbelow, by exact_mod_cast habove⟩

/-- Of two integers more than `2 ^ 11` apart the higher one stays the higher one. -/
theorem nearest_lt_of_far {m n : Nat} (hfar : m + 2048 < n) (h : n < 2 ^ 64) :
    nearest ((m : Int) : Rat) < nearest ((n : Int) : Rat) := by
  obtain ⟨-, hm⟩ := nearest_near (n := m) (by omega)
  obtain ⟨hn, -⟩ := nearest_near h
  have hcast : (m : Rat) + 2048 < n := by exact_mod_cast hfar
  linarith

end Stockroom.Number
